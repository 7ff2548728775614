import Esql.Text.Letter

/-!
# Separators

Blanks, the pipe and the slash that opens a comment. No token goes on with one of them, so a text
may be cut before a separator without any effect on the tokens in front of it. Names and numbers
stop before many more characters.
-/

namespace Esql.Text

/-- A character behind which no token goes on. -/
def isSeparator (c : Char) : Bool := isBlank c || c == '|' || c == '/'

theorem inRanges_disjoint {ranges others : List (Nat × Nat)}
    (apart : ∀ range ∈ ranges, ∀ other ∈ others, range.2 < other.1 ∨ other.2 < range.1)
    {code : Nat} (inside : inRanges code others = true) : inRanges code ranges = false := by
  obtain ⟨other, otherMem, otherIn⟩ := List.any_eq_true.mp inside
  refine List.any_eq_false.mpr fun range rangeMem rangeIn => ?_
  simp only [Bool.and_eq_true, decide_eq_true_eq] at otherIn rangeIn
  rcases apart range rangeMem other otherMem with before | behind <;> omega

theorem alphabetic_apart_blank : ∀ range ∈ Alphabetic.ranges, ∀ blank ∈ blankRanges,
    range.2 < blank.1 ∨ blank.2 < range.1 := by
  decide +kernel

theorem numeric_apart_blank : ∀ range ∈ Numeric.ranges, ∀ blank ∈ blankRanges,
    range.2 < blank.1 ∨ blank.2 < range.1 := by
  decide +kernel

theorem ascii_apart_blank : ∀ range ∈ [(48, 57), (65, 90), (95, 95), (97, 122)],
    ∀ blank ∈ blankRanges, range.2 < blank.1 ∨ blank.2 < range.1 := by
  decide

theorem alphanum_code {c : Char} (named : c.isAlphanum = true) :
    48 ≤ c.toNat ∧ c.toNat ≤ 57 ∨ 65 ≤ c.toNat ∧ c.toNat ≤ 90 ∨ 97 ≤ c.toNat ∧ c.toNat ≤ 122 := by
  have bounds {low high : UInt32} (above : low ≤ c.val) (below : c.val ≤ high) :
      low.toNat ≤ c.toNat ∧ c.toNat ≤ high.toNat :=
    ⟨UInt32.le_iff_toNat_le.mp above, UInt32.le_iff_toNat_le.mp below⟩
  rcases Bool.or_eq_true_iff.mp named with letter | digit
  · rcases Bool.or_eq_true_iff.mp letter with upper | lower
    · obtain ⟨above, below⟩ := of_decide_eq_true upper
      exact .inr (.inl (bounds above below))
    · obtain ⟨above, below⟩ := Bool.and_eq_true_iff.mp lower
      exact .inr (.inr (bounds (of_decide_eq_true above) (of_decide_eq_true below)))
  · obtain ⟨above, below⟩ := Bool.and_eq_true_iff.mp digit
    exact .inl (bounds (of_decide_eq_true above) (of_decide_eq_true below))

theorem not_isAlphanum_of_isBlank {c : Char} (blank : isBlank c = true) :
    c.isAlphanum = false ∧ c ≠ '_' := by
  have outside := inRanges_disjoint ascii_apart_blank blank
  simp only [inRanges, List.any_cons, List.any_nil, Bool.or_false, Bool.or_eq_false_iff,
    Bool.and_eq_false_iff, decide_eq_false_iff_not] at outside
  refine ⟨?_, ?_⟩
  · refine Bool.eq_false_iff.mpr fun named => ?_
    have code := alphanum_code named
    omega
  · rintro rfl
    simp at outside

theorem not_continuesName_of_isBlank {c : Char} (blank : isBlank c = true) :
    continuesName c = false := by
  have ascii := not_isAlphanum_of_isBlank blank
  have letters := inRanges_disjoint alphabetic_apart_blank blank
  have numbers := inRanges_disjoint numeric_apart_blank blank
  simp [continuesName, isAlphanumeric, ascii.1, ascii.2, letters, numbers]

theorem not_continuesName_of_isSeparator {c : Char} (separator : isSeparator c = true) :
    continuesName c = false := by
  simp only [isSeparator, Bool.or_eq_true, beq_iff_eq] at separator
  rcases separator with (blank | rfl) | rfl
  · exact not_continuesName_of_isBlank blank
  · decide
  · decide

/-- A separator differs from every character that is none. -/
theorem ne_of_isSeparator {c other : Char} (separator : isSeparator c = true)
    (plain : isSeparator other = false) : c ≠ other := by
  rintro rfl
  rw [separator] at plain
  cases plain

theorem continuesName_of_isDigit {c : Char} (digit : isDigit c = true) :
    continuesName c = true := by
  have small : c.toNat < 128 :=
    Nat.lt_of_le_of_lt (Char.isDigit_iff_toNat.mp digit).2 (by decide)
  have named : c.isAlphanum = true := by
    unfold isDigit at digit
    simp [Char.isAlphanum, digit]
  simp [continuesName, isAlphanumeric, small, named]

theorem not_startsName_of_isDigit {c : Char} (digit : isDigit c = true) : startsName c = false := by
  have code := Char.isDigit_iff_toNat.mp digit
  have small : c.toNat < 128 := Nat.lt_of_le_of_lt code.2 (by decide)
  have bound : c.toNat ≤ 57 := code.2
  have letter : c.isAlpha = false := by
    refine Bool.eq_false_iff.mpr fun letter => ?_
    rcases Bool.or_eq_true_iff.mp letter with upper | lower
    · have above : 65 ≤ c.toNat := UInt32.le_iff_toNat_le.mp (of_decide_eq_true upper).1
      omega
    · have above : 97 ≤ c.toNat :=
        UInt32.le_iff_toNat_le.mp (of_decide_eq_true (Bool.and_eq_true_iff.mp lower).1)
      omega
  have marks : c ≠ '_' ∧ c ≠ '@' := by
    constructor <;> rintro rfl <;> revert bound <;> decide
  simp [startsName, isAlphabetic, small, letter, marks]

theorem not_startsName_of_isSeparator {c : Char} (separator : isSeparator c = true) :
    startsName c = false := by
  have outside := not_continuesName_of_isSeparator separator
  simp only [continuesName, Bool.or_eq_false_iff] at outside
  have at_ne : c ≠ '@' := ne_of_isSeparator separator (by decide)
  cases letter : isAlphabetic c with
  | false => simp [startsName, letter, outside.2, at_ne]
  | true =>
      rw [isAlphanumeric_of_isAlphabetic letter] at outside
      cases outside.1

/-- A character that goes on with no name, no number and no empty string before it. -/
def isStop (c : Char) : Bool :=
  !continuesName c && !startsName c && !List.contains ['.', '+', '-', '\x22'] c

theorem isStop_of_isSeparator {c : Char} (separator : isSeparator c = true) : isStop c = true := by
  have other : ['.', '+', '-', '\x22'].contains c = false := by
    refine Bool.eq_false_iff.mpr fun member => ?_
    have plain : ['.', '+', '-', '\x22'].all (fun mark => !isSeparator mark) = true := by decide
    have outside := List.all_eq_true.mp plain c (List.contains_iff_mem.mp member)
    rw [separator] at outside
    cases outside
  rw [isStop, not_continuesName_of_isSeparator separator, not_startsName_of_isSeparator separator,
    other]
  rfl

section

variable {c : Char} (stop : isStop c = true)

include stop

theorem not_continuesName_of_isStop : continuesName c = false := by
  simp only [isStop, Bool.and_eq_true, Bool.not_eq_true'] at stop
  exact stop.1.1

theorem not_startsName_of_isStop : startsName c = false := by
  simp only [isStop, Bool.and_eq_true, Bool.not_eq_true'] at stop
  exact stop.1.2

theorem not_isDigit_of_isStop : isDigit c = false := by
  refine Bool.eq_false_iff.mpr fun digit => ?_
  have outside := not_continuesName_of_isStop stop
  rw [continuesName_of_isDigit digit] at outside
  cases outside

theorem ne_of_isStop {other : Char} (plain : isStop other = false) : c ≠ other := by
  rintro rfl
  rw [stop] at plain
  cases plain

end

end Esql.Text
