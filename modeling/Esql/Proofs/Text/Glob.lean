import Esql.Text.Glob
import Mathlib.Data.List.Pairwise

/-!
# What patterns match

The matcher reads a pattern one character at a time and keeps all the rests of the name that may
follow. It accepts the names that the pattern can be filled up to. A pattern with or without stars
matches itself, and one without stars nothing else.
-/

namespace Esql.Text

/-- A name arises from a pattern by putting some run of characters for each star. -/
def Fills : (pattern name : List Char) → Prop
  | [], name => name = []
  | c :: pattern, name =>
      if c = '*' then ∃ rest, rest <:+ name ∧ Fills pattern rest
      else ∃ rest, name = c :: rest ∧ Fills pattern rest

/-- The first of the rests that may follow has all others as ends. -/
def Nested (rests : List (List Char)) : Prop :=
  rests.Pairwise fun longer shorter => shorter <:+ longer

theorem nested_suffixes (cs : List Char) : Nested (suffixes cs) := by
  induction cs with
  | nil => exact List.pairwise_singleton _ _
  | cons c cs ih =>
      refine List.pairwise_cons.mpr ⟨fun rest member => ?_, ih⟩
      exact (mem_suffixes.mp member).trans (List.suffix_cons c cs)

theorem suffix_of_afterChar? {c : Char} {longer shorter first second : List Char}
    (ends : shorter <:+ longer) (found : afterChar? c longer = some first)
    (behind : afterChar? c shorter = some second) : second <:+ first := by
  rw [afterChar?_eq_some_iff] at found behind
  subst found behind
  rcases List.suffix_cons_iff.mp ends with same | inside
  · exact (List.cons.inj same).2 ▸ List.suffix_rfl
  · exact (List.suffix_cons c second).trans inside

theorem Nested.globStep {rests : List (List Char)} (nested : Nested rests) (c : Char) :
    Nested (globStep rests c) := by
  unfold Text.globStep
  split
  · cases rests with
    | nil => exact List.Pairwise.nil
    | cons first rest => exact nested_suffixes first
  · refine List.Pairwise.filterMap _ ?_ nested
    intro longer shorter ends first found second behind
    exact suffix_of_afterChar? ends found behind

/-- One character of a pattern is read off all rests at once. -/
theorem exists_fills_globStep {rests : List (List Char)} (nested : Nested rests) (c : Char)
    (pattern : List Char) :
    (∃ rest ∈ globStep rests c, Fills pattern rest) ↔
      ∃ rest ∈ rests, Fills (c :: pattern) rest := by
  by_cases star : c = '*'
  · subst star
    cases rests with
    | nil => simp [globStep]
    | cons first others =>
        have all : ∀ rest ∈ first :: others, rest <:+ first :=
          List.forall_mem_cons.mpr ⟨List.suffix_rfl, (List.pairwise_cons.mp nested).1⟩
        constructor
        · rintro ⟨rest, member, fills⟩
          exact ⟨first, .head _, rest, mem_suffixes.mp member, fills⟩
        · rintro ⟨rest, member, ending, ends, fills⟩
          exact ⟨ending, mem_suffixes.mpr (ends.trans (all rest member)), fills⟩
  · simp only [globStep, beq_eq_false_iff_ne.mpr star, Bool.false_eq_true, if_false, Fills,
      if_neg star, List.mem_filterMap, afterChar?_eq_some_iff]
    grind

theorem foldl_globStep {rests : List (List Char)} (nested : Nested rests) (pattern : List Char) :
    (pattern.foldl globStep rests).any List.isEmpty = true ↔
      ∃ rest ∈ rests, Fills pattern rest := by
  induction pattern generalizing rests with
  | nil => simp [Fills]
  | cons c pattern ih =>
      rw [List.foldl_cons, ih (nested.globStep c), exists_fills_globStep nested]

/-- The matcher accepts what the pattern can be filled up to. -/
theorem globMatch_iff (pattern name : String) :
    globMatch pattern name = true ↔ Fills pattern.toList name.toList := by
  rw [globMatch, foldl_globStep (List.pairwise_singleton _ _)]
  simp

theorem fills_self (cs : List Char) : Fills cs cs := by
  induction cs with
  | nil => rfl
  | cons c cs ih =>
      rw [Fills]
      split
      · exact ⟨cs, List.suffix_cons c cs, ih⟩
      · exact ⟨cs, rfl, ih⟩

/-- Without stars only the pattern itself fits. -/
theorem eq_of_fills {pattern name : List Char} (plain : '*' ∉ pattern)
    (fills : Fills pattern name) : name = pattern := by
  induction pattern generalizing name with
  | nil => exact fills
  | cons c pattern ih =>
      rw [List.mem_cons, not_or] at plain
      rw [Fills, if_neg (Ne.symm plain.1)] at fills
      obtain ⟨rest, rfl, fills⟩ := fills
      rw [ih plain.2 fills]

@[simp]
theorem globMatch_self (name : String) : globMatch name name = true :=
  (globMatch_iff name name).mpr (fills_self name.toList)

theorem eq_of_globMatch {pattern name : String} (plain : hasStar pattern = false)
    (matched : globMatch pattern name = true) : name = pattern := by
  rw [hasStar, List.contains_eq_mem, decide_eq_false_iff_not] at plain
  exact String.toList_injective (eq_of_fills plain ((globMatch_iff _ _).mp matched))

end Esql.Text
