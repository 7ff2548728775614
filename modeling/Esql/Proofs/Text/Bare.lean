import Esql.Text.Quoted

/-!
# Names without quotes

Whether a name needs quotes is judged of the name as a whole, but a name without quotes is read one
stretch between points after the other. A stretch that begins with a digit or with a reserved word
is not read as part of a name, and the judgement does not see it.
-/

namespace Esql.Text

section

variable {separator : Char} {cs : List Char}

theorem pieces_separator (rest : List Char) :
    pieces separator (separator :: rest) = [] :: pieces separator rest := by
  rw [pieces, if_pos (beq_self_eq_true separator)]

theorem exists_pieces (separator : Char) (cs : List Char) :
    ∃ piece others, pieces separator cs = piece :: others := by
  cases cs with
  | nil => exact ⟨[], [], rfl⟩
  | cons c cs =>
      rw [pieces]
      split
      · exact ⟨_, _, rfl⟩
      · split <;> exact ⟨_, _, rfl⟩

/-- What is no separator lengthens the first piece. -/
theorem exists_pieces_cons {c : Char} (other : c ≠ separator) (rest : List Char) :
    ∃ piece others, pieces separator rest = piece :: others ∧
      pieces separator (c :: rest) = (c :: piece) :: others := by
  have differs : ¬ (c == separator) = true := fun same => other (beq_iff_eq.mp same)
  obtain ⟨piece, others, behind⟩ := exists_pieces separator rest
  exact ⟨piece, others, behind, by rw [pieces, if_neg differs, behind]⟩

/-- The first piece ends at the first separator. -/
theorem pieces_append (absent : separator ∉ cs) (rest : List Char) :
    pieces separator (cs ++ separator :: rest) = cs :: pieces separator rest := by
  induction cs with
  | nil => exact pieces_separator rest
  | cons c cs ih =>
      rw [List.mem_cons, not_or] at absent
      obtain ⟨piece, others, behind, split⟩ :=
        exists_pieces_cons (Ne.symm absent.1) (cs ++ separator :: rest)
      rw [ih absent.2] at behind
      obtain ⟨rfl, rfl⟩ := List.cons.inj behind
      exact split

theorem pieces_of_notMem (absent : separator ∉ cs) : pieces separator cs = [cs] := by
  induction cs with
  | nil => rfl
  | cons c cs ih =>
      rw [List.mem_cons, not_or] at absent
      obtain ⟨piece, others, behind, split⟩ := exists_pieces_cons (Ne.symm absent.1) cs
      rw [ih absent.2] at behind
      obtain ⟨rfl, rfl⟩ := List.cons.inj behind
      exact split

/-- The pieces of a text hold its characters, the separators aside. -/
theorem mem_of_mem_pieces {piece : List Char} (member : piece ∈ pieces separator cs) :
    ∀ c ∈ piece, c ∈ cs ∧ c ≠ separator := by
  induction cs generalizing piece with
  | nil =>
      obtain rfl := List.mem_singleton.mp member
      exact List.forall_mem_nil _
  | cons d cs ih =>
      have deeper : ∀ piece ∈ pieces separator cs, ∀ c ∈ piece, c ∈ d :: cs ∧ c ≠ separator :=
        fun piece inside c held => ⟨.tail _ (ih inside c held).1, (ih inside c held).2⟩
      by_cases same : d = separator
      · subst same
        rw [pieces_separator] at member
        rcases List.mem_cons.mp member with rfl | inside
        · exact List.forall_mem_nil _
        · exact deeper piece inside
      · obtain ⟨first, others, behind, split⟩ := exists_pieces_cons same cs
        rw [behind] at deeper
        rw [split] at member
        rcases List.mem_cons.mp member with rfl | inside
        · exact List.forall_mem_cons.mpr ⟨⟨.head _, same⟩, deeper first (.head _)⟩
        · exact deeper piece (.tail _ inside)

end

/-- Stretches with a point between each two. -/
def dotted : List (List Char) → List Char
  | [] => []
  | [only] => only
  | first :: second :: rest => first ++ '.' :: dotted (second :: rest)

theorem dotted_pieces (cs : List Char) : dotted (pieces '.' cs) = cs := by
  induction cs with
  | nil => rfl
  | cons c cs ih =>
      by_cases point : c = '.'
      · subst point
        rw [pieces_separator]
        obtain ⟨piece, others, behind⟩ := exists_pieces '.' cs
        rw [behind] at ih ⊢
        rw [dotted, ih, List.nil_append]
      · obtain ⟨piece, others, behind, split⟩ := exists_pieces_cons point cs
        rw [behind] at ih
        rw [split, ← ih]
        cases others <;> rfl

theorem join_dotted (segments : List (List Char)) :
    join "." (segments.map String.ofList) = String.ofList (dotted segments) := by
  induction segments with
  | nil => rfl
  | cons first rest ih =>
      cases rest with
      | nil => rfl
      | cons second rest =>
          rw [dotted, String.ofList_append, String.ofList_cons]
          change String.ofList first ++ "." ++ join "." ((second :: rest).map String.ofList) = _
          rw [ih, String.append_assoc]
          rfl

namespace Quoted

theorem hasEmptySegment_cons (c : Char) (cs : List Char) :
    hasEmptySegment (c :: cs) = (['.', '.'].isPrefixOf (c :: cs) || hasEmptySegment cs) := by
  rw [hasEmptySegment, splitAtFirst?]
  split
  · rename_i starts
    rw [starts]
    rfl
  · rename_i differs
    rw [Bool.not_eq_true] at differs
    rw [differs, Bool.false_or, Option.isSome_map]
    rfl

/-- Without two points side by side, and none at the end, no stretch behind a point is empty. -/
theorem ne_nil_of_mem_tail_pieces {cs : List Char} (apart : hasEmptySegment cs = false)
    (closed : cs.getLast? ≠ some '.') : ∀ piece ∈ (pieces '.' cs).tail, piece ≠ [] := by
  induction cs with
  | nil => exact List.forall_mem_nil _
  | cons c cs ih =>
      rw [hasEmptySegment_cons, Bool.or_eq_false_iff] at apart
      by_cases point : c = '.'
      · subst point
        rw [pieces_separator, List.tail_cons]
        cases cs with
        | nil => contradiction
        | cons d cs =>
            have other : d ≠ '.' := by
              rintro rfl
              exact Bool.noConfusion apart.1
            obtain ⟨piece, others, -, split⟩ := exists_pieces_cons other cs
            have behind := ih apart.2 (by rwa [List.getLast?_cons_cons] at closed)
            rw [split] at behind ⊢
            exact List.forall_mem_cons.mpr ⟨List.cons_ne_nil _ _, behind⟩
      · obtain ⟨piece, others, behind, split⟩ := exists_pieces_cons point cs
        rw [behind] at ih
        rw [split]
        refine ih apart.2 fun last => closed ?_
        cases cs with
        | nil => contradiction
        | cons d cs => rwa [List.getLast?_cons_cons]

/-- A stretch is read as a part of a name: it begins like a name, and what of it is read first is
not reserved. -/
def isReadable : List Char → Bool
  | [] => false
  | first :: rest =>
      startsName first &&
        (Keyword.ofWord? (String.ofList (first :: rest.takeWhile continuesName))).isNone

/-- The name is read from what is written for it: it is quoted, or each of its stretches is read. -/
def readsBack (name : String) : Bool :=
  needsQuotes name || (pieces '.' name.toList).all isReadable

/-- What a stretch between points of a name without quotes is. -/
structure Plain (segment : List Char) : Prop where
  nonempty : segment ≠ []
  inside : ∀ c ∈ segment, continuesName c = true ∨ c = '@'

/-- A name that is written bare starts like a name, is made of characters that a bare name may hold,
and has no empty stretch behind a point. -/
theorem exists_of_not_needsQuotes {name : String} (bare : needsQuotes name = false) :
    ∃ first rest, name.toList = first :: rest ∧ startsName first = true ∧
      (∀ c ∈ first :: rest, isBareChar c = true) ∧ (first :: rest).getLast? ≠ some '.' ∧
      hasEmptySegment (first :: rest) = false := by
  rw [needsQuotes] at bare
  split at bare
  · contradiction
  · rename_i first rest chars
    simp only [Bool.or_eq_false_iff, Bool.not_eq_false', List.all_eq_true, beq_eq_false_iff_ne]
      at bare
    obtain ⟨⟨⟨⟨starts, -⟩, inside⟩, closed⟩, apart⟩ := bare
    exact ⟨first, rest, chars, starts, inside, closed, apart⟩

theorem plain_of_not_needsQuotes {name : String} (bare : needsQuotes name = false) :
    ∀ segment ∈ pieces '.' name.toList, Plain segment := by
  obtain ⟨first, rest, chars, starts, inside, closed, apart⟩ := exists_of_not_needsQuotes bare
  rw [chars]
  intro segment member
  constructor
  · have point : first ≠ '.' := by
      rintro rfl
      exact absurd starts (by decide)
    obtain ⟨piece, others, -, split⟩ := exists_pieces_cons point rest
    have behind := ne_nil_of_mem_tail_pieces apart closed
    rw [split] at member behind
    rcases List.mem_cons.mp member with rfl | later
    · exact List.cons_ne_nil _ _
    · exact behind segment later
  · intro c held
    obtain ⟨here, other⟩ := mem_of_mem_pieces member c held
    have allowed := inside c here
    rw [isBareChar] at allowed
    simpa [continuesName, other] using allowed

end Quoted

end Esql.Text
