import Esql.Text.Quoted

/-!
# Stretches of written names

A written name is divided at the points outside its quotes. Each part of the name is read from one
stretch between such points, and is empty only if the stretch is empty or holds nothing but a pair
of backticks.
-/

namespace Esql.Text.Quoted

/-- The stretches between the points outside quotes. `inside` says whether a quoted stretch is
open. -/
def stretches : (inside : Bool) → List Char → List (List Char)
  | _, [] => [[]]
  | inside, c :: rest =>
      if c == '.' && !inside then [] :: stretches inside rest
      else
        match stretches (inside != (c == '\x60')) rest with
        | [] => [[c]]
        | first :: others => (c :: first) :: others

/-- A part of a name is what is read of the stretch that it is written as, and it is empty only if
nothing or a pair of backticks is written. -/
structure Stands (stretch : List Char) (part : String) : Prop where
  read : part.toList = decode false stretch
  empty : part = "" ↔ stretch = [] ∨ stretch = ['\x60', '\x60']

theorem stands_nil : Stands [] "" := ⟨rfl, iff_of_true rfl (.inl rfl)⟩

theorem exists_stretches (inside : Bool) (cs : List Char) :
    ∃ first others, stretches inside cs = first :: others := by
  cases cs with
  | nil => exact ⟨[], [], rfl⟩
  | cons c rest =>
      rw [stretches]
      split
      · exact ⟨_, _, rfl⟩
      · split <;> exact ⟨_, _, rfl⟩

section

variable {inside : Bool} {c : Char} {cs rest first : List Char} {others : List (List Char)}

theorem stretches_point (rest : List Char) :
    stretches false ('.' :: rest) = [] :: stretches false rest := rfl

/-- What does not divide a name lengthens the first stretch. -/
theorem stretches_cons (joins : c = '.' → inside = true)
    (behind : stretches (inside != (c == '\x60')) rest = first :: others) :
    stretches inside (c :: rest) = (c :: first) :: others := by
  rw [stretches, behind]
  refine if_neg fun divides => ?_
  obtain ⟨point, outside⟩ := (Bool.and_eq_true _ _).mp divides
  rw [joins (beq_iff_eq.mp point)] at outside
  cases outside

/-- Where the first stretch starts with a backtick, the name does. -/
theorem head?_of_stretches (divided : stretches false cs = first :: others)
    (tick : first.head? = some '\x60') : cs.head? = some '\x60' := by
  cases cs with
  | nil =>
      obtain rfl := (List.cons.inj divided).1
      cases tick
  | cons c rest =>
      by_cases point : c = '.'
      · subst point
        obtain rfl := (List.cons.inj divided).1
        cases tick
      · obtain ⟨inner, more, behind⟩ := exists_stretches (false != (c == '\x60')) rest
        rw [stretches_cons (fun same => absurd same point) behind] at divided
        obtain rfl := (List.cons.inj divided).1
        exact tick

/-- What starts with no point has a first stretch that is not empty. -/
theorem head?_stretches_ne_nil (noPoint : c ≠ '.') (rest : List Char) :
    (stretches false (c :: rest)).head? ≠ some [] := by
  obtain ⟨first, others, behind⟩ := exists_stretches (false != (c == '\x60')) rest
  rw [stretches_cons (fun point => absurd point noPoint) behind]
  exact nofun

/-! ## Plain stretches -/

/-- Neither a point nor a backtick. -/
def IsPlain (cs : List Char) : Prop := ∀ c ∈ cs, c ≠ '.' ∧ c ≠ '\x60'

theorem stretches_plain (plain : IsPlain cs) (behind : stretches false rest = first :: others) :
    stretches false (cs ++ rest) = (cs ++ first) :: others := by
  induction cs with
  | nil => exact behind
  | cons c cs ih =>
      obtain ⟨⟨noPoint, noTick⟩, deeper⟩ := List.forall_mem_cons.mp plain
      refine stretches_cons (fun point => absurd point noPoint) ?_
      rw [beq_eq_false_iff_ne.mpr noTick]
      exact ih deeper

/-- Outside quotes, each backtick opens some. -/
theorem decode_outside (c : Char) (rest : List Char) :
    decode false (c :: rest) =
      if c == '\x60' then decode true rest else c :: decode false rest := by
  rw [decode]
  · rfl
  · intro _ inside
    cases inside

theorem decode_tick (rest : List Char) : decode false ('\x60' :: rest) = decode true rest := by
  rw [decode_outside, if_pos (beq_self_eq_true _)]

/-- Without backticks a written name stands for itself. -/
theorem decode_unquoted (unquoted : '\x60' ∉ cs) (rest : List Char) :
    decode false (cs ++ rest) = cs ++ decode false rest := by
  induction cs with
  | nil => rfl
  | cons c cs ih =>
      obtain ⟨other, deeper⟩ := List.ne_and_not_mem_of_not_mem_cons unquoted
      rw [List.cons_append, List.cons_append, decode_outside,
        if_neg fun tick => other (beq_iff_eq.mp tick).symm, ih deeper]

theorem decode_plain (plain : IsPlain cs) (rest : List Char) :
    decode false (cs ++ rest) = cs ++ decode false rest :=
  decode_unquoted (fun tick => (plain _ tick).2 rfl) rest

/-- A plain stretch stands for itself. -/
theorem Stands.plain {part : String} (stands : Stands first part) (some : cs ≠ [])
    (plain : IsPlain cs) : Stands (cs ++ first) (String.ofList cs ++ part) where
  read := by rw [String.toList_append, String.toList_ofList, decode_plain plain, stands.read]
  empty := by
    obtain ⟨c, rest, rfl⟩ := List.exists_cons_of_ne_nil some
    refine iff_of_false (fun none => ?_) (fun alone => ?_)
    · have chars := congrArg String.toList none
      rw [String.toList_append, String.toList_ofList] at chars
      cases chars
    · rcases alone with none | ticks
      · cases none
      · exact (plain c (.head _)).2 (List.cons.inj ticks).1

/-! ## Quoted stretches -/

theorem tick_joins : '\x60' = '.' → inside = true := fun point => absurd point (by decide)

theorem stretches_encode (name : List Char) (behind : stretches false rest = first :: others) :
    stretches true (encode name ++ '\x60' :: rest) =
      (encode name ++ '\x60' :: first) :: others := by
  induction name with
  | nil => exact stretches_cons (fun _ => rfl) behind
  | cons c name ih =>
      rw [encode]
      split
      · exact stretches_cons (fun _ => rfl) (stretches_cons tick_joins ih)
      · rename_i noTick
        refine stretches_cons (fun _ => rfl) ?_
        rw [Bool.eq_false_iff.mpr noTick]
        exact ih

theorem stretches_quoted (name : List Char) (behind : stretches false rest = first :: others) :
    stretches false ('\x60' :: (encode name ++ '\x60' :: rest)) =
      ('\x60' :: (encode name ++ '\x60' :: first)) :: others :=
  stretches_cons tick_joins (stretches_encode name behind)

/-- A quoted stretch stands for the name inside the quotes, if no backtick follows it. -/
theorem Stands.quoted {part : String} (stands : Stands first part) (name : List Char)
    (closed : first.head? ≠ some '\x60') :
    Stands ('\x60' :: (encode name ++ '\x60' :: first)) (String.ofList name ++ part) where
  read := by
    rw [String.toList_append, String.toList_ofList, stands.read,
      ← decode_encode_append name first closed, decode_tick]
  empty := by
    have alone : part = "" ↔ first = [] := by
      rw [stands.empty, or_iff_left]
      rintro rfl
      exact closed rfl
    cases name with
    | nil =>
        change String.ofList [] ++ part = "" ↔ _ ∨ '\x60' :: '\x60' :: first = ['\x60', '\x60']
        rw [show String.ofList [] = "" from rfl, String.empty_append, alone]
        exact ⟨fun none => .inr (by rw [none]), fun both => by simpa using both⟩
    | cons c name =>
        refine iff_of_false (fun none => ?_) (fun ticks => ?_)
        · have chars := congrArg String.toList none
          rw [String.toList_append, String.toList_ofList] at chars
          cases chars
        · have lengths : ('\x60' :: (encode (c :: name) ++ '\x60' :: first)).length = 2 := by
            rw [ticks.resolve_left (List.cons_ne_nil _ _)]
            rfl
          have longer := length_le_encode (c :: name)
          simp only [List.length_cons, List.length_append] at lengths longer
          omega

end

end Esql.Text.Quoted
