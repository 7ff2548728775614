import Esql.Proofs.Traced.Arguments
import Esql.Typing
import Mathlib.Algebra.Group.Int.Defs
import Mathlib.Data.List.Induction
import Mathlib.Data.Nat.Digits.Defs

/-!
# Signed numbers

A number with signs directly in front of it is one literal. Of the signs, its value keeps only the
minus signs. So the value stands for what the signs make of the number as long as there is at most
one minus sign; two of them leave a value that stands for no integer.
-/

namespace Esql

/-- The number that decimal digits stand for, the last one counting the ones. -/
def decimalValue (digits : List Char) : Nat :=
  Nat.ofDigits 10 (digits.reverse.map fun digit => digit.toNat - '0'.toNat)

theorem digitsValue_eq (digits : List Char) : digitsValue digits = decimalValue digits := by
  induction digits using List.reverseRecOn with
  | nil => rfl
  | append_singleton digits digit ih =>
      rw [digitsValue, List.foldl_append, ← digitsValue, ih, decimalValue, decimalValue,
        List.reverse_concat, List.map_cons, Nat.ofDigits_cons, Nat.add_comm]
      rfl

theorem inInt32_eq (value : Int) :
    inInt32 value = decide (-2 ^ 31 ≤ value ∧ value < 2 ^ 31) := by
  rw [Bool.decide_and]
  rfl

theorem inInt64_eq (value : Int) :
    inInt64 value = decide (-2 ^ 63 ≤ value ∧ value < 2 ^ 63) := by
  rw [Bool.decide_and]
  rfl

/-- What signs make of a number, the one next to it first. -/
def applySigns (signs : List Char) (value : Int) : Int :=
  signs.foldr (fun sign value => if sign = '-' then -value else value) value

/-- The characters are digits behind at most one minus sign, and stand for this integer. -/
inductive Denotes : List Char → Int → Prop where
  | digits {digits : List Char} (some : digits ≠ []) (all : ∀ c ∈ digits, Text.isDigit c = true) :
      Denotes digits (decimalValue digits)
  | negative {digits : List Char} (some : digits ≠ [])
      (all : ∀ c ∈ digits, Text.isDigit c = true) : Denotes ('-' :: digits) (-decimalValue digits)

section

variable {digits : List Char}

theorem readDigits?_eq_some (some : digits ≠ []) (all : ∀ c ∈ digits, Text.isDigit c = true) :
    readDigits? digits = .some (decimalValue digits) := by
  have every : digits.all Char.isDigit = true := List.all_eq_true.mpr all
  rw [readDigits?, every, List.isEmpty_eq_false_iff.mpr some, digitsValue_eq]
  rfl

theorem readInt?_of_denotes {written : String} {value : Int}
    (denotes : Denotes written.toList value) : readInt? written = some value := by
  unfold readInt?
  generalize written.toList = chars at denotes
  cases denotes with
  | digits some all =>
      have read := readDigits?_eq_some some all
      split
      · exact nomatch all '-' (.head _)
      · exact nomatch all '+' (.head _)
      · rw [read]
        rfl
  | negative some all =>
      have read := readDigits?_eq_some some all
      split
      · rename_i same
        rw [← List.tail_eq_of_cons_eq same, read]
        rfl
      · rename_i same
        cases same
      · rename_i plain _
        exact absurd rfl (plain _)

/-- Behind two minus signs, digits stand for no integer. -/
theorem not_denotes_of_two (chars : List Char) (value : Int) :
    ¬ Denotes ('-' :: '-' :: chars) value := by
  intro denotes
  cases denotes with
  | digits some all => exact nomatch all '-' (.head _)
  | negative some all => exact nomatch all '-' (.head _)

theorem readInt?_of_two {written : String} {chars : List Char}
    (two : written.toList = '-' :: '-' :: chars) : readInt? written = none := by
  rw [readInt?, two]
  rfl

end

/-- Signs applied in turn change the sign of a number as often as there is a minus sign. -/
theorem applySigns_eq (signs : List Char) (value : Int) :
    applySigns signs value = (-1) ^ signs.count '-' * value := by
  induction signs with
  | nil => exact (Int.one_mul value).symm
  | cons sign signs ih =>
      rw [applySigns, List.foldr_cons, ← applySigns, ih]
      by_cases minus : sign = '-'
      · rw [if_pos minus, minus, List.count_cons_self, Int.pow_succ, Int.mul_neg_one, Int.neg_mul]
      · rw [if_neg minus, List.count_cons_of_ne minus]

/-- Digits behind at most one minus sign stand for what signs with as many minus signs make of
them. -/
theorem denotes_of_count_le {signs digits : List Char} (one : signs.count '-' ≤ 1)
    (some : digits ≠ []) (all : ∀ c ∈ digits, Text.isDigit c = true) :
    Denotes (List.replicate (signs.count '-') '-' ++ digits)
      (applySigns signs (decimalValue digits)) := by
  rw [applySigns_eq]
  rcases Nat.le_one_iff_eq_zero_or_eq_one.mp one with none | single
  · rw [none, Int.pow_zero, Int.one_mul]
    exact .digits some all
  · rw [single, Int.pow_one, Int.neg_one_mul]
    exact .negative some all

namespace Literal

/-- The literal is written as signs and digits side by side. Its value keeps the minus signs. -/
structure Signed (literal : Literal) (signs digits : List Char) : Prop where
  text : literal.text.toList = signs ++ digits
  marks : ∀ sign ∈ signs, sign = '+' ∨ sign = '-'
  nonempty : digits ≠ []
  decimal : ∀ c ∈ digits, Text.isDigit c = true
  value : literal.value.toList = List.replicate (signs.count '-') '-' ++ digits

variable {text : String} {literal : Literal}

/-- A sign goes in front of the text, but only a minus sign goes in front of the value. -/
theorem Signed.cons {number : Literal} {sign : Char} {signs digits : List Char}
    (signed : number.Signed signs digits) (mark : sign = '+' ∨ sign = '-')
    (text : literal.text.toList = sign :: number.text.toList)
    (value : literal.value.toList =
      if sign = '-' then '-' :: number.value.toList else number.value.toList) :
    literal.Signed (sign :: signs) digits where
  text := by rw [text, signed.text, List.cons_append]
  marks := List.forall_mem_cons.mpr ⟨mark, signed.marks⟩
  nonempty := signed.nonempty
  decimal := signed.decimal
  value := by
    rw [value, signed.value]
    by_cases minus : sign = '-'
    · rw [if_pos minus, minus, List.count_cons_self, List.replicate_succ, List.cons_append]
    · rw [if_neg minus, List.count_cons_of_ne minus]

theorem Traced.exists_signed (traced : literal.Traced text) (integer : literal.kind = .integer) :
    ∃ signs digits, literal.Signed signs digits := by
  induction traced with
  | @token token kind value incomplete within found =>
      obtain rfl : kind = .integer := integer
      have digits : token.kind = .integer ∧ value = token.text := by
        unfold Token.literal? at found
        split at found <;> cases found
        exact ⟨‹_›, rfl⟩
      obtain ⟨kind, rfl⟩ := digits
      have writes := Token.writes_of_mem_scan within (by rw [kind]; rfl)
      rw [kind] at writes
      generalize same : token.text.toList = chars at writes
      cases writes with
      | integer some all => exact ⟨[], chars, same, nofun, some, all, same⟩
  | @signed sign name number within mark numeric joined read ih =>
      obtain ⟨signs, digits, signed⟩ := ih integer
      have writes := Token.writes_of_mem_scan within
      generalize same : sign.text.toList = chars at writes
      have text {c : Char} (mark : chars = [c]) :
          (sign.text ++ number.text).toList = c :: number.text.toList := by
        rw [String.toList_append, same, mark]
        rfl
      rcases mark with ⟨kind, rfl⟩ | ⟨kind, rfl⟩
      · rw [kind] at writes
        cases writes rfl
        refine ⟨'-' :: signs, digits, signed.cons (.inr rfl) (text rfl) ?_⟩
        rw [Grammar.signedValue, if_pos (beq_self_eq_true _), String.toList_append]
        rfl
      · rw [kind] at writes
        cases writes rfl
        exact ⟨'+' :: signs, digits, signed.cons (.inl rfl) (text rfl) rfl⟩
  | marked read ih =>
      obtain ⟨signs, digits, signed⟩ := ih integer
      exact ⟨signs, digits, { signed with }⟩

/-- For every text, each integer literal of its tree is written as signs and digits side by side. If
at most one of the signs is a minus sign, its value is digits behind at most one minus sign, stands
for the integer that the signs applied in turn make of the digits, and is read as that integer if
it fits in 64 bits. If there are more, its value stands for no integer and is read as none. -/
theorem int64?_of_visited {command : Command}
    (visited : command ∈ Command.visitedIn (parse text).pipeline.commands)
    (below : Node.expr (.literal literal) ∈ command.walk) (integer : literal.kind = .integer) :
    ∃ signs digits, literal.Signed signs digits ∧
      if signs.count '-' ≤ 1 then
        Denotes literal.value.toList (applySigns signs (decimalValue digits)) ∧
          literal.int64? = (some (applySigns signs (decimalValue digits))).filter fun value =>
            -2 ^ 63 ≤ value ∧ value < 2 ^ 63
      else (∀ value, ¬ Denotes literal.value.toList value) ∧ literal.int64? = none := by
  have traced : literal.Traced text := traced_visited visited below
  obtain ⟨signs, digits, signed⟩ := traced.exists_signed integer
  have read : literal.int64? = readInt64? literal.value := by rw [int64?, integer]; rfl
  refine ⟨signs, digits, signed, ?_⟩
  split
  · rename_i one
    have denotes := denotes_of_count_le one signed.nonempty signed.decimal
    rw [← signed.value] at denotes
    refine ⟨denotes, ?_⟩
    rw [read, readInt64?, readInt?_of_denotes denotes]
    exact congrArg (fun fits => Option.filter fits _) (funext inInt64_eq)
  · rename_i more
    obtain ⟨chars, two⟩ : ∃ chars, literal.value.toList = '-' :: '-' :: chars := by
      obtain ⟨count, more⟩ := Nat.exists_eq_add_of_le' (Nat.lt_of_not_le more)
      exact ⟨_, by rw [signed.value, more]; rfl⟩
    refine ⟨two ▸ not_denotes_of_two chars, ?_⟩
    rw [read, readInt64?, readInt?_of_two two]
    rfl

/-- A plus sign in front of a minus sign. -/
theorem int64?_of_visited_plus :
    ∃ command ∈ Command.visitedIn (parse "FROM a | WHERE +-5").pipeline.commands, ∃ literal,
      Node.expr (.literal literal) ∈ command.walk ∧ literal.kind = .integer ∧
      ∃ signs digits, literal.Signed signs digits ∧
        if signs.count '-' ≤ 1 then
          Denotes literal.value.toList (applySigns signs (decimalValue digits)) ∧
            literal.int64? = (some (applySigns signs (decimalValue digits))).filter fun value =>
              -2 ^ 63 ≤ value ∧ value < 2 ^ 63
        else (∀ value, ¬ Denotes literal.value.toList value) ∧ literal.int64? = none := by
  have only : (expressionsOf "FROM a | WHERE +-5").filterMap Expr.literal? =
      [⟨⟨⟨15, 18⟩, "+-5", false⟩, .integer, "-5"⟩] := by decide +kernel
  obtain ⟨command, visited, expr, same, below⟩ := exists_visited_of_leaf only
  cases expr <;> cases same
  exact ⟨command, visited, _, below, rfl, int64?_of_visited visited below rfl⟩

/-- Two minus signs do not undo each other: what they leave stands for no integer. -/
theorem not_denotes_of_visited :
    ¬ ∀ (text : String) (command : Command) (literal : Literal),
      command ∈ Command.visitedIn (parse text).pipeline.commands →
      Node.expr (.literal literal) ∈ command.walk → literal.kind = .integer →
      literal.incomplete = false →
      ∃ signs digits, literal.text.toList = signs ++ digits ∧
        (∀ sign ∈ signs, sign = '+' ∨ sign = '-') ∧ digits ≠ [] ∧
        (∀ c ∈ digits, Text.isDigit c = true) ∧
        Denotes literal.value.toList (applySigns signs (decimalValue digits)) ∧
        (-2 ^ 63 ≤ applySigns signs (decimalValue digits) ∧
            applySigns signs (decimalValue digits) < 2 ^ 63 →
          literal.int64? = some (applySigns signs (decimalValue digits))) := by
  intro denotes
  have only : (expressionsOf "FROM a | WHERE --5").filterMap Expr.literal? =
      [⟨⟨⟨15, 18⟩, "--5", false⟩, .integer, "--5"⟩] := by decide +kernel
  obtain ⟨command, visited, expr, same, below⟩ := exists_visited_of_leaf only
  cases expr <;> cases same
  obtain ⟨signs, digits, -, -, -, -, stands, -⟩ := denotes _ _ _ visited below rfl rfl
  exact not_denotes_of_two ['5'] _ stands

/-- The type of an integer literal whose value stands for an integer follows from its magnitude: one
that fits in 32 or in 64 bits has the type of these integers, and any other one, a negative one
as well, is taken to be unsigned. -/
theorem type?_of_denotes {literal : Literal} (integer : literal.kind = .integer) {value : Int}
    (denotes : Denotes literal.value.toList value) :
    (literal.type? = some .integer ↔ -2 ^ 31 ≤ value ∧ value < 2 ^ 31) ∧
    (literal.type? = some .long ↔ (-2 ^ 63 ≤ value ∧ value < 2 ^ 63) ∧
      ¬ (-2 ^ 31 ≤ value ∧ value < 2 ^ 31)) ∧
    (literal.type? = some .unsignedLong ↔ value < -2 ^ 63 ∨ 2 ^ 63 ≤ value) := by
  have type : literal.type? = some (if -2 ^ 63 ≤ value ∧ value < 2 ^ 63 then
      if -2 ^ 31 ≤ value ∧ value < 2 ^ 31 then .integer else .long else .unsignedLong) := by
    rw [type?, integer]
    dsimp only
    rw [readInt64?, readInt?_of_denotes denotes, Option.filter_some, inInt64_eq]
    by_cases wide : -2 ^ 63 ≤ value ∧ value < 2 ^ 63
    · simp only [decide_eq_true wide, if_pos wide, if_true, inInt32_eq, decide_eq_true_eq]
    · simp only [decide_eq_false wide, if_neg wide, Bool.false_eq_true, if_false]
  rw [type]
  by_cases wide : -2 ^ 63 ≤ value ∧ value < 2 ^ 63
  · rw [if_pos wide]
    by_cases narrow : -2 ^ 31 ≤ value ∧ value < 2 ^ 31
    · rw [if_pos narrow]
      exact ⟨iff_of_true rfl narrow, iff_of_false nofun fun both => both.2 narrow,
        iff_of_false nofun (by omega)⟩
    · rw [if_neg narrow]
      exact ⟨iff_of_false nofun narrow, iff_of_true rfl ⟨wide, narrow⟩,
        iff_of_false nofun (by omega)⟩
  · rw [if_neg wide]
    exact ⟨iff_of_false nofun (by omega), iff_of_false nofun fun both => wide both.1,
      iff_of_true rfl (by omega)⟩

/-- The smallest integer of 32 bits, and one less. -/
theorem type?_of_denotes_bound :
    ∃ least less : Literal, least.kind = .integer ∧ less.kind = .integer ∧
      Denotes least.value.toList (-2147483648) ∧ Denotes less.value.toList (-2147483649) ∧
      least.type? = some .integer ∧ less.type? = some .long := by
  have least : Denotes "-2147483648".toList (-2147483648) :=
    @Denotes.negative "2147483648".toList (by decide) (List.all_eq_true.mp (by decide))
  have less : Denotes "-2147483649".toList (-2147483649) :=
    @Denotes.negative "2147483649".toList (by decide) (List.all_eq_true.mp (by decide))
  exact ⟨⟨⟨⟨0, 11⟩, "-2147483648", false⟩, .integer, "-2147483648"⟩,
    ⟨⟨⟨0, 11⟩, "-2147483649", false⟩, .integer, "-2147483649"⟩, rfl, rfl, least, less,
    (type?_of_denotes rfl least).1.mpr (by decide),
    (type?_of_denotes rfl less).2.1.mpr (by decide)⟩

/-- A negative integer of more than 64 bits is taken to be unsigned. -/
theorem type?_of_visited_negative :
    ¬ ∀ (text : String) (command : Command) (literal : Literal) (value : Int),
      command ∈ Command.visitedIn (parse text).pipeline.commands →
      Node.expr (.literal literal) ∈ command.walk → literal.kind = .integer →
      literal.incomplete = false → Denotes literal.value.toList value →
      literal.type? = some .unsignedLong → 2 ^ 63 ≤ value := by
  intro positive
  have only : (expressionsOf "FROM a | WHERE -9223372036854775809").filterMap Expr.literal? =
      [⟨⟨⟨15, 35⟩, "-9223372036854775809", false⟩, .integer, "-9223372036854775809"⟩] := by
    decide +kernel
  obtain ⟨command, visited, expr, same, below⟩ := exists_visited_of_leaf only
  cases expr <;> cases same
  have denotes : Denotes "-9223372036854775809".toList (-9223372036854775809) :=
    @Denotes.negative "9223372036854775809".toList (by decide) (List.all_eq_true.mp (by decide))
  exact absurd (positive _ _ _ _ visited below rfl rfl denotes (by decide)) (by decide)

end Literal

end Esql
