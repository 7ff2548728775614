import Esql.Callable.Catalog
import Esql.Proofs.Callable.Forgotten

/-!
# What a matched call returns

The type of a matched call is one that its signature can return, unless the rule of the signature
copies the type of an argument that is not what it is taken for: a quoted literal that stands for a
date or a shape has the type of a string, and so has the call.
-/

namespace Esql

namespace FieldType

theorem isNumeric_of_foldl_wider {types : List FieldType} {known? : Option FieldType}
    (numbers : ∀ type ∈ types, type.isNumeric = true)
    (start : ∀ type ∈ known?, type.isNumeric = true) :
    ∀ type ∈ types.foldl wider known?, type.isNumeric = true := by
  induction types generalizing known? with
  | nil => exact start
  | cons first rest ih =>
      obtain ⟨number, numbers⟩ := List.forall_mem_cons.mp numbers
      refine ih numbers fun type member => ?_
      cases known? with
      | none => exact Option.some.inj member ▸ number
      | some known =>
          rw [wider] at member
          split at member
          · exact Option.some.inj member ▸ number
          · exact Option.some.inj member ▸ start known rfl

/-- The widest of some types is a number. -/
theorem isNumeric_widest {types : List FieldType} {type : FieldType}
    (found : widest types = some type) : type.isNumeric = true := by
  have numbers : ∀ type ∈ types.filter isNumeric, type.isNumeric = true :=
    fun _ member => (List.mem_filter.mp member).2
  exact @isNumeric_of_foldl_wider _ none numbers nofun type found

end FieldType

namespace ParamType

mutual

/-- A quoted literal is read as a value of this type, or of one of its choices. -/
def readsText : ParamType → Bool
  | .date | .spatial | .point => true
  | .exact expected => expected.isReadFromText
  | .oneOf choices => readsTextAny choices
  | .any | .number | .string | .interval => false

def readsTextAny : List ParamType → Bool
  | [] => false
  | choice :: rest => readsText choice || readsTextAny rest

end

mutual

/-- A quoted literal is accepted as the value that it is, or for what it is read as. -/
theorem accepts_quoted {type : FieldType} (known : type ≠ .null) (param : ParamType) :
    accepts type true param = (accepts type false param || readsText param) := by
  have other : (type == .null) = false := beq_eq_false_iff_ne.mpr known
  cases param with
  | oneOf choices =>
      rw [accepts, accepts, readsText, acceptsAny_quoted known choices, other, Bool.false_or,
        Bool.false_or]
  | exact expected => simp [accepts, acceptsExact, readsText, other]
  | _ => simp [accepts, readsText, other]

theorem acceptsAny_quoted {type : FieldType} (known : type ≠ .null) (choices : List ParamType) :
    acceptsAny type true choices = (acceptsAny type false choices || readsTextAny choices) := by
  cases choices with
  | nil => rfl
  | cons choice rest =>
      rw [acceptsAny, acceptsAny, readsTextAny, accepts_quoted known choice,
        acceptsAny_quoted known rest]
      ac_rfl

end

theorem accepts_exact_self (type : FieldType) (quoted : Bool) :
    accepts type quoted (.exact type) = true := by
  simp [accepts, acceptsExact]

end ParamType

namespace Signature

/-- The rule of the signature copies a type that the signature is not said to return. -/
inductive CopiesOther (signature : Signature) (args : List Given) (type : FieldType) : Prop where
  /-- A quoted literal is accepted for what it is read as only. -/
  | literal {position : Nat} {param : Parameter} {given : Given}
      (rule : signature.returns = .sameAs position)
      (expected : signature.params[position]? = some param)
      (here : args[position]? = some given) (quoted : given.quoted = true)
      (reads : param.type.readsText = true) (refused : param.type.accepts type false = false)
  /-- The argument belongs to no parameter but a repeated one, and is of no type of values. -/
  | unsupported {position : Nat} (rule : signature.returns = .sameAs position)
      (beyond : signature.params[position]? = none) (same : type = .unsupported)

variable {signature : Signature} {args : List Given} {type : FieldType} {position : Nat}

/-- What a parameter accepts of a known type without reading it as something else, the signature
can return. -/
theorem accepts_of_takes (takes : signature.Takes args) {param : Parameter} {given : Given}
    (expected : signature.params[position]? = some param) (here : args[position]? = some given)
    (typed : given.type? = some type) : param.type.accepts type given.quoted = true := by
  refine Bool.eq_true_of_not_eq_false fun refused => ?_
  refine takes.rejectsNone position given here ⟨param, type, ?_, typed, refused⟩
  rw [param?, expected]

/-- The type that is copied from an argument is one that the signature can return, or the argument
is not what it is taken for. -/
theorem accepts_copied_iff (takes : signature.Takes args) (known : type ≠ .null)
    (rule : signature.returns = .sameAs position) {given : Given}
    (here : args[position]? = some given) (typed : given.type? = some type) :
    signature.possibleReturn.accepts type false = true ↔ ¬ signature.CopiesOther args type := by
  have same {place : Nat} (other : signature.returns = .sameAs place) : place = position :=
    (ReturnRule.sameAs.inj (rule.symm.trans other)).symm
  rw [possibleReturn, rule]
  dsimp only
  cases expected : signature.params[position]? with
  | some param =>
      have accepted := accepts_of_takes takes expected here typed
      rw [Option.map_some, Option.getD_some]
      constructor
      · rintro accepts (@⟨place, other, _, rule', expected', _, _, _, refused⟩ |
          ⟨rule', beyond, _⟩)
        · obtain rfl := same rule'
          obtain rfl := Option.some.inj (expected.symm.trans expected')
          rw [accepts] at refused
          contradiction
        · rw [same rule', expected] at beyond
          contradiction
      · intro faithful
        refine Bool.eq_true_of_not_eq_false fun refused => faithful ?_
        cases quoted : given.quoted with
        | false =>
            rw [quoted, refused] at accepted
            contradiction
        | true =>
            rw [quoted, ParamType.accepts_quoted known, refused, Bool.false_or] at accepted
            exact .literal rule expected here quoted accepted refused
  | none =>
      rw [Option.map_none, Option.getD_none, ParamType.accepts,
        beq_eq_false_iff_ne.mpr known, Bool.false_or, bne_iff_ne]
      constructor
      · rintro supported (⟨rule', expected', _⟩ | ⟨_, _, same⟩)
        · rw [same rule', expected] at expected'
          contradiction
        · exact supported same
      · exact fun faithful same => faithful (.unsupported rule expected same)

/-- A rule that copies no type yields what the signature can return. -/
theorem accepts_result (takes : signature.Takes args) (known : type ≠ .null)
    (result : signature.resultType? args = some type) :
    signature.possibleReturn.accepts type false = true ↔ ¬ signature.CopiesOther args type := by
  have other (plain : ∀ place, signature.returns ≠ .sameAs place) :
      ¬ signature.CopiesOther args type := by
    rintro (⟨rule, _⟩ | ⟨rule, _⟩) <;> exact plain _ rule
  cases rule : signature.returns with
  | fixed fixed =>
      rw [resultType?, rule] at result
      obtain rfl := Option.some.inj result
      rw [possibleReturn, rule]
      exact iff_of_true (ParamType.accepts_exact_self fixed false) (other (by simp [rule]))
  | widest =>
      rw [resultType?, rule] at result
      obtain ⟨types, -, found⟩ := Option.bind_eq_some_iff.mp result
      rw [possibleReturn, rule]
      refine iff_of_true ?_ (other (by simp [rule]))
      rw [ParamType.accepts, FieldType.isNumeric_widest found, Bool.or_true]
  | sameAs position =>
      rw [resultType?, rule] at result
      obtain ⟨given, here, typed⟩ := Option.bind_eq_some_iff.mp result
      exact accepts_copied_iff takes known rule here typed

end Signature

namespace Callable

open Catalog

variable {callable : Callable} {args : List Given} {signature : Signature} {index : Nat}
  {type : FieldType}

/-- The known type of a matched call is one that its signature can return, if and only if it is not
copied from an argument that is not what it is taken for. -/
theorem possibleReturn_accepts_iff
    (matched : callable.resolve args = .matched signature index (some type))
    (known : type ≠ .null) :
    signature.possibleReturn.accepts type false = true ↔ ¬ signature.CopiesOther args type := by
  obtain ⟨chosen, -, result⟩ := matched_iff.mp matched
  exact Signature.accepts_result (firstAt_of_chosen? chosen).found known result

/-- The date in `date_trunc(1 day, "2024-01-01")` is a quoted literal, whose type the call has. -/
def truncation : Signature :=
  takes [constant (required "interval" .interval),
    required "date" .date] (.sameAs 1)

/-- The arguments `1 day` and `"2024-01-01"`. -/
def dayAndText : List Given :=
  [⟨some .datePeriod, false, true, none⟩, ⟨some .keyword, true, true, some "2024-01-01"⟩]

theorem possibleReturn_accepts_iff_truncation :
    (entry .scalar "date_trunc" "" [truncation]).resolve dayAndText =
        .matched truncation 0 (some .keyword) ∧
      (truncation.possibleReturn.accepts .keyword false = true ↔
        ¬ truncation.CopiesOther dayAndText .keyword) := by
  have matched : (entry .scalar "date_trunc" "" [truncation]).resolve dayAndText =
      .matched truncation 0 (some .keyword) := rfl
  exact ⟨matched, possibleReturn_accepts_iff matched nofun⟩

/-- A date that is written as a quoted literal is truncated to a string. -/
theorem not_possibleReturn_accepts :
    ¬ ∀ callable ∈ catalog, ∀ (args : List Given) (signature : Signature) (index : Nat)
      (type : FieldType), callable.resolve args = .matched signature index (some type) →
        type ≠ .null → signature.possibleReturn.accepts type false = true := by
  intro accepts
  have listed : scalar "date_trunc" "Rounds down a date to the closest interval." [truncation] ∈
      catalog := by
    simp only [catalog, List.mem_append]
    exact .inl (.inl (.inl (.inl (.inl (.inl (.inr
      (.tail _ (.tail _ (.tail _ (.tail _ (.head _)))))))))))
  have accepted := accepts _ listed dayAndText truncation 0 .keyword rfl nofun
  contradiction

/-- The signature copies the type of a parameter that takes strings only for what they are read
as. -/
def copiesText (signature : Signature) : Bool :=
  match signature.returns with
  | .sameAs position => signature.params[position]?.any fun param =>
      param.type.readsText && !param.type.accepts .keyword false
  | _ => false

/-- In the whole catalog these functions alone have the type of a string that is read as something
else. -/
theorem name_of_copiesOther {callable : Callable} (listed : callable ∈ catalog)
    {signature : Signature} (member : signature ∈ callable.signatures)
    (copies : signature.CopiesOther args .keyword) :
    callable.name ∈ ["st_centroid_agg", "bucket", "+", "-", "date_trunc"] := by
  have copied : copiesText signature = true := by
    rcases copies with ⟨rule, expected, _, _, reads, refused⟩ | ⟨_, _, same⟩
    · simp [copiesText, rule, expected, reads, refused]
    · contradiction
  have checked : (catalog.all fun callable => callable.signatures.all fun signature =>
      !copiesText signature ||
        ["st_centroid_agg", "bucket", "+", "-", "date_trunc"].contains callable.name) = true := by
    decide +kernel
  have here := List.all_eq_true.mp (List.all_eq_true.mp checked callable listed) signature member
  rw [copied, Bool.not_true, Bool.false_or] at here
  exact List.contains_iff_mem.mp here

end Callable

end Esql
