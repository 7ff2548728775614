import Esql.Callable.Resolution
import Mathlib.Data.List.Forall2

/-!
# Vague types

Less may be known of the types in one run of a check than in another one. A type that is absent is
vaguer than any; otherwise the two types are the same, or two shapes, since a call can be matched
with the overload for geographic shapes as long as its argument is untyped. What a parameter accepts
it accepts when less is known, and a signature then yields no more than before.
-/

namespace Esql

namespace FieldType

/-- The types of shapes, which are told apart by nothing but their names. -/
def isShape : FieldType → Bool
  | .geoShape | .cartesianShape => true
  | _ => false

/-- The same type, or another shape. -/
def Alike (first second : FieldType) : Prop :=
  first = second ∨ first.isShape = true ∧ second.isShape = true

instance (first second : FieldType) : Decidable (first.Alike second) :=
  inferInstanceAs (Decidable (_ ∨ _))

theorem Alike.refl (type : FieldType) : type.Alike type := .inl rfl

/-- What is the same of both shapes is the same of alike types. -/
theorem Alike.congr {α : Type} {property : FieldType → α}
    (blind : property .geoShape = property .cartesianShape) {first second : FieldType}
    (alike : first.Alike second) : property first = property second := by
  rcases alike with rfl | ⟨shape, other⟩
  · rfl
  · cases first <;> first | contradiction | cases second <;> first | contradiction | simp [blind]

theorem Alike.eq_of_isNumeric {first second : FieldType} (alike : first.Alike second)
    (numeric : first.isNumeric = true) : first = second := by
  rcases alike with rfl | ⟨shape, -⟩
  · rfl
  · cases first <;> contradiction

/-- Shapes are no numbers, so alike types have the same widest number. -/
theorem widest_congr {first second : List FieldType} (alike : List.Forall₂ Alike first second) :
    widest first = widest second := by
  have same : first.filter isNumeric = second.filter isNumeric := by
    induction alike with
    | nil => rfl
    | cons head _ ih =>
        rw [List.filter_cons, List.filter_cons, @Alike.congr _ isNumeric rfl _ _ head, ih]
        split
        · rename_i numeric
          rw [head.eq_of_isNumeric ((@Alike.congr _ isNumeric rfl _ _ head).trans numeric)]
        · rfl
  rw [widest, widest, same]

end FieldType

/-- A type that is known in the first run is known in the second, and alike. -/
def Vaguer (vague exact : Option FieldType) : Prop :=
  ∀ type, vague = some type → ∃ other, exact = some other ∧ type.Alike other

namespace Vaguer

theorem refl (type? : Option FieldType) : Vaguer type? type? :=
  fun type known => ⟨type, known, .refl type⟩

theorem none (exact : Option FieldType) : Vaguer .none exact := nofun

theorem some_iff {type : FieldType} {exact : Option FieldType} :
    Vaguer (some type) exact ↔ ∃ other, exact = some other ∧ type.Alike other :=
  ⟨fun vaguer => vaguer type rfl, fun known _ same => Option.some.inj same ▸ known⟩

end Vaguer

/-- What is known of an argument in two runs that differ in types only. A constant has its type in
both. -/
structure Given.Vaguer (vague exact : Given) : Prop where
  quoted : vague.quoted = exact.quoted
  constant : vague.constant = exact.constant
  value? : vague.value? = exact.value?
  typed : Esql.Vaguer vague.type? exact.type?
  settled : exact.constant = true → vague.type? = exact.type?
  text : exact.quoted = true → ∀ type ∈ exact.type?, type = .keyword

namespace ParamType

/-- Shapes are accepted alike. -/
def isBlind (param : ParamType) : Bool :=
  [false, true].all fun quoted =>
    param.accepts .geoShape quoted == param.accepts .cartesianShape quoted

theorem accepts_alike {param : ParamType} (blind : param.isBlind = true) {first second : FieldType}
    (alike : first.Alike second) (quoted : Bool) :
    param.accepts first quoted = param.accepts second quoted := by
  simp only [isBlind, List.all_cons, List.all_nil, Bool.and_true, Bool.and_eq_true,
    beq_iff_eq] at blind
  refine @FieldType.Alike.congr _ (accepts · quoted param) ?_ _ _ alike
  cases quoted
  · exact blind.1
  · exact blind.2

end ParamType

namespace Signature

variable {signature : Signature}

/-- No parameter tells shapes apart. -/
def isBlind (signature : Signature) : Bool := signature.params.all (·.type.isBlind)

theorem isBlind_of_param? (blind : signature.isBlind = true) {position : Nat} {param : Parameter}
    (found : signature.param? position = some param) : param.type.isBlind = true := by
  rw [isBlind, List.all_eq_true] at blind
  rw [param?] at found
  split at found
  · obtain rfl := Option.some.inj found
    exact blind _ (List.mem_of_getElem? (by assumption))
  · split at found
    · exact blind param (List.mem_of_getLast? found)
    · contradiction

/-- An argument of which less is known is rejected only if it is rejected anyway. -/
theorem rejects_vaguer (blind : signature.isBlind = true) {position : Nat} {vague exact : Given}
    (vaguer : vague.Vaguer exact) (rejected : signature.rejects position vague = true) :
    signature.rejects position exact = true := by
  rw [rejects] at rejected ⊢
  split at rejected
  · rename_i param type found typed
    obtain ⟨other, known, alike⟩ := vaguer.typed type typed
    rw [found, known]
    dsimp only
    rw [← vaguer.quoted, ← ParamType.accepts_alike (isBlind_of_param? blind found) alike]
    exact rejected
  · contradiction

/-- Where both types are known, both arguments are rejected or neither. -/
theorem rejects_eq_of_isSome (blind : signature.isBlind = true) {position : Nat}
    {vague exact : Given} (vaguer : vague.Vaguer exact) (known : vague.type?.isSome = true) :
    signature.rejects position vague = signature.rejects position exact := by
  obtain ⟨type, typed⟩ := Option.isSome_iff_exists.mp known
  obtain ⟨other, same, alike⟩ := vaguer.typed type typed
  rw [rejects, rejects, typed, same]
  cases found : signature.param? position with
  | none => rfl
  | some param =>
      dsimp only
      rw [ParamType.accepts_alike (isBlind_of_param? blind found) alike, vaguer.quoted]

variable {vagues exacts : List Given}

theorem firstMismatch?From_vaguer (blind : signature.isBlind = true)
    (vaguer : List.Forall₂ Given.Vaguer vagues exacts) {position : Nat}
    (fits : signature.firstMismatch?From position exacts = none) :
    signature.firstMismatch?From position vagues = none := by
  induction vaguer generalizing position with
  | nil => rfl
  | cons head _ ih =>
      rw [firstMismatch?From] at fits ⊢
      split at fits
      · contradiction
      · rename_i accepted
        rw [if_neg fun rejected => accepted (rejects_vaguer blind head rejected)]
        exact ih fits

theorem accepts_vaguer (blind : signature.isBlind = true)
    (vaguer : List.Forall₂ Given.Vaguer vagues exacts)
    (accepted : signature.accepts exacts = true) :
    signature.accepts vagues = true := by
  rw [accepts, Bool.and_eq_true, Option.isNone_iff_eq_none] at accepted ⊢
  exact ⟨vaguer.length_eq ▸ accepted.1, firstMismatch?From_vaguer blind vaguer accepted.2⟩

/-- What is turned down when less is known is turned down when more is known. -/
theorem not_accepts_of_vaguer (blind : signature.isBlind = true)
    (vaguer : List.Forall₂ Given.Vaguer vagues exacts)
    (rejected : signature.accepts vagues = false) : ¬ signature.accepts exacts = true := by
  intro accepted
  rw [accepts_vaguer blind vaguer accepted] at rejected
  contradiction

/-- When every type is known in both runs, the same signatures accept the arguments. -/
theorem accepts_eq_of_known (blind : signature.isBlind = true)
    (vaguer : List.Forall₂ Given.Vaguer vagues exacts)
    (known : ∀ given ∈ vagues, given.type?.isSome = true) :
    signature.accepts vagues = signature.accepts exacts := by
  have same : ∀ position, signature.firstMismatch?From position vagues =
      signature.firstMismatch?From position exacts := by
    induction vaguer with
    | nil => exact fun _ => rfl
    | cons head _ ih =>
        rw [List.forall_mem_cons] at known
        intro position
        rw [firstMismatch?From, firstMismatch?From, rejects_eq_of_isSome blind head known.1,
          ih known.2]
  rw [accepts, accepts, vaguer.length_eq, firstMismatch?, firstMismatch?, same]

theorem isSome_of_knownTypes? {args : List Given} {types : List FieldType}
    (known : knownTypes? args = some types) : ∀ given ∈ args, given.type?.isSome = true := by
  induction args generalizing types with
  | nil => exact nofun
  | cons given rest ih =>
      simp only [knownTypes?, Option.pure_def, Option.bind_eq_bind,
        Option.bind_eq_some_iff] at known
      obtain ⟨type, typed, others, behind, -⟩ := known
      exact List.forall_mem_cons.mpr ⟨typed ▸ rfl, ih behind⟩

theorem knownTypes?_vaguer (vaguer : List.Forall₂ Given.Vaguer vagues exacts)
    {types : List FieldType} (known : knownTypes? vagues = some types) :
    ∃ others, knownTypes? exacts = some others ∧ List.Forall₂ FieldType.Alike types others := by
  induction vaguer generalizing types with
  | nil => exact ⟨[], rfl, Option.some.inj known ▸ .nil⟩
  | cons head _ ih =>
      simp only [knownTypes?, Option.pure_def, Option.bind_eq_bind,
        Option.bind_eq_some_iff] at known ⊢
      obtain ⟨type, typed, rest, behind, same⟩ := known
      obtain ⟨other, otherTyped, alike⟩ := head.typed type typed
      obtain ⟨others, otherRest, alikes⟩ := ih behind
      exact ⟨other :: others, ⟨other, otherTyped, others, otherRest, rfl⟩,
        Option.some.inj same ▸ .cons alike alikes⟩

/-- By one rule, arguments of which less is known yield no more. -/
theorem resultType?_vaguer {first second : Signature} (rule : first.returns = second.returns)
    (vaguer : List.Forall₂ Given.Vaguer vagues exacts) :
    Vaguer (first.resultType? vagues) (second.resultType? exacts) := by
  rw [resultType?, resultType?, rule]
  cases second.returns with
  | fixed type => exact .refl _
  | sameAs position =>
      dsimp only
      induction vaguer generalizing position with
      | nil => exact .none _
      | cons head _ ih =>
          cases position with
          | zero => exact head.typed
          | succ position => exact ih position
  | widest =>
      intro type known
      obtain ⟨types, all, widest⟩ := Option.bind_eq_some_iff.mp known
      obtain ⟨others, otherAll, alike⟩ := knownTypes?_vaguer vaguer all
      exact ⟨type, by rw [otherAll, Option.bind_some, ← FieldType.widest_congr alike, widest],
        .refl type⟩

/-! ## The values of arguments -/

/-- What a signature asks of the values of its arguments. -/
def demands (signature : Signature) : List (Bool × Option (List String)) :=
  signature.params.map fun param => (param.constantOnly, param.accepted?)

theorem demand_param? {first second : Signature} (same : first.demands = second.demands)
    (variadic : first.variadic = second.variadic) (position : Nat) :
    (first.param? position).map (fun param => (param.constantOnly, param.accepted?)) =
      (second.param? position).map fun param => (param.constantOnly, param.accepted?) := by
  have known := congrArg (·[position]?) same
  have last := congrArg List.getLast? same
  simp only [demands, List.getElem?_map, List.getLast?_map] at known last
  rw [param?, param?, variadic]
  cases here : first.params[position]? <;> cases there : second.params[position]? <;>
    rw [here, there] at known
  · cases second.variadic with
    | false => rfl
    | true => exact last
  · contradiction
  · contradiction
  · exact known

/-- Values that one signature takes are taken by another that asks the same of them. -/
theorem firstValueFault?From_vaguer {first second : Signature}
    (same : first.demands = second.demands) (variadic : first.variadic = second.variadic)
    (vaguer : List.Forall₂ Given.Vaguer vagues exacts) (position : Nat) :
    first.firstValueFault?From position vagues = second.firstValueFault?From position exacts := by
  induction vaguer generalizing position with
  | nil => rfl
  | @cons vague exact _ _ head _ ih =>
      have fault : first.valueFault? position vague = second.valueFault? position exact := by
        have demand := demand_param? same variadic position
        rw [valueFault?, valueFault?, head.constant, head.value?, head.quoted]
        cases here : first.param? position <;> cases there : second.param? position <;>
          rw [here, there] at demand
        · contradiction
        · contradiction
        · obtain ⟨constantOnly, accepted⟩ := Prod.mk.inj (Option.some.inj demand)
          dsimp only
          rw [constantOnly, accepted]
      rw [firstValueFault?From, firstValueFault?From, fault, ih]

end Signature

end Esql
