import Esql.Callable.Catalog
import Esql.Proofs.Callable.Vague
import Mathlib.Data.List.Find

/-!
# Calls of which less is known

A call that a signature matches is matched as well when less is known of the types of its
arguments, perhaps by an earlier signature. Signatures that take the same number of arguments mostly
differ in the types of parameters only, and then nothing else changes.
-/

namespace Esql

/-- What is wrong with the values of arguments is that one is no constant or is not allowed. -/
theorem Signature.valueFault_cases {signature : Signature} {args : List Given} {position : Nat}
    {fault : Resolution} (found : signature.firstValueFault?From position args = some fault) :
    (∃ place, fault = .notConstant place) ∨
      ∃ place accepted, fault = .unsupportedValue place accepted := by
  induction args generalizing position with
  | nil => contradiction
  | cons given rest ih =>
      rw [firstValueFault?From] at found
      split at found
      · rename_i other faulty
        obtain rfl := Option.some.inj found
        rw [valueFault?] at faulty
        split at faulty
        · contradiction
        · split at faulty
          · cases faulty
            exact .inl ⟨_, rfl⟩
          · split at faulty
            · split at faulty
              · cases faulty
                exact .inr ⟨_, _, rfl⟩
              · contradiction
            · contradiction
      · exact ih found

theorem Signature.firstValueFault?From_ne_matched {signature other : Signature} {args : List Given}
    {position index : Nat} {type? : Option FieldType} :
    signature.firstValueFault?From position args ≠ some (.matched other index type?) := by
  intro found
  rcases valueFault_cases found with ⟨_, same⟩ | ⟨_, _, same⟩ <;> cases same

namespace Callable

variable {callable : Callable} {vagues exacts args : List Given}

/-- The signature that is tried for a call, the first that accepts the arguments. -/
def chosen? (callable : Callable) (args : List Given) : Option (Signature × Nat) :=
  callable.signatures.zipIdx.find? fun candidate => candidate.1.accepts args

theorem mem_of_chosen? {signature : Signature} {index : Nat}
    (chosen : callable.chosen? args = some (signature, index)) :
    signature ∈ callable.signatures :=
  List.fst_mem_of_mem_zipIdx (List.mem_of_find?_eq_some chosen)

theorem accepts_of_chosen? {signature : Signature} {index : Nat}
    (chosen : callable.chosen? args = some (signature, index)) : signature.accepts args = true := by
  have accepted := List.find?_some (show List.find? _ _ = _ from chosen)
  exact accepted

theorem matched_iff {signature : Signature} {index : Nat} {type? : Option FieldType} :
    callable.resolve args = .matched signature index type? ↔
      callable.chosen? args = some (signature, index) ∧
        signature.firstValueFault?From 0 args = none ∧ signature.resultType? args = type? := by
  rw [resolve, chosen?]
  cases callable.signatures.zipIdx.find? fun candidate => candidate.1.accepts args with
  | none =>
      dsimp only
      constructor
      · intro matched
        split at matched
        · split at matched <;> contradiction
        · contradiction
      · rintro ⟨absent, -⟩
        contradiction
  | some candidate =>
      obtain ⟨found, place⟩ := candidate
      dsimp only
      cases fault : found.firstValueFault?From 0 args with
      | none =>
          rw [Option.getD_none]
          constructor
          · rintro ⟨⟩
            exact ⟨rfl, fault, rfl⟩
          · rintro ⟨⟨⟩, -, rfl⟩
            rfl
      | some other =>
          constructor
          · rintro rfl
            exact absurd fault Signature.firstValueFault?From_ne_matched
          · rintro ⟨⟨⟩, none, -⟩
            rw [fault] at none
            contradiction

/-- Knowing less of the types neither turns a matched call down nor asks for a higher tier, and
tells no more of the result. -/
structure Steady (callable : Callable) : Prop where
  matched : ∀ {vagues exacts : List Given}, List.Forall₂ Given.Vaguer vagues exacts →
    ∀ {signature : Signature} {index : Nat} {type? : Option FieldType},
      callable.resolve exacts = .matched signature index type? →
        ∃ other place otherType?, callable.resolve vagues = .matched other place otherType? ∧
          (other.license? = none ∨ other.license? = signature.license?) ∧
          Vaguer otherType? type?

/-- No signature of the callable tells shapes apart. -/
def isBlind (callable : Callable) : Bool := callable.signatures.all Signature.isBlind

theorem chosen?_isSome_vaguer (blind : callable.isBlind = true)
    (vaguer : List.Forall₂ Given.Vaguer vagues exacts) (chosen : (callable.chosen? exacts).isSome) :
    (callable.chosen? vagues).isSome := by
  rw [chosen?, List.find?_isSome] at chosen ⊢
  obtain ⟨candidate, member, accepted⟩ := chosen
  have inside := List.all_eq_true.mp blind candidate.1 (List.fst_mem_of_mem_zipIdx member)
  exact ⟨candidate, member, Signature.accepts_vaguer inside vaguer accepted⟩

/-- When all types are known, the same signature is tried. -/
theorem chosen?_eq_of_known (blind : callable.isBlind = true)
    (vaguer : List.Forall₂ Given.Vaguer vagues exacts)
    (known : ∀ given ∈ vagues, given.type?.isSome = true) :
    callable.chosen? vagues = callable.chosen? exacts := by
  refine List.find?_congr fun candidate member => ?_
  have inside := List.all_eq_true.mp blind candidate.1 (List.fst_mem_of_mem_zipIdx member)
  exact Signature.accepts_eq_of_known inside vaguer known

/-- A callable is steady if the signatures that are tried ask the same of values and of the tier,
and the results fit. -/
theorem Steady.of_chosen (blind : callable.isBlind = true)
    (agree : ∀ {vagues exacts : List Given} {first second : Signature} {here there : Nat},
      List.Forall₂ Given.Vaguer vagues exacts →
      callable.chosen? vagues = some (first, here) →
      callable.chosen? exacts = some (second, there) →
      second.firstValueFault?From 0 exacts = none →
      first.demands = second.demands ∧ first.variadic = second.variadic ∧
        first.license? = second.license? ∧
        Vaguer (first.resultType? vagues) (second.resultType? exacts)) : callable.Steady := by
  constructor
  intro vagues exacts vaguer second there type? matched
  obtain ⟨chosen, faultless, rfl⟩ := matched_iff.mp matched
  obtain ⟨⟨first, here⟩, tried⟩ := Option.isSome_iff_exists.mp
    (chosen?_isSome_vaguer blind vaguer (chosen ▸ rfl))
  obtain ⟨demands, variadic, license, result⟩ := agree vaguer tried chosen faultless
  have same := Signature.firstValueFault?From_vaguer demands variadic vaguer 0
  exact ⟨first, here, _, matched_iff.mpr ⟨tried, same.trans faultless, rfl⟩, .inr license, result⟩

/-- A result that depends on all types is only told when the same signature is tried. -/
theorem resultType?_vaguer_of_widest (blind : callable.isBlind = true)
    (vaguer : List.Forall₂ Given.Vaguer vagues exacts) {first second : Signature} {here there : Nat}
    (tried : callable.chosen? vagues = some (first, here))
    (chosen : callable.chosen? exacts = some (second, there)) (widest : first.returns = .widest) :
    Vaguer (first.resultType? vagues) (second.resultType? exacts) := by
  intro type told
  have known := told
  rw [Signature.resultType?, widest] at known
  obtain ⟨types, all, -⟩ := Option.bind_eq_some_iff.mp known
  have same := chosen?_eq_of_known blind vaguer (Signature.isSome_of_knownTypes? all)
  rw [tried, chosen] at same
  obtain ⟨rfl, -⟩ := Prod.mk.inj (Option.some.inj same)
  exact Signature.resultType?_vaguer rfl vaguer type told

/-! ## Signatures that differ in types only -/

/-- No number of arguments fits both signatures. -/
def apart (first second : Signature) : Bool :=
  first.maxArgs?.any (· < second.minArgs) || second.maxArgs?.any (· < first.minArgs)

/-- The signatures differ in nothing but names and types of parameters. -/
def twins (first second : Signature) : Bool :=
  decide (first.demands = second.demands ∧ first.variadic = second.variadic ∧
    first.license? = second.license? ∧ first.returns = second.returns)

/-- Signatures that take the same number of arguments differ in nothing but types. -/
def isUniform (callable : Callable) : Bool :=
  callable.isBlind && callable.signatures.all fun first =>
    callable.signatures.all fun second => apart first second || twins first second

theorem not_apart {first second : Signature} {count : Nat} (fits : first.fitsArity count = true)
    (other : second.fitsArity count = true) : apart first second = false := by
  have below : ∀ {s t : Signature}, s.fitsArity count = true → t.fitsArity count = true →
      s.maxArgs?.any (· < t.minArgs) = false := by
    intro s t fits other
    rw [Signature.fitsArity, Bool.and_eq_true, decide_eq_true_iff] at fits other
    cases most : s.maxArgs? with
    | none => rfl
    | some most' =>
        have bound := fits.2
        rw [most, Option.all_some, decide_eq_true_iff] at bound
        rw [Option.any_some, decide_eq_false_iff_not]
        omega
  rw [apart, below fits other, below other fits]
  rfl

theorem Steady.of_isUniform (uniform : callable.isUniform = true) : callable.Steady := by
  rw [isUniform, Bool.and_eq_true, List.all_eq_true] at uniform
  refine Steady.of_chosen uniform.1
    fun {vagues exacts first second here there} vaguer tried chosen _ => ?_
  have fits := accepts_of_chosen? tried
  have other := accepts_of_chosen? chosen
  rw [Signature.accepts, Bool.and_eq_true] at fits other
  have pair := List.all_eq_true.mp (uniform.2 first (mem_of_chosen? tried)) second
    (mem_of_chosen? chosen)
  rw [not_apart fits.1 (vaguer.length_eq ▸ other.1), Bool.false_or, twins,
    decide_eq_true_iff] at pair
  obtain ⟨demands, variadic, license, returns⟩ := pair
  exact ⟨demands, variadic, license, Signature.resultType?_vaguer returns vaguer⟩

end Callable

end Esql
