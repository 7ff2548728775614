import Esql.Proofs.Callable.Resolved

/-!
# Calls of which types are forgotten

A signature that takes the arguments of a call takes them as well when types are forgotten, so a
matched call is not turned down for its types then. An earlier signature can come to take the
arguments, and what that one asks of their values may be more.
-/

namespace Esql

/-- What is known of an argument, without its type if that is forgotten. -/
def Given.forget (given : Given) (forgotten : Bool) : Given :=
  if forgotten then { given with type? := none } else given

/-- What is known of the arguments, with the types of some of them forgotten. -/
def forgetTypes (forgotten : Nat → Bool) (args : List Given) : List Given :=
  args.mapIdx fun position given => given.forget (forgotten position)

section

variable {signature : Signature} {args : List Given} {forgotten : Nat → Bool} {position : Nat}
  {given : Given}

theorem mem_forgetTypes (member : given ∈ (forgetTypes forgotten args)[position]?) :
    ∃ known ∈ args[position]?, given = known.forget (forgotten position) := by
  rw [forgetTypes, List.getElem?_mapIdx] at member
  obtain ⟨known, here, rfl⟩ := Option.map_eq_some_iff.mp member
  exact ⟨known, here, rfl⟩

theorem length_forgetTypes : (forgetTypes forgotten args).length = args.length :=
  List.length_mapIdx

namespace Signature

theorem Rejects.of_forget {forgets : Bool}
    (rejected : signature.Rejects position (given.forget forgets)) :
    signature.Rejects position given := by
  cases forgets with
  | false => exact rejected
  | true =>
      obtain ⟨_, _, _, typed, _⟩ := rejected
      contradiction

theorem Takes.forget (takes : signature.Takes args) :
    signature.Takes (forgetTypes forgotten args) := by
  refine ⟨by rw [length_forgetTypes]; exact takes.fits, fun position given member rejected => ?_⟩
  obtain ⟨known, here, rfl⟩ := mem_forgetTypes member
  exact takes.rejectsNone position known here rejected.of_forget

/-- What a signature objects to has nothing to do with types. -/
theorem objects_forget {forgets : Bool} {fault : Resolution} :
    signature.Objects position (given.forget forgets) fault ↔
      signature.Objects position given fault := by
  cases forgets with
  | false => exact .rfl
  | true => rw [← valueFault?_eq_some_iff, ← valueFault?_eq_some_iff]; rfl

end Signature

end

namespace Callable

variable {callable : Callable} {args : List Given} {signature : Signature} {index : Nat}
  {type? : Option FieldType}

/-- A call is matched by the earliest signature that takes its arguments, if that one objects to
none of their values. -/
theorem faultless_of_matched (matched : callable.resolve args = .matched signature index type?) :
    FirstAt (fun _ other => other.Takes args) callable.signatures index signature ∧
      ∀ position, ∀ given ∈ args[position]?, ∀ fault,
        ¬ signature.Objects position given fault := by
  have resolved := callable.resolves_resolve args
  rw [matched] at resolved
  cases resolved with
  | objected _ _ objects => cases objects
  | matched chosen faultless => exact ⟨chosen, faultless⟩

/-- What becomes of a call that some signature takes, the one at an index or one before it: it is
matched, or one before it objects to the value of an argument. -/
inductive Upholds (callable : Callable) (args : List Given) (index : Nat) : Resolution → Prop where
  | matched {signature : Signature} {place : Nat} {type? : Option FieldType}
      (chosen : FirstAt (fun _ other => other.Takes args) callable.signatures place signature)
      (before : place ≤ index) : Upholds callable args index (.matched signature place type?)
  | notConstant {signature : Signature} {place position : Nat}
      (chosen : FirstAt (fun _ other => other.Takes args) callable.signatures place signature)
      (before : place < index) : Upholds callable args index (.notConstant position)
  | unsupportedValue {signature : Signature} {place position : Nat} {accepted : List String}
      (chosen : FirstAt (fun _ other => other.Takes args) callable.signatures place signature)
      (before : place < index) :
      Upholds callable args index (.unsupportedValue position accepted)

/-- A call that is matched is not turned down for its types, nor for their number, when types are
forgotten. The signature that decides then is the same or an earlier one, and only an earlier one
can object to a value. -/
theorem upholds_forgetTypes (matched : callable.resolve args = .matched signature index type?)
    (forgotten : Nat → Bool) :
    callable.Upholds (forgetTypes forgotten args) index
      (callable.resolve (forgetTypes forgotten args)) := by
  obtain ⟨chosen, faultless⟩ := faultless_of_matched matched
  have takes : signature.Takes (forgetTypes forgotten args) := chosen.found.forget
  have resolved := callable.resolves_resolve (forgetTypes forgotten args)
  generalize callable.resolve (forgetTypes forgotten args) = outcome at resolved ⊢
  cases resolved with
  | wrongArity unfit =>
      have fits := takes.fits
      rw [unfit signature chosen.mem] at fits
      contradiction
  | wrongType _ turnedDown =>
      obtain ⟨position, given, member, rejected⟩ := turnedDown signature chosen.mem takes.fits
      exact absurd rejected (takes.rejectsNone position given member)
  | @objected other place position given _ earliest first objects =>
      have earlier : place ≠ index := by
        rintro rfl
        obtain rfl := Option.some.inj (earliest.here.symm.trans chosen.here)
        obtain ⟨known, here, rfl⟩ := mem_forgetTypes first.here
        exact faultless position known here _ (Signature.objects_forget.mp objects)
      have before := Nat.lt_of_le_of_ne (earliest.le chosen.here takes) earlier
      cases objects with
      | notConstant => exact .notConstant earliest before
      | unsupportedValue => exact .unsupportedValue earliest before
  | matched earliest => exact .matched earliest (earliest.le chosen.here takes)

/-- A constant number or any string can be passed. -/
def selective : Callable :=
  ⟨"pick", .scalar, "", [.eval],
    [⟨[⟨"count", .number, false, true, none⟩], .sameAs 0, false, none⟩,
     ⟨[⟨"text", .string, false, false, none⟩], .sameAs 0, false, none⟩], none⟩

/-- A string passes as the second; when its type is forgotten, the first objects to its value. -/
theorem upholds_forgetTypes_selective :
    selective.resolve [⟨some .keyword, false, false, none⟩] =
        .matched ⟨[⟨"text", .string, false, false, none⟩], .sameAs 0, false, none⟩ 1
          (some .keyword) ∧
      selective.Upholds [⟨none, false, false, none⟩] 1 (.notConstant 0) := by
  have matched : selective.resolve [⟨some .keyword, false, false, none⟩] =
      .matched ⟨[⟨"text", .string, false, false, none⟩], .sameAs 0, false, none⟩ 1
        (some .keyword) := rfl
  exact ⟨matched, upholds_forgetTypes matched fun _ => true⟩

end Callable

end Esql
