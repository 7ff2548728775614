import Esql.Callable.Signature

/-!
# Resolving a call

Given what is known of the arguments, a call is matched with the first signature that takes their
number and rejects none of their types. An argument of unknown type is never rejected. When no
signature matches, the signature closest in arity explains why.
-/

namespace Esql

/-- What is known of one argument of a call. -/
structure Given where
  type? : Option FieldType := none
  /-- The argument is a quoted literal. -/
  quoted : Bool := false
  constant : Bool := false
  /-- The value of a quoted literal. -/
  value? : Option String := none
deriving Repr, BEq, DecidableEq

/-- What becomes of a call. A signature comes with its index among those of the callable. -/
inductive Resolution where
  | matched (signature : Signature) (index : Nat) (type? : Option FieldType)
  /-- No signature takes this many arguments. -/
  | wrongArity (expected : String)
  /-- The type of the argument at `position` is not the expected one. -/
  | wrongType (signature : Signature) (index : Nat) (position : Nat) (expected : ParamType)
  | notConstant (position : Nat)
  | unsupportedValue (position : Nat) (accepted : List String)
deriving Repr

namespace Signature

/-- The argument has a known type that the parameter at its position does not accept. -/
def rejects (signature : Signature) (position : Nat) (given : Given) : Bool :=
  match signature.param? position, given.type? with
  | some param, some type => !param.type.accepts type given.quoted
  | _, _ => false

/-- The position of the first rejected argument, counted from `position`. -/
def firstMismatch?From (signature : Signature) (position : Nat) : List Given → Option Nat
  | [] => none
  | given :: rest =>
      if signature.rejects position given then some position
      else signature.firstMismatch?From (position + 1) rest

def firstMismatch? (signature : Signature) (args : List Given) : Option Nat :=
  signature.firstMismatch?From 0 args

/-- The number of arguments fits and none is rejected. -/
def accepts (signature : Signature) (args : List Given) : Bool :=
  signature.fitsArity args.length && (signature.firstMismatch? args).isNone

/-- The types of all arguments, if each is known. -/
def knownTypes? : List Given → Option (List FieldType)
  | [] => some []
  | given :: rest => do pure ((← given.type?) :: (← knownTypes? rest))

/-- The type of the result, if it is determined. -/
def resultType? (signature : Signature) (args : List Given) : Option FieldType :=
  match signature.returns with
  | .fixed type => some type
  | .sameAs position => args[position]?.bind (·.type?)
  | .widest => (knownTypes? args).bind FieldType.widest

/-- What is wrong with the value of an argument at a position, its type aside. -/
def valueFault? (signature : Signature) (position : Nat) (given : Given) : Option Resolution :=
  match signature.param? position with
  | none => none
  | some param =>
      if param.constantOnly && !given.constant then some (.notConstant position)
      else match param.accepted?, given.value? with
        | some accepted, some value =>
            if given.quoted && !accepted.any (Text.sameWord · value) then
              some (.unsupportedValue position accepted)
            else none
        | _, _ => none

/-- The first fault in the values of the arguments, counted from `position`. -/
def firstValueFault?From (signature : Signature) (position : Nat) :
    List Given → Option Resolution
  | [] => none
  | given :: rest =>
      match signature.valueFault? position given with
      | some fault => some fault
      | none => signature.firstValueFault?From (position + 1) rest

end Signature

namespace Callable

/-- The distance between two numbers. -/
def gap (first second : Nat) : Nat := (first - second) + (second - first)

/-- The second signature explains a failed call with `count` arguments better than the first. -/
def explainsBetter (count : Nat) (first second : Signature) : Bool :=
  second.arityDistance count < first.arityDistance count ||
    (second.arityDistance count == first.arityDistance count &&
      gap second.minArgs count < gap first.minArgs count)

/-- The closest signature of a list, the earliest among equally close ones. -/
def closest? (count : Nat) : List (Signature × Nat) → Option (Signature × Nat)
  | [] => none
  | candidate :: rest =>
      match closest? count rest with
      | none => some candidate
      | some later =>
          if explainsBetter count candidate.1 later.1 then some later else some candidate

/-- Matches a call with a signature, or says why that fails. -/
def resolve (callable : Callable) (args : List Given) : Resolution :=
  match callable.signatures.zipIdx.find? fun candidate => candidate.1.accepts args with
  | some (signature, index) =>
      (signature.firstValueFault?From 0 args).getD
        (.matched signature index (signature.resultType? args))
  | none =>
      match closest? args.length callable.signatures.zipIdx with
      | some (signature, index) =>
          if signature.fitsArity args.length then
            let position := (signature.firstMismatch? args).getD 0
            let expected := ((signature.param? position).map (·.type)).getD .any
            .wrongType signature index position expected
          else .wrongArity callable.arityPhrase
      | none => .wrongArity callable.arityPhrase

end Callable

end Esql
