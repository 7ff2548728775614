import Esql.License
import Esql.ParamType
import Esql.Place

/-!
# Signatures

A callable is a function or an operator: a name with one or more signatures, tried in order. A
signature lists parameters; optional ones may be left out, and a variadic signature repeats its
last one. Arity is the only thing decided here; types are decided when a call is resolved.
-/

namespace Esql

structure Parameter where
  name : String
  type : ParamType
  optional : Bool := false
  /-- Only a constant expression may be passed. -/
  constantOnly : Bool := false
  /-- The string literals that may be passed, when they are a closed set. -/
  accepted? : Option (List String) := none
deriving Repr

/-- How the type of a result follows from the types of the arguments. -/
inductive ReturnRule where
  | fixed (type : FieldType)
  /-- The type of the argument at this position. -/
  | sameAs (position : Nat)
  /-- The widest numeric type among the arguments. -/
  | widest
deriving Repr, BEq, DecidableEq

structure Signature where
  params : List Parameter
  returns : ReturnRule
  variadic : Bool := false
  /-- The tier that this overload alone requires. -/
  license? : Option License := none
deriving Repr

namespace Signature

def minArgs (signature : Signature) : Nat :=
  (signature.params.filter fun param => !param.optional).length

/-- The greatest number of arguments; a variadic signature has none. -/
def maxArgs? (signature : Signature) : Option Nat :=
  if signature.variadic then none else some signature.params.length

def fitsArity (signature : Signature) (count : Nat) : Bool :=
  signature.minArgs ≤ count && signature.maxArgs?.all (count ≤ ·)

/-- How far a number of arguments is from those that fit. -/
def arityDistance (signature : Signature) (count : Nat) : Nat :=
  if count < signature.minArgs then signature.minArgs - count
  else match signature.maxArgs? with
    | some most => count - most
    | none => 0

/-- The parameter for the argument at a position; a variadic signature repeats its last one. -/
def param? (signature : Signature) (position : Nat) : Option Parameter :=
  match signature.params[position]? with
  | some param => some param
  | none => if signature.variadic then signature.params.getLast? else none

/-- The broadest type of a result. -/
def possibleReturn (signature : Signature) : ParamType :=
  match signature.returns with
  | .fixed type => .exact type
  | .sameAs position => (signature.params[position]?.map (·.type)).getD .any
  | .widest => .number

/-- The parameter types, as a diagnostic about a license names them. -/
def describe (signature : Signature) : String :=
  Text.join ", " (signature.params.map fun param => param.type.describe)

end Signature

/-- What a callable is for; an operator is written between or around its operands. -/
inductive Callable.Category where
  | scalar
  | aggregation
  | grouping
  | operator
deriving Repr, BEq, DecidableEq, ReflBEq, LawfulBEq

def Callable.Category.name : Callable.Category → String
  | .scalar => "scalar"
  | .aggregation => "agg"
  | .grouping => "grouping"
  | .operator => "operator"

structure Callable where
  /-- The name in lower case, or the symbol of an operator. -/
  name : String
  category : Callable.Category
  description : String
  places : List Place
  signatures : List Signature
  /-- The tier that every use requires. -/
  license? : Option License := none
deriving Repr

namespace Callable

def isAggregation (callable : Callable) : Bool := callable.category == .aggregation

/-- The least number of arguments that some signature takes. -/
def minArgs (callable : Callable) : Nat :=
  ((callable.signatures.map (·.minArgs)).min?).getD 0

/-- The greater of two bounds, where an absent one is no bound. -/
def looser (first second : Option Nat) : Option Nat := do
  pure (max (← first) (← second))

/-- The greatest number of arguments that some signature takes, if all of them have a bound. -/
def maxArgs? (callable : Callable) : Option Nat :=
  (callable.signatures.map (·.maxArgs?)).foldl looser (some 0)

/-- A number of arguments, in words. -/
def countPhrase (count : Nat) : String :=
  if count == 1 then "one argument" else s!"{count} arguments"

/-- How many arguments are taken over all signatures, in words. -/
def arityPhrase (callable : Callable) : String :=
  match callable.minArgs, callable.maxArgs? with
  | 0, some 0 => "no arguments"
  | least, some most =>
      if least == most then "exactly " ++ countPhrase least
      else if least == 0 then "no more than " ++ countPhrase most
      else s!"between {least} and {most} arguments"
  | least, none => "at least " ++ countPhrase least

/-- The later of two signatures unless the earlier one has more parameters. -/
def longer (longest : Option Signature) (signature : Signature) : Option Signature :=
  match longest with
  | none => some signature
  | some known =>
      if known.params.length ≤ signature.params.length then some signature else some known

/-- A parameter in a label, in brackets when it may be left out. -/
def paramLabel (param : Parameter) : String :=
  let base := param.name ++ ":" ++ param.type.describe
  if param.optional then "[" ++ base ++ "]" else base

/-- The name with the parameters of its longest signature. -/
def label (callable : Callable) : String :=
  match callable.signatures.foldl longer none with
  | none => callable.name ++ "()"
  | some signature =>
      callable.name ++ "(" ++ Text.join ", " (signature.params.map paramLabel)
        ++ (if signature.variadic then ", ..." else "") ++ ")"

end Callable

end Esql
