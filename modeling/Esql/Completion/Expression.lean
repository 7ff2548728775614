import Esql.Completion.Draft
import Esql.Completion.Suggestion

/-!
# Completing expressions

Inside an expression, what may follow depends on the token before the cursor. Behind an operand
operators and separators are offered, elsewhere columns and functions of the type that is expected
there.
-/

namespace Esql

namespace Callable

/-- The type that the argument at a position must have, if all signatures agree on it. -/
def parameterType (callable : Callable) (position : Nat) : ParamType :=
  match callable.signatures.filterMap fun signature =>
      (signature.param? position).map (·.type) with
  | [] => .any
  | first :: rest => if rest.all (· == first) then first else .any

/-- The operator stands behind its first operand. -/
def followsOperand (callable : Callable) : Bool :=
  callable.name != "not" && callable.name != "=" &&
    callable.signatures.any fun signature =>
      signature.params.length == 2 || Text.startsWith callable.name "is"

/-- Some signature takes a first argument of this type. -/
def takesFirst (callable : Callable) (type : FieldType) : Bool :=
  callable.signatures.any fun signature =>
    signature.params.head?.all fun param => param.type.accepts type false

/-- A call with this many arguments can have another one. -/
def takesAfter (callable : Callable) (argument : Nat) : Bool :=
  callable.maxArgs?.all (argument + 1 < ·)

end Callable

namespace Completion

/-- The operators that may stand behind an operand of this type at a place. -/
def operators (place : Place) (left? : Option FieldType) : List Suggestion :=
  ((Callable.registry.usableAt place .any [.operator]).filter fun callable =>
    callable.followsOperand && left?.all callable.takesFirst).map Suggestion.operator

/-- The functions that may be called at a place where this is wanted. -/
def functions (place : Place) (wanted : ParamType) (categories : List Callable.Category) :
    List Suggestion :=
  (Callable.registry.usableAt place wanted categories).map Suggestion.function

/-- The categories of functions that belong at a place. -/
def categoriesAt (place : Place) (insideAggregation : Bool) : List Callable.Category :=
  match place with
  | .stats => if insideAggregation then [.scalar] else [.aggregation, .scalar]
  | .statsBy => [.grouping, .scalar]
  | _ => [.scalar]

/-- What the token at which no operand starts is followed by, if it is such a token. The tokens
before it come in reverse order. -/
def fixedFollowers? : List Token → Option (List Suggestion)
  | [] => none
  | last :: rest =>
      match last.kind with
      | .keyword .is =>
          some [.value "NULL" "Null test", .value "NOT NULL" "Not null test"]
      | .keyword .not =>
          if rest.head?.any endsOperand then
            some (["IN", "LIKE", "RLIKE"].map fun word => .keyword word "")
          else none
      | .keyword .in | .keyword .like | .keyword .rlike | .other _ | .string .. => some []
      | _ => none

end Completion

namespace Draft

open Completion

/-- The columns that are accepted where this is wanted, except those that are listed. -/
def columnSuggestions (draft : Draft) (wanted : ParamType) (listed : List String) :
    List Suggestion :=
  (draft.columns.fields.filter fun field =>
    !listed.contains field.name && field.type?.all fun type => wanted.accepts type false).map
    Suggestion.column

/-- What may follow a complete operand: operators, and a separator of arguments or of fields. -/
def afterOperand (draft : Draft) (place : Place) (before : List Token) (last : Token)
    (follow : List Suggestion) : List Suggestion :=
  operators place (last.kind.name?.bind draft.columns.type?)
    ++ match OpenCall.find? before with
      | some call =>
          if call.callable?.all fun callable => callable.takesAfter call.argument then [.comma]
          else []
      | none => if isNested before then [] else follow

/-- What an operand may start with. -/
def operandStarts (draft : Draft) (place : Place) (before : List Token) : List Suggestion :=
  let call? := OpenCall.find? before
  let callable? := call?.bind OpenCall.callable?
  let wanted := ((callable?.bind fun callable => call?.map fun call =>
    callable.parameterType call.argument)).getD .any
  draft.columnSuggestions wanted []
    ++ functions place wanted (categoriesAt place (callable?.any Callable.isAggregation))

/-- What may stand at the cursor in an expression. `follow` may stand behind a complete operand
outside parentheses. -/
def expression (draft : Draft) (place : Place) (before : List Token) (follow : List Suggestion) :
    List Suggestion :=
  (match before.getLast?.filter endsOperand with
    | some last => draft.afterOperand place before last follow
    | none => (fixedFollowers? before.reverse).getD (draft.operandStarts place before)).map
    (Suggestion.replacing draft.word.range?)

end Draft

end Esql
