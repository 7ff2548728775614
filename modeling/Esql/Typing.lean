import Esql.Callable.Catalog
import Esql.Callable.Resolution
import Esql.ColumnSet
import Esql.Syntax.Walk
import Esql.TimeUnit

/-!
# Types of expressions

The type of an expression follows from the columns in scope and from nothing else. It is absent
when it cannot be told: a column without a known type, a call that no signature matches, a part
that was closed early.
-/

namespace Esql

namespace Literal

/-- The type of a literal. An integer too long for 64 bits is taken to be unsigned. -/
def type? (literal : Literal) : Option FieldType :=
  match literal.kind with
  | .integer =>
      match readInt64? literal.value with
      | some value => some (if inInt32 value then .integer else .long)
      | none => some .unsignedLong
  | .decimal => some .double
  | .string => some .keyword
  | .boolean => some .boolean
  | .null => some .null
  | .param => none

end Literal

namespace ColumnSet

/-- The type of a column where it is used; an unsupported one cannot be used. -/
def usableType? (set : ColumnSet) (name : String) : Option FieldType :=
  (set.type? name).filter (· != .unsupported)

end ColumnSet

namespace Expr

/-- The star that counts rows, as an argument of a function. -/
def countsRows (function : String) (argument : Expr) : Bool :=
  function == "count" && argument.column?.any fun column => column.name == "*"

/-- What is known of an argument of this type when its call is resolved. -/
def given (function : String) (argument : Expr) (type? : Option FieldType) : Given :=
  if argument.countsRows function then {}
  else
    let quoted := argument.literal?.filter fun literal => literal.kind == .string
    ⟨type?, quoted.isSome, argument.isConstant, quoted.map (·.value)⟩

/-- What is known of all arguments of a call. -/
def givens (function : String) (args : List Expr) (types : List (Option FieldType)) : List Given :=
  List.zipWith (given function) args types

/-- The type of a call with arguments of these types, if a signature matches. -/
def callType? (function : String) (args : List Expr) (types : List (Option FieldType)) :
    Option FieldType := do
  match (← Callable.named? function).resolve (givens function args types) with
  | .matched _ _ type => type
  | _ => none

/-- The type of a function or an operator. An assignment has the type of its value, and a filtered
expression the type of what is filtered. -/
def appliedType? (name : String) (form : Form) (args : List Expr)
    (types : List (Option FieldType)) : Option FieldType :=
  if name == "=" && form == .binary then types[1]?.join
  else if name == "where" && form == .binary then types[0]?.join
  else callType? name args types

mutual

/-- The type of an expression, given the columns in scope. -/
def type? (columns : ColumnSet) : Expr → Option FieldType
  | .literal l => if l.incomplete then none else l.type?
  | .column c => if c.incomplete then none else columns.usableType? c.name
  | .interval i => TimeUnit.type? i.unit
  | .list items extent =>
      if extent.incomplete then none else (types columns items).findSome? id
  | .cast _ target extent =>
      if extent.incomplete then none else (FieldType.parse target).toOption
  | .apply name form args extent =>
      if extent.incomplete then none else appliedType? name form args (types columns args)

def types (columns : ColumnSet) : List Expr → List (Option FieldType)
  | [] => []
  | expr :: rest => type? columns expr :: types columns rest

end

/-- The expression holds a call of an aggregation. -/
def hasAggregation (expr : Expr) : Bool :=
  (expr.walk.filterMap functionName?).any Callable.isAggregationName

mutual

/-- Every column of the expression stands under an aggregation. -/
def aggregationClosed : Expr → Bool
  | .column _ => false
  | .apply name form args _ =>
      (form == .call && Callable.isAggregationName name) || allAggregationClosed args
  | .list items _ => allAggregationClosed items
  | .cast value _ _ => aggregationClosed value
  | .literal _ | .interval _ => true

def allAggregationClosed : List Expr → Bool
  | [] => true
  | expr :: rest => aggregationClosed expr && allAggregationClosed rest

end

end Expr

namespace Argument

/-- The expression that an argument is, or those that it holds. -/
def exprs : Argument → List Expr
  | .expr e => [e]
  | argument => argument.operands

/-- The type of an argument with one value. -/
def type? (columns : ColumnSet) : Argument → Option FieldType
  | .expr e => e.type? columns
  | .sortKey k => if k.incomplete then none else k.expr.type? columns
  | _ => none

def hasAggregation (argument : Argument) : Bool := argument.exprs.any Expr.hasAggregation

def aggregationClosed (argument : Argument) : Bool := argument.exprs.all Expr.aggregationClosed

end Argument

namespace Expr

theorem types_eq_map (columns : ColumnSet) (exprs : List Expr) :
    types columns exprs = exprs.map (type? columns) := by
  induction exprs with
  | nil => rfl
  | cons expr rest ih => simp [types, ih]

theorem allAggregationClosed_eq_all (exprs : List Expr) :
    allAggregationClosed exprs = exprs.all aggregationClosed := by
  induction exprs with
  | nil => rfl
  | cons expr rest ih => simp [allAggregationClosed, ih]

end Expr

end Esql
