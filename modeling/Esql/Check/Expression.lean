import Esql.Diagnostic.Basic
import Esql.Typing

/-!
# Checking expressions

What is wrong with an expression, in the order in which a reader meets it: first the function
itself, then its arguments, then how the two fit together. Parts that were closed early are
passed over.
-/

namespace Esql

/-- What the checks of one command depend on. -/
structure Scope where
  columns : ColumnSet
  /-- The tier of the caller; without one no tier is checked. -/
  license? : Option License
  /-- The command as diagnostics name it. -/
  command : String

namespace Scope

/-- The tier that a feature requires, if the caller has a lower one. -/
def lacking? (scope : Scope) (required? : Option License) : Option License := do
  let held ← scope.license?
  required?.filter fun required => !held.allows required

theorem lacking?_none (scope : Scope) : scope.lacking? none = none := by
  rw [lacking?]
  cases scope.license? <;> rfl

/-- A diagnostic about a column that certainly does not exist. -/
def checkColumn (scope : Scope) (column : Column) : List Diagnostic :=
  if scope.columns.lacks column.name then [(Finding.unknownColumn column.name).about column.span]
  else []

/-- The same for a column whose value is used, which also has to be of a supported type. -/
def checkValue (scope : Scope) (column : Column) : List Diagnostic :=
  if scope.columns.type? column.name == some .unsupported then
    [(Finding.unsupportedField column.name).about column.span]
  else scope.checkColumn column

end Scope

/-- The word of the clause that a place belongs to. -/
def Place.clauseWord? : Place → Option String
  | .statsBy => some "BY"
  | .statsWhere => some "WHERE"
  | .enrichWith => some "WITH"
  | _ => none

namespace Callable

/-- A diagnostic about a use at a place for which the callable is not defined. -/
def checkPlace (callable : Callable) (scope : Scope) (place : Place) (span : Span) :
    List Diagnostic :=
  if callable.places.contains place then []
  else
    match place.clauseWord? with
    | some clause =>
        [(Finding.unsupportedFunctionInClause scope.command clause callable.name).about span]
    | none => [(Finding.unsupportedFunction scope.command callable.name).about span]

/-- A diagnostic about an aggregation inside another one. -/
def checkNesting (callable : Callable) (outer? : Option String) (extent : Extent) :
    List Diagnostic :=
  match outer? with
  | some outer =>
      if callable.isAggregation then
        [(Finding.nestedAggregation extent.text outer).about extent.span]
      else []
  | none => []

/-- A diagnostic about a tier that the callable or the matched signature requires. -/
def checkLicense (callable : Callable) (scope : Scope) (signature : Signature) (span : Span) :
    List Diagnostic :=
  let name := Text.upper callable.name
  match scope.lacking? callable.license?, scope.lacking? signature.license? with
  | some required, _ => [(Finding.licenseRequired name required).about span]
  | none, some required =>
      [(Finding.licenseRequiredForSignature name signature.describe required).about span]
  | none, none => []

/-- Diagnostics about how the arguments of a call fit the callable. -/
def checkCall (callable : Callable) (scope : Scope) (args : List Expr) (givens : List Given)
    (span : Span) : List Diagnostic :=
  match callable.resolve givens with
  | .matched signature _ _ => callable.checkLicense scope signature span
  | .wrongArity expected =>
      [(Finding.wrongArgumentNumber callable.name expected givens.length).about span]
  | .wrongType _ _ position expected =>
      match args[position]?, givens[position]?.bind (·.type?) with
      | some argument, some type =>
          [(Finding.wrongArgumentType callable.name expected.describe argument.text type).about
            argument.span]
      | _, _ => []
  | .notConstant position =>
      match args[position]? with
      | some argument =>
          [(Finding.expectedConstant callable.name argument.text).about argument.span]
      | none => []
  | .unsupportedValue position accepted =>
      match args[position]? with
      | some argument =>
          let value := (givens[position]?.bind (·.value?)).getD ""
          [(Finding.unsupportedLiteralOption callable.name value accepted).about argument.span]
      | none => []

/-- The aggregation around the arguments of a call. -/
def around (callable : Callable) (outer? : Option String) : Option String :=
  if callable.isAggregation then some callable.name else outer?

end Callable

namespace Expr

mutual

/-- What is wrong with an expression at a place. `outer?` names the aggregation around it. -/
def check (scope : Scope) (place : Place) (outer? : Option String) : Expr → List Diagnostic
  | .literal _ => []
  | .column c => if c.incomplete then [] else scope.checkValue c
  | .interval i =>
      if (TimeUnit.type? i.unit).isSome then [] else [(Finding.unknownInterval i.unit).about i.span]
  | .list items extent =>
      if extent.incomplete then [] else checkAll scope place outer? none items
  | .cast value _ extent => if extent.incomplete then [] else check scope place outer? value
  | .apply name form args extent =>
      if extent.incomplete then []
      else if name == "=" && form == .binary then
        match args with
        | _ :: value :: _ => check scope place outer? value
        | _ => []
      else if name == "where" && form == .binary then
        match args with
        | [] => []
        | [filtered] => check scope place outer? filtered
        | filtered :: condition :: _ =>
            check scope place outer? filtered ++ check scope .statsWhere outer? condition
      else
        match Callable.named? name with
        | none =>
            (Finding.unknownFunction name).about extent.span :: checkAll scope place outer? none args
        | some callable =>
            callable.checkPlace scope place extent.span
              ++ callable.checkNesting outer? extent
              ++ checkAll scope place (callable.around outer?) (some name) args
              ++ callable.checkCall scope args (givens name args (types scope.columns args))
                  extent.span

/-- The same for the parts of an expression, or for the arguments of a function: there a star that
counts rows is no column. -/
def checkAll (scope : Scope) (place : Place) (outer? : Option String) (function? : Option String) :
    List Expr → List Diagnostic
  | [] => []
  | expr :: rest =>
      (if function?.any expr.countsRows then [] else check scope place outer? expr)
        ++ checkAll scope place outer? function? rest

end

end Expr

end Esql
