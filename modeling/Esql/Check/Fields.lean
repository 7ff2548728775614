import Esql.Check.Expression
import Esql.Decimal
import Esql.Meaning

/-!
# Checking computed fields

Checks of the commands whose arguments are expressions. Fields are checked one after the other,
and later ones see those before them. Where an expression has to be of some type, its type is
only looked at if nothing else is wrong with it.
-/

namespace Esql

namespace Expr

/-- Checks an expression on its own. -/
def checkAt (expr : Expr) (scope : Scope) (place : Place) : List Diagnostic :=
  expr.check scope place none

/-- Checks an expression that must be of a type that satisfies a condition. -/
def checkTyped (expr : Expr) (scope : Scope) (place : Place) (fits : FieldType → Bool)
    (expected : String) : List Diagnostic :=
  let found := expr.checkAt scope place
  match (expr.type? scope.columns).filter fun type => !fits type with
  | some given =>
      if found.isEmpty then
        [(Finding.unsupportedColumnType place.name expected expr.text given).about expr.span]
      else found
  | none => found

end Expr

namespace Scope

/-- The scope behind a field: the column of the field is there, with the type of the field. -/
def withField (scope : Scope) (field : Expr) : Scope :=
  { scope with
    columns :=
      scope.columns.insert ⟨field.namedValue.1, field.type? scope.columns, true⟩ }

/-- Checks fields one after the other, those that are complete. -/
def checkFields (scope : Scope) (place : Place) : List Expr → List Diagnostic
  | [] => []
  | field :: rest =>
      if field.incomplete then scope.checkFields place rest
      else field.checkAt scope place ++ (scope.withField field).checkFields place rest

/-- Checks that a value without faults is computed from aggregations only. -/
def checkAggregated (scope : Scope) (value : Expr) : List Diagnostic :=
  if !value.hasAggregation then
    [(Finding.noAggregation scope.command value.text).about value.span]
  else if !value.aggregationClosed then
    [(Finding.aggregationNotClosed scope.command value.text).about value.span]
  else []

/-- Checks an aggregated field. -/
def checkAggregate (scope : Scope) (field : Expr) : List Diagnostic :=
  match field.checkAt scope .stats with
  | [] => scope.checkAggregated field.unfiltered.namedValue.2
  | found => found

end Scope

namespace Command

/-- Checks a condition that rows have to meet. -/
def checkWhere (command : Command) (scope : Scope) : List Diagnostic :=
  match command.exprs.head? with
  | some condition =>
      condition.checkTyped scope .where (fun type => type == .boolean || type == .null) "boolean"
  | none => []

def checkStats (command : Command) (scope : Scope) : List Diagnostic :=
  if command.args.isEmpty then
    [(Finding.statsWithoutArguments scope.command).about command.span]
  else
    command.fields.flatMap scope.checkAggregate
      ++ scope.checkFields .statsBy (command.operandsOf "by")

def checkSort (command : Command) (scope : Scope) : List Diagnostic :=
  ((command.args.filter fun argument => !argument.incomplete).filterMap Argument.sortedBy?).flatMap
    fun expr => expr.checkAt scope .sort

/-- Checks the text that is cut into columns. -/
def checkInput (command : Command) (scope : Scope) (place : Place) : List Diagnostic :=
  match (command.positional.head?.bind Argument.expr?).filter fun input => !input.incomplete with
  | some input =>
      input.checkTyped scope place (fun type => type.isString || type == .null) "keyword, text"
  | none => []

end Command

namespace Clause

/-- The word with which a setting begins, as it is written. -/
def writtenWord (clause : Clause) : String :=
  Text.trim (String.ofList (clause.text.toList.takeWhile (· != '=')))

/-- Checks a setting behind a dissect pattern. There is one, and its value is a string. -/
def checkDissectSetting (clause : Clause) : List Diagnostic :=
  if clause.name != "append_separator" then
    [(Finding.unknownDissectKeyword clause.writtenWord).about clause.span]
  else
    match clause.operands.head? with
    | some value =>
        if value.literal?.any fun literal => literal.kind == .string then []
        else [(Finding.wrongDissectOptionArgumentType value.text).about value.span]
    | none => []

end Clause

namespace Command

def checkDissect (command : Command) (scope : Scope) : List Diagnostic :=
  command.checkInput scope .dissect
    ++ (command.clauses.filter fun clause => !clause.incomplete).flatMap Clause.checkDissectSetting

/-- Checks the fraction of rows to take. A parameter may hold any fraction. -/
def checkSample (command : Command) : List Diagnostic :=
  match command.exprs.head?.bind Expr.literal? with
  | some literal =>
      if literal.kind == .param || literal.isProbability then []
      else [(Finding.invalidSampleProbability literal.text).about literal.span]
  | none => []

end Command

end Esql
