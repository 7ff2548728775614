import Esql.Diagnostic.Notice
import Esql.FieldType
import Esql.Json.Basic
import Esql.License

/-!
# Diagnostics

A diagnostic is a notice about a span of the query, with its parameters and its text. What was
found out is first stated as a `Finding`, a notice together with its facts; the parameters of the
diagnostic follow from those facts, and its text from the wording of the notice.
-/

namespace Esql

/-- A span as a record of its two offsets. -/
def Span.toJson (span : Span) : Json := .record [("start", .nat span.start), ("end", .nat span.stop)]

structure Diagnostic where
  severity : Severity
  text : String
  span : Span
  notice : Notice
  params : Params
deriving Repr, BEq, DecidableEq

namespace Diagnostic

/-- A way to put a notice and its parameters into words. -/
abbrev Wording := Notice → Params → String

/-- The wording of the notice itself, filled in. -/
def plainWording : Wording := fun notice params => Template.fill notice.wording params

/-- The diagnostic of a notice, in a wording. -/
def worded (wording : Wording) (notice : Notice) (span : Span) (params : Params) : Diagnostic :=
  ⟨notice.severity, wording notice params, span, notice, params⟩

def isError (diagnostic : Diagnostic) : Bool := diagnostic.severity == .error

/-- The record in which a diagnostic is handed to other programs. Parameters are left out when
there are none. -/
def toJson (diagnostic : Diagnostic) : Json :=
  .record ([("type", .text diagnostic.severity.name), ("text", .text diagnostic.text),
    ("location", diagnostic.span.toJson), ("code", .text diagnostic.notice.code)]
    ++ if diagnostic.params.isEmpty then []
      else [("params", .record (diagnostic.params.map fun param => (param.1, .text param.2)))])

end Diagnostic

/-- A notice together with the facts that it reports. -/
inductive Finding where
  | syntaxError (detail : String)
  | unknownColumn (name : String)
  | unknownIndex (name : String)
  | unknownFunction (name : String)
  | unknownPolicy (name : String)
  | unknownMetadataField (value : String) (available : List String)
  | unknownInterval (value : String)
  | unknownDissectKeyword (keyword : String)
  | wrongDissectOptionArgumentType (value : String)
  | wrongArgumentNumber (function expected : String) (actual : Nat)
  | wrongArgumentType (function expected value : String) (given : FieldType)
  | expectedConstant (function value : String)
  | unsupportedLiteralOption (function value : String) (accepted : List String)
  | unsupportedFunction (command name : String)
  | unsupportedFunctionInClause (command clause name : String)
  | nestedAggregation (nested outer : String)
  | noAggregation (command expression : String)
  | aggregationNotClosed (command expression : String)
  | statsWithoutArguments (command : String)
  | unsupportedColumnType (command expected column : String) (given : FieldType)
  | dropOfAllColumns
  | wildcardNotSupported (command value : String)
  | unsupportedSetting (command value : String) (expected : List String)
  | licenseRequired (name : String) (license : License)
  | licenseRequiredForSignature (name signature : String) (license : License)
  | tooManyForks
  | tooFewBranches
  | invalidJoinIndex (identifier : String)
  | invalidSampleProbability (value : String)
  | metadataBrackets
  | unsupportedField (field : String)
  | schemaUnavailable (reason : String)
deriving Repr, DecidableEq

namespace Finding

def notice : Finding → Notice
  | .syntaxError .. => .syntaxError
  | .unknownColumn .. => .unknownColumn
  | .unknownIndex .. => .unknownIndex
  | .unknownFunction .. => .unknownFunction
  | .unknownPolicy .. => .unknownPolicy
  | .unknownMetadataField .. => .unknownMetadataField
  | .unknownInterval .. => .unknownInterval
  | .unknownDissectKeyword .. => .unknownDissectKeyword
  | .wrongDissectOptionArgumentType .. => .wrongDissectOptionArgumentType
  | .wrongArgumentNumber .. => .wrongArgumentNumber
  | .wrongArgumentType .. => .wrongArgumentType
  | .expectedConstant .. => .expectedConstant
  | .unsupportedLiteralOption .. => .unsupportedLiteralOption
  | .unsupportedFunction .. => .unsupportedFunctionForCommand
  | .unsupportedFunctionInClause .. => .unsupportedFunctionForCommandOption
  | .nestedAggregation .. => .aggInAggFunction
  | .noAggregation .. => .noAggFunction
  | .aggregationNotClosed .. => .expressionNotAggClosed
  | .statsWithoutArguments .. => .statsNoArguments
  | .unsupportedColumnType .. => .unsupportedColumnTypeForCommand
  | .dropOfAllColumns => .dropAllColumnsError
  | .wildcardNotSupported .. => .wildcardNotSupportedForCommand
  | .unsupportedSetting .. => .unsupportedSettingCommandValue
  | .licenseRequired .. => .licenseRequired
  | .licenseRequiredForSignature .. => .licenseRequiredForSignature
  | .tooManyForks => .tooManyForks
  | .tooFewBranches => .forkTooFewBranches
  | .invalidJoinIndex .. => .invalidJoinIndex
  | .invalidSampleProbability .. => .invalidSampleProbability
  | .metadataBrackets => .metadataBracketsDeprecation
  | .unsupportedField .. => .unsupportedFieldType
  | .schemaUnavailable .. => .schemaUnavailable

/-- The facts as named parameters, in any order. -/
def facts : Finding → List (String × String)
  | .syntaxError detail => [("detail", detail)]
  | .unknownColumn name => [("name", name)]
  | .unknownIndex name => [("name", name)]
  | .unknownFunction name => [("name", name)]
  | .unknownPolicy name => [("name", name)]
  | .unknownMetadataField value available =>
      [("value", value), ("available", Text.join ", " available)]
  | .unknownInterval value => [("value", value)]
  | .unknownDissectKeyword keyword => [("keyword", keyword)]
  | .wrongDissectOptionArgumentType value => [("value", value)]
  | .wrongArgumentNumber function expected actual =>
      [("fn", function), ("expected", expected), ("actual", toString actual)]
  | .wrongArgumentType function expected value given =>
      [("fn", function), ("expected", expected), ("value", value), ("given", given.name)]
  | .expectedConstant function value => [("fn", function), ("value", value)]
  | .unsupportedLiteralOption function value accepted =>
      [("fn", function), ("value", value), ("accepted", Text.join ", " accepted)]
  | .unsupportedFunction command name => [("command", command), ("name", name)]
  | .unsupportedFunctionInClause command clause name =>
      [("command", command), ("option", clause), ("name", name)]
  | .nestedAggregation nested outer => [("nested", nested), ("outer", outer)]
  | .noAggregation command expression => [("command", command), ("expression", expression)]
  | .aggregationNotClosed command expression =>
      [("command", command), ("expression", expression)]
  | .statsWithoutArguments command => [("command", command)]
  | .unsupportedColumnType command expected column given =>
      [("command", command), ("expected", expected), ("column", column), ("given", given.name)]
  | .dropOfAllColumns => []
  | .wildcardNotSupported command value => [("command", command), ("value", value)]
  | .unsupportedSetting command value expected =>
      [("command", command), ("value", value), ("expected", Text.join ", " expected)]
  | .licenseRequired name license => [("name", name), ("requiredLicense", license.name)]
  | .licenseRequiredForSignature name signature license =>
      [("name", name), ("signature", signature), ("requiredLicense", license.name)]
  | .tooManyForks => []
  | .tooFewBranches => []
  | .invalidJoinIndex identifier => [("identifier", identifier)]
  | .invalidSampleProbability value => [("value", value)]
  | .metadataBrackets => []
  | .unsupportedField field => [("field", field)]
  | .schemaUnavailable reason => [("reason", reason)]

/-- The diagnostic of a finding about a span of the query. -/
def about (finding : Finding) (span : Span) : Diagnostic :=
  Diagnostic.worded Diagnostic.plainWording finding.notice span (Params.ofList finding.facts)

end Finding

end Esql
