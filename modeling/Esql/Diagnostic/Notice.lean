import Esql.Diagnostic.Template

/-!
# Notices

The closed set of things that can be said about a query. Each has an identifier for programs, a
severity, and a wording with named parameters, so that it can be worded anew in another language.
-/

namespace Esql

inductive Severity where
  | error
  | warning
deriving Repr, BEq, DecidableEq, ReflBEq, LawfulBEq

def Severity.name : Severity → String
  | .error => "error"
  | .warning => "warning"

inductive Notice where
  | syntaxError
  | unknownColumn
  | unknownIndex
  | unknownFunction
  | unknownPolicy
  | unknownMetadataField
  | unknownInterval
  | unknownDissectKeyword
  | wrongDissectOptionArgumentType
  | wrongArgumentNumber
  | wrongArgumentType
  | expectedConstant
  | unsupportedLiteralOption
  | unsupportedFunctionForCommand
  | unsupportedFunctionForCommandOption
  | aggInAggFunction
  | noAggFunction
  | expressionNotAggClosed
  | statsNoArguments
  | unsupportedColumnTypeForCommand
  | dropAllColumnsError
  | wildcardNotSupportedForCommand
  | unsupportedSettingCommandValue
  | licenseRequired
  | licenseRequiredForSignature
  | tooManyForks
  | forkTooFewBranches
  | invalidJoinIndex
  | invalidSampleProbability
  | metadataBracketsDeprecation
  | unsupportedFieldType
  | schemaUnavailable
deriving Repr, BEq, DecidableEq, ReflBEq, LawfulBEq

namespace Notice

def all : List Notice :=
  [.syntaxError, .unknownColumn, .unknownIndex, .unknownFunction, .unknownPolicy,
   .unknownMetadataField, .unknownInterval, .unknownDissectKeyword,
   .wrongDissectOptionArgumentType, .wrongArgumentNumber, .wrongArgumentType, .expectedConstant,
   .unsupportedLiteralOption, .unsupportedFunctionForCommand,
   .unsupportedFunctionForCommandOption, .aggInAggFunction, .noAggFunction,
   .expressionNotAggClosed, .statsNoArguments, .unsupportedColumnTypeForCommand,
   .dropAllColumnsError, .wildcardNotSupportedForCommand, .unsupportedSettingCommandValue,
   .licenseRequired, .licenseRequiredForSignature, .tooManyForks, .forkTooFewBranches,
   .invalidJoinIndex, .invalidSampleProbability, .metadataBracketsDeprecation,
   .unsupportedFieldType, .schemaUnavailable]

/-- The identifier of a notice for programs. -/
def code : Notice → String
  | .syntaxError => "syntaxError"
  | .unknownColumn => "unknownColumn"
  | .unknownIndex => "unknownIndex"
  | .unknownFunction => "unknownFunction"
  | .unknownPolicy => "unknownPolicy"
  | .unknownMetadataField => "unknownMetadataField"
  | .unknownInterval => "unknownInterval"
  | .unknownDissectKeyword => "unknownDissectKeyword"
  | .wrongDissectOptionArgumentType => "wrongDissectOptionArgumentType"
  | .wrongArgumentNumber => "wrongArgumentNumber"
  | .wrongArgumentType => "wrongArgumentType"
  | .expectedConstant => "expectedConstant"
  | .unsupportedLiteralOption => "unsupportedLiteralOption"
  | .unsupportedFunctionForCommand => "unsupportedFunctionForCommand"
  | .unsupportedFunctionForCommandOption => "unsupportedFunctionForCommandOption"
  | .aggInAggFunction => "aggInAggFunction"
  | .noAggFunction => "noAggFunction"
  | .expressionNotAggClosed => "expressionNotAggClosed"
  | .statsNoArguments => "statsNoArguments"
  | .unsupportedColumnTypeForCommand => "unsupportedColumnTypeForCommand"
  | .dropAllColumnsError => "dropAllColumnsError"
  | .wildcardNotSupportedForCommand => "wildcardNotSupportedForCommand"
  | .unsupportedSettingCommandValue => "unsupportedSettingCommandValue"
  | .licenseRequired => "licenseRequired"
  | .licenseRequiredForSignature => "licenseRequiredForSignature"
  | .tooManyForks => "tooManyForks"
  | .forkTooFewBranches => "forkTooFewBranches"
  | .invalidJoinIndex => "invalidJoinIndex"
  | .invalidSampleProbability => "invalidSampleProbability"
  | .metadataBracketsDeprecation => "metadataBracketsDeprecation"
  | .unsupportedFieldType => "unsupportedFieldType"
  | .schemaUnavailable => "schemaUnavailable"

def severity : Notice → Severity
  | .metadataBracketsDeprecation | .unsupportedFieldType | .schemaUnavailable => .warning
  | _ => .error

/-- The wording of a notice, a template over its parameters. -/
def wording : Notice → String
  | .syntaxError => "SyntaxError: \x7bdetail\x7d"
  | .unknownColumn => "Unknown column [\x7bname\x7d]"
  | .unknownIndex => "Unknown index [\x7bname\x7d]"
  | .unknownFunction => "Unknown function [\x7bname\x7d]"
  | .unknownPolicy => "Unknown policy [\x7bname\x7d]"
  | .unknownMetadataField =>
      "Metadata field [\x7bvalue\x7d] is not available. Available metadata fields are: "
        ++ "[\x7bavailable\x7d]"
  | .unknownInterval => "Unexpected time interval qualifier: '\x7bvalue\x7d'"
  | .unknownDissectKeyword =>
      "Expected [APPEND_SEPARATOR] in [DISSECT] but found [\x7bkeyword\x7d]"
  | .wrongDissectOptionArgumentType =>
      "Invalid value for DISSECT APPEND_SEPARATOR: expected a string, but was [\x7bvalue\x7d]"
  | .wrongArgumentNumber =>
      "Error: [\x7bfn\x7d] function expects \x7bexpected\x7d, got \x7bactual\x7d."
  | .wrongArgumentType =>
      "Argument of [\x7bfn\x7d] must be [\x7bexpected\x7d], found value [\x7bvalue\x7d] "
        ++ "type [\x7bgiven\x7d]"
  | .expectedConstant => "Argument of [\x7bfn\x7d] must be a constant, received [\x7bvalue\x7d]"
  | .unsupportedLiteralOption =>
      "Invalid option [\x7bvalue\x7d] for \x7bfn\x7d. Supported options: [\x7baccepted\x7d]."
  | .unsupportedFunctionForCommand => "\x7bcommand\x7d does not support function \x7bname\x7d"
  | .unsupportedFunctionForCommandOption =>
      "\x7bcommand\x7d \x7boption\x7d does not support function \x7bname\x7d"
  | .aggInAggFunction =>
      "Aggregate function's parameters must be an attribute, literal or a non-aggregation "
        ++ "function; found [\x7bnested\x7d] inside [\x7bouter\x7d]"
  | .noAggFunction =>
      "At least one aggregation function required in [\x7bcommand\x7d], found "
        ++ "[\x7bexpression\x7d]"
  | .expressionNotAggClosed =>
      "Cannot combine aggregation and non-aggregation values in [\x7bcommand\x7d], found "
        ++ "[\x7bexpression\x7d]"
  | .statsNoArguments =>
      "At least one aggregation or grouping expression required in [\x7bcommand\x7d]"
  | .unsupportedColumnTypeForCommand =>
      "\x7bcommand\x7d only supports values of type [\x7bexpected\x7d]. Found "
        ++ "[\x7bcolumn\x7d] of type [\x7bgiven\x7d]"
  | .dropAllColumnsError => "Removing all fields is not allowed [*]"
  | .wildcardNotSupportedForCommand =>
      "Using wildcards (*) in \x7bcommand\x7d is not allowed [\x7bvalue\x7d]"
  | .unsupportedSettingCommandValue =>
      "Unrecognized value [\x7bvalue\x7d] for \x7bcommand\x7d, mode needs to be one of "
        ++ "[\x7bexpected\x7d]"
  | .licenseRequired => "\x7bname\x7d requires a \x7brequiredLicense\x7d license"
  | .licenseRequiredForSignature =>
      "\x7bname\x7d with \x7bsignature\x7d requires a \x7brequiredLicense\x7d license"
  | .tooManyForks => "[FORK] a query cannot have more than one FORK command."
  | .forkTooFewBranches => "[FORK] must include at least two branches."
  | .invalidJoinIndex =>
      "[\x7bidentifier\x7d] index is not a valid JOIN index. Please use a \"lookup\" mode "
        ++ "index for JOIN commands."
  | .invalidSampleProbability =>
      "[SAMPLE] probability must be a number between 0 and 1 (exclusive), found [\x7bvalue\x7d]"
  | .metadataBracketsDeprecation =>
      "Square brackets '[]' need to be removed from FROM METADATA declaration"
  | .unsupportedFieldType =>
      "Field [\x7bfield\x7d] cannot be retrieved, it is unsupported or not indexed; "
        ++ "returning null"
  | .schemaUnavailable => "Could not verify the query against the live schema: \x7breason\x7d"

def ofCode? (written : String) : Option Notice := all.find? fun notice => notice.code == written

end Notice

end Esql
