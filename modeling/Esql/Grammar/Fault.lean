import Esql.Diagnostic.Basic

/-!
# Syntax faults

What can be wrong with the form of a query. A fault is a cause; its wording is one function of
it. Most faults say what a rule looked for and what it found instead.
-/

namespace Esql

/-- What a rule of the grammar looks for. -/
inductive Expectation where
  | command
  | commandAfterPipe
  | commandName
  | expression
  | null
  | openParen
  | closeParen
  | commaOrCloseParen
  | commaOrCloseBracket
  | castType
  | columnName
  | indexName
  | closeBracket
  | info
  | asWord
  | firstOrLast
  | integer
  | probability
  | pattern
  | policyName
  | onWord
  | branch
  | comma
deriving Repr, BEq, DecidableEq

def Expectation.phrase : Expectation → String
  | .command => "a command"
  | .commandAfterPipe => "a command after '|'"
  | .commandName => "a command name"
  | .expression => "an expression"
  | .null => "NULL"
  | .openParen => "'('"
  | .closeParen => "')'"
  | .commaOrCloseParen => "',' or ')'"
  | .commaOrCloseBracket => "',' or ']'"
  | .castType => "a type name after '::'"
  | .columnName => "a column name"
  | .indexName => "an index name"
  | .closeBracket => "']'"
  | .info => "INFO"
  | .asWord => "AS"
  | .firstOrLast => "FIRST or LAST"
  | .integer => "an integer literal"
  | .probability => "a probability"
  | .pattern => "a pattern string"
  | .policyName => "a policy name"
  | .onWord => "ON"
  | .branch => "'(' to open a FORK branch"
  | .comma => "','"

inductive SyntaxFault where
  /-- Something else stands there, or the text ends. -/
  | expected (what : Expectation) (found? : Option String)
  | pipeWithoutCommand
  | unknownCommand (command : String)
  | cannotStart (command : String)
  | mustStart (command : String)
  | notInBranch (command : String)
  /-- The command could have ended before this token. -/
  | extraneous (found command : String)
  | unterminatedName
  | unterminatedSource
  | unterminatedString
  | nameAfterPoint
deriving Repr, BEq, DecidableEq

def SyntaxFault.detail : SyntaxFault → String
  | .expected what (some found) => "expected " ++ what.phrase ++ ", found '" ++ found ++ "'"
  | .expected what none => "expected " ++ what.phrase ++ ", found end of input"
  | .pipeWithoutCommand => "expected a command before '|'"
  | .unknownCommand command => "unknown command [" ++ command ++ "]"
  | .cannotStart command => "[" ++ command ++ "] cannot start a query, expected a source command"
  | .mustStart command =>
      "[" ++ command ++ "] is a source command and must be the first command"
  | .notInBranch command => "[" ++ command ++ "] is not allowed inside a FORK branch"
  | .extraneous found command => "extraneous input '" ++ found ++ "' after [" ++ command ++ "]"
  | .unterminatedName => "unterminated quoted identifier"
  | .unterminatedSource => "unterminated quoted source name"
  | .unterminatedString => "unterminated quoted string"
  | .nameAfterPoint => "expected a name after '.'"

/-- A fault and where it was found. -/
structure SyntaxError where
  fault : SyntaxFault
  span : Span
deriving Repr, BEq, DecidableEq

def SyntaxError.diagnostic (error : SyntaxError) : Diagnostic :=
  (Finding.syntaxError error.fault.detail).about error.span

end Esql
