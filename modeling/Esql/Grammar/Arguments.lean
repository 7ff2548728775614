import Esql.Grammar.Expression
import Esql.Verb

/-!
# The grammar of arguments

What each verb takes after its name. A rule returns the arguments that it read and whether they
are complete, so an unfinished command still carries all that was read of it. The branches of a
fork are pipelines and are read elsewhere.
-/

namespace Esql.Grammar

/-- Expressions as arguments. -/
def asArguments (rule : Rule (Parts Expr)) : Rule (Parts Argument) := do
  let read ← rule
  pure ⟨read.items.map .expr, read.complete⟩

/-- A clause that starts at an offset, with a body that reads its operands. -/
def clauseFrom (name : String) (start : Nat) (body : Rule (Parts Expr)) :
    Rule (Parts Argument) := do
  let read ← body
  let extent ← extent start (!read.complete)
  pure ⟨[.clause ⟨extent, name, read.items⟩], read.complete⟩

/-- A clause that may follow, introduced by a reserved word. -/
def optionalClause (name : String) (keyword : Keyword) (body : Rule (Parts Expr)) :
    Rule (Parts Argument) := do
  match ← acceptWord? keyword with
  | some token => clauseFrom name token.span.start body
  | none => pure .none

/-- An expression that may be given a name by an equals sign before it. -/
def field? : Rule (Option Expr) := do
  if assignmentAhead (← tokens) then
    match ← requiredColumn false with
    | none => pure none
    | some target =>
        advance
        let value ← expression
        let extent ← extent target.span.start (target.incomplete || isUnfinished value)
        pure (some (.apply "=" .binary (operands [.column target] value) extent))
  else expression

/-- A field of STATS that may be restricted by a condition of its own. -/
def filteredField? : Rule (Option Expr) := do
  match ← field? with
  | none => pure none
  | some field =>
      if field.incomplete then pure (some field)
      else if ← acceptWord .where then
        let condition ← expression
        let extent ← extent field.span.start (isUnfinished condition)
        pure (some (.apply "where" .binary (operands [field] condition) extent))
      else pure (some field)

def fields : Rule (Parts Expr) := separated (operand field?)

def columnList (stars : Bool) : Rule (Parts Expr) := separated (columnOperand stars)

/-- A source that has to be there. -/
def sourceArgument (kind : SourceKind) (what : Expectation) : Rule (Parts Argument) := do
  match ← source? kind with
  | some source => pure (.one (.source source) source.incomplete)
  | none => halt what

/-- Metadata fields in brackets, the older way to write the clause. -/
def bracketedMetadata (start : Nat) : Rule (Parts Argument) := do
  skip 2
  clauseFrom "metadata" start do
    andThen (columnList false) do
      if ← accept .closeBracket then pure .none else halt .closeBracket

/-- The metadata clause of a source command, in brackets or bare. -/
def metadataClause : Rule (Parts Argument) := do
  match ← tokens with
  | opening :: word :: _ =>
      if opening.kind == .openBracket && word.isKeyword .metadata then
        bracketedMetadata opening.span.start
      else optionalClause "metadata" .metadata (columnList false)
  | _ => optionalClause "metadata" .metadata (columnList false)

def fromArguments : Rule (Parts Argument) :=
  andThen (separated (sourceArgument .index .indexName)) metadataClause

def showArguments : Rule (Parts Argument) := do
  match ← tokens with
  | token :: _ =>
      if token.kind.isWord then
        advance
        pure (.one (.word ⟨token.lower, token.span, token.text⟩) false)
      else halt .info
  | [] => halt .info

def statsArguments (nested : Bool) : Rule (Parts Argument) := do
  let reading ← get
  let aggregates : Rule (Parts Argument) :=
    if reading.isAtBoundary nested || reading.isAt (.keyword .by) then pure .none
    else asArguments (separated (operand filteredField?))
  andThen aggregates (optionalClause "by" .by fields)

/-- The new name of a column, after AS. -/
def newName (old : Column) : Rule (Parts Expr) := do
  if ← acceptWord .as then
    andThen (pure (.one (.column old) false)) (columnOperand false)
  else
    expected .asWord
    pure (.one (.column old) true)

/-- One renaming, with the old name first or as an assignment to the new one. -/
def renamedColumn : Rule (Parts Argument) := do
  if assignmentAhead (← tokens) then asArguments (operand field?)
  else
    match ← requiredColumn true with
    | none => pure .halted
    | some old =>
        if old.incomplete then pure (.one (.expr (.column old)) true)
        else clauseFrom "as" old.span.start (newName old)

/-- The direction after a sort expression. -/
def direction? : Rule (Option Direction) := do
  if ← acceptWord .asc then pure (some .ascending)
  else if ← acceptWord .desc then pure (some .descending)
  else pure none

/-- The place of nulls after NULLS; an absent result has been recorded. -/
def nullsOrder? : Rule (Option NullsOrder) := do
  match ← tokens with
  | token :: _ =>
      if token.isWord "first" then
        advance
        pure (some .first)
      else if token.isWord "last" then
        advance
        pure (some .last)
      else
        expected .firstOrLast
        pure none
  | [] =>
      expected .firstOrLast
      pure none

def sortKey : Rule (Parts Argument) := do
  match ← expression with
  | none => pure .halted
  | some expr =>
      let start := expr.span.start
      if expr.incomplete then
        pure (.one (.sortKey ⟨← extent start true, expr, none, none⟩) true)
      else
        let direction ← direction?
        let ordered ← acceptWord .nulls
        let nulls ← if ordered then nullsOrder? else pure none
        let incomplete := ordered && nulls.isNone
        pure (.one (.sortKey ⟨← extent start incomplete, expr, direction, nulls⟩) incomplete)

/-- A number or a parameter, and nothing else. -/
def numberLiteral (what : Expectation) (decimals : Bool) : Rule (Parts Expr) := do
  match ← tokens with
  | token :: _ =>
      match token.kind with
      | .integer => pure (.one (← literal .integer token.text false) false)
      | .decimal =>
          if decimals then pure (.one (← literal .decimal token.text false) false) else halt what
      | .param name => pure (.one (← literal .param name false) false)
      | _ => halt what
  | [] => halt what

def isString : TokenKind → Bool
  | .string .. => true
  | _ => false

/-- An expression that starts with a string, for a pattern. -/
def patternOperand : Rule (Parts Expr) := do
  match ← tokens with
  | token :: _ => if isString token.kind then operand expression else halt .pattern
  | [] => halt .pattern

def grokArguments : Rule (Parts Argument) :=
  asArguments (andThen (operand expression) patternOperand)

/-- Settings by name, one after the other. The bound is never reached, as each takes a token. -/
def settingsFrom : Nat → Rule (Parts Argument)
  | 0 => halt .expression
  | bound + 1 => do
      match ← tokens with
      | name :: equals :: _ =>
          if name.kind.isWord && equals.kind == .assign then
            andThen
              (do
                skip 2
                let value ← expression
                let incomplete := isUnfinished value
                let extent ← extent name.span.start incomplete
                pure (.one (.clause ⟨extent, name.lower, value.toList⟩) incomplete))
              (settingsFrom bound)
          else pure .none
      | _ => pure .none

def dissectArguments : Rule (Parts Argument) :=
  andThen grokArguments do settingsFrom ((← tokens).length + 1)

/-- An enrich field under its own name or, by an assignment, under another. -/
def enrichField : Rule (Parts Expr) := do
  if assignmentAhead (← tokens) then operand field? else columnOperand false

def enrichArguments : Rule (Parts Argument) :=
  andThen (sourceArgument .policy .policyName) <|
    andThen (optionalClause "on" .on (columnOperand false)) <|
      optionalClause "with" .with (separated enrichField)

def joinArguments : Rule (Parts Argument) :=
  andThen (sourceArgument .index .indexName) do
    match ← acceptWord? .on with
    | some token => clauseFrom "on" token.span.start (separated (operand expression))
    | none => halt .onWord

/-- The two names for the output of CHANGE_POINT. -/
def outputNames : Rule (Parts Expr) :=
  andThen (columnOperand false) do
    if ← accept .comma then columnOperand false else halt .comma

def changePointArguments : Rule (Parts Argument) :=
  andThen (asArguments (columnOperand false)) <|
    andThen (optionalClause "on" .on (columnOperand false)) <|
      optionalClause "as" .as outputNames

/-- The arguments of a verb. Branches are read by `branches`. -/
def arguments (branches : Rule (Parts Argument)) (nested : Bool) : Verb → Rule (Parts Argument)
  | .from | .ts => fromArguments
  | .row | .eval => asArguments fields
  | .show => showArguments
  | .where => asArguments (operand expression)
  | .stats | .inlinestats => statsArguments nested
  | .keep | .drop => asArguments (columnList true)
  | .rename => separated renamedColumn
  | .mvExpand => asArguments (columnOperand false)
  | .sort => separated sortKey
  | .limit => asArguments (numberLiteral .integer false)
  | .sample => asArguments (numberLiteral .probability true)
  | .dissect => dissectArguments
  | .grok => grokArguments
  | .enrich => enrichArguments
  | .join => joinArguments
  | .fork => branches
  | .changePoint => changePointArguments

end Esql.Grammar
