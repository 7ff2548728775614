import Esql.Grammar.Names

/-!
# The grammar of expressions

Operators bind by power, loosest first: OR, AND, NOT, the comparisons and tests, sums, products,
signs, and casts. An operator of equal power on the right ends an operand, so operators of one
power group from the left.

An expression with a missing part is kept with the parts that were read, marked as incomplete, and
nothing is read after it. The recursion of the rules is bounded by a number that the tokens left
determine; a rule takes less than the bound allows, since no more than a few rules in a row read
no token.
-/

namespace Esql.Grammar

/-- How an operator goes on after its symbol. -/
inductive OperatorShape where
  | binary
  | nullTest
  | membership
deriving Repr, BEq, DecidableEq

structure Operator where
  name : String
  power : Nat
  shape : OperatorShape
  /-- The number of tokens of the symbol. -/
  width : Nat
deriving Repr, BEq, DecidableEq

namespace Power

def or : Nat := 1
def and : Nat := 2
def comparison : Nat := 4
def additive : Nat := 5
def multiplicative : Nat := 6
def sign : Nat := 7

end Power

/-- The negated test that a reserved word after NOT makes. -/
def negatedTest? : Keyword → Option Operator
  | .in => some ⟨"not in", Power.comparison, .membership, 2⟩
  | .like => some ⟨"not like", Power.comparison, .binary, 2⟩
  | .rlike => some ⟨"not rlike", Power.comparison, .binary, 2⟩
  | _ => none

/-- The operator that one token is, between two operands. -/
def symbolOperator? (kind : TokenKind) : Option Operator := do
  let symbol ← kind.operator?
  match kind with
  | .plus | .minus => pure ⟨symbol, Power.additive, .binary, 1⟩
  | .star | .slash | .percent => pure ⟨symbol, Power.multiplicative, .binary, 1⟩
  | _ => pure ⟨symbol, Power.comparison, .binary, 1⟩

/-- The operator at the front, after a complete operand. -/
def operator? : List Token → Option Operator
  | [] => none
  | token :: rest =>
      match token.kind with
      | .keyword .or => some ⟨"or", Power.or, .binary, 1⟩
      | .keyword .and => some ⟨"and", Power.and, .binary, 1⟩
      | .keyword .is => some ⟨"is null", Power.comparison, .nullTest, 1⟩
      | .keyword .in => some ⟨"in", Power.comparison, .membership, 1⟩
      | .keyword .like => some ⟨"like", Power.comparison, .binary, 1⟩
      | .keyword .rlike => some ⟨"rlike", Power.comparison, .binary, 1⟩
      | .keyword .not => rest.head?.bind fun next => next.kind.keyword?.bind negatedTest?
      | kind => symbolOperator? kind

/-- The operator that a token is before its operand, with the power that the operand needs. -/
def unaryOperator? : TokenKind → Option (String × Nat)
  | .keyword .not => some ("not", Power.comparison)
  | .minus => some ("-", Power.sign)
  | .plus => some ("+", Power.sign)
  | _ => none

/-- The list of operands with an optional last one. -/
def operands (first : List Expr) (last : Option Expr) : List Expr := first ++ last.toList

/-- An operand is missing or was closed early. -/
def isUnfinished (operand : Option Expr) : Bool := operand.all Expr.incomplete

/-- The application of an operator to a left operand and a right one, which may be missing. -/
def binaryNode (name : String) (left : Expr) (right : Option Expr) : Rule Expr := do
  let extent ← extent left.span.start (isUnfinished right)
  pure (.apply name .binary (operands [left] right) extent)

/-- The rest of IS NULL or IS NOT NULL. -/
def nullTest (operand : Expr) : Rule Expr := do
  let negated ← acceptWord .not
  let complete ← acceptWord .null
  if !complete then expected .null
  let extent ← extent operand.span.start (!complete)
  pure (.apply (if negated then "is not null" else "is null") .trailing [operand] extent)

/-- A literal of one token. -/
def literal (kind : LiteralKind) (value : String) (incomplete : Bool) : Rule Expr := do
  let start := (← get).nextStart
  advance
  pure (.literal ⟨← extent start incomplete, kind, value⟩)

/-- An integer and a unit of time. A quantity that does not fit is zero. -/
def interval (number unit : Token) : Rule Expr := do
  skip 2
  let extent ← extent number.span.start false
  pure (.interval ⟨(readInt64? number.text).getD 0, unit.lower, extent.span, extent.text⟩)

/-- A lone star as the only argument, which stands for all rows. -/
def wholeRow : Rule Expr := do
  let start := (← get).nextStart
  advance
  pure (.column ⟨← extent start false, "*", ["*"], false⟩)

/-- The only thing before a closing parenthesis is a star. -/
def isWholeRow : List Token → Bool
  | star :: close :: _ => star.kind == .star && close.kind == .closeParen
  | _ => false

/-- A sign directly before a number belongs to the number. -/
def signedLiteral? (sign : Token) (name : String) (operand : Option Expr) : Option Literal :=
  match operand with
  | some (.literal number) =>
      if name != "not" && number.isNumeric && number.span.start == sign.span.stop then some number
      else none
  | _ => none

/-- The value of a number after a sign. -/
def signedValue (name value : String) : String := if name == "-" then "-" ++ value else value

/-- The application of an operator to its only operand, or a number with its sign. -/
def unaryNode (sign : Token) (name : String) (operand : Option Expr) : Rule Expr := do
  match signedLiteral? sign name operand with
  | some number =>
      let span : Span := ⟨sign.span.start, number.span.stop⟩
      let text := span.slice (← get).source
      pure (.literal ⟨⟨span, text, false⟩, number.kind, signedValue name number.value⟩)
  | none =>
      let extent ← extent sign.span.start (isUnfinished operand)
      pure (.apply name .unary operand.toList extent)

/-- The name of a type after a double colon. -/
def castType : Rule (Option String) := do
  match (← tokens).head?.bind fun token => token.kind.name? with
  | some name =>
      advance
      pure (some (Text.lower name))
  | none =>
      expected .castType
      pure none

/-- The casts that follow a value. -/
def castsFrom : Nat → Expr → Rule Expr
  | 0, value => pure value
  | bound + 1, value => do
      if value.incomplete then pure value
      else if ← accept .doubleColon then
        let target? ← castType
        let extent ← extent value.span.start target?.isNone
        castsFrom bound (.cast value (target?.getD "") extent)
      else pure value

/-- What has to follow an item of a listing that closes with a kind of token. -/
def afterItem (close : TokenKind) : Expectation :=
  if close == .closeParen then .commaOrCloseParen else .commaOrCloseBracket

mutual

/-- An expression whose operators bind at least as tightly as a power. -/
def binary : Nat → (power : Nat) → Rule (Option Expr)
  | 0, _ => do
      expected .expression
      pure none
  | bound + 1, power => do
      match ← unary bound with
      | none => pure none
      | some left => pure (some (← operatorsFrom bound power left))

/-- The operators that follow a left operand. -/
def operatorsFrom : Nat → (power : Nat) → (left : Expr) → Rule Expr
  | 0, _, left => pure left
  | bound + 1, power, left => do
      match operator? (← tokens) with
      | none => pure left
      | some operator =>
          if left.incomplete || operator.power < power then pure left
          else
            skip operator.width
            let applied ← match operator.shape with
              | .binary => do
                  let right ← binary bound (operator.power + 1)
                  binaryNode operator.name left right
              | .membership => do
                  let right ← memberList bound
                  binaryNode operator.name left right
              | .nullTest => nullTest left
            operatorsFrom bound power applied

/-- An operand with the operators before it. -/
def unary : Nat → Rule (Option Expr)
  | 0 => do
      expected .expression
      pure none
  | bound + 1 => do
      match ← tokens with
      | [] =>
          expected .expression
          pure none
      | token :: _ =>
          match unaryOperator? token.kind with
          | some (name, power) =>
              advance
              let operand ← binary bound power
              pure (some (← unaryNode token name operand))
          | none =>
              match ← primary bound with
              | none => pure none
              | some value => pure (some (← castsFrom ((← tokens).length + 1) value))

/-- The parenthesised list on the right of a membership test. -/
def memberList : Nat → Rule (Option Expr)
  | 0 => do
      expected .openParen
      pure none
  | bound + 1 => do
      match ← accept? .openParen with
      | none =>
          expected .openParen
          pure none
      | some opening =>
          let items ← listing bound .closeParen false
          pure (some (.list items.items (← extent opening.span.start (!items.complete))))

/-- Items with commas between them up to a closing token, which is read. A star may stand for all
rows if `starred` says so. -/
def listing : Nat → (close : TokenKind) → (starred : Bool) → Rule (Parts Expr)
  | 0, _, _ => halt .expression
  | bound + 1, close, starred => do
      if ← accept close then pure .none else itemsFrom bound close starred

/-- At least one item, and the rest of a listing. -/
def itemsFrom : Nat → (close : TokenKind) → (starred : Bool) → Rule (Parts Expr)
  | 0, _, _ => halt .expression
  | bound + 1, close, starred => do
      let item ←
        if starred && isWholeRow (← tokens) then do pure (some (← wholeRow))
        else binary bound Power.or
      match item with
      | none => pure .halted
      | some item =>
          if item.incomplete then pure (.one item true)
          else if ← accept .comma then
            pure ((Parts.one item false).append (← itemsFrom bound close starred))
          else if ← accept close then pure (.one item false)
          else
            expected (afterItem close)
            pure (.one item true)

/-- A literal, a list, a name, a call, or an expression in parentheses. -/
def primary : Nat → Rule (Option Expr)
  | 0 => do
      expected .expression
      pure none
  | bound + 1 => do
      match ← tokens with
      | [] =>
          expected .expression
          pure none
      | token :: rest =>
          match token.kind with
          | .integer =>
              match rest with
              | unit :: _ =>
                  if unit.kind.isWord then pure (some (← interval token unit))
                  else pure (some (← literal .integer token.text false))
              | [] => pure (some (← literal .integer token.text false))
          | .decimal => pure (some (← literal .decimal token.text false))
          | .string value terminated =>
              if !terminated then record .unterminatedString token.span
              pure (some (← literal .string value (!terminated)))
          | .keyword .true | .keyword .false => pure (some (← literal .boolean token.lower false))
          | .keyword .null => pure (some (← literal .null token.lower false))
          | .param name => pure (some (← literal .param name false))
          | .openBracket =>
              advance
              let items ← listing bound .closeBracket false
              pure (some (.list items.items (← extent token.span.start (!items.complete))))
          | .openParen =>
              advance
              match ← binary bound Power.or with
              | none => pure none
              | some inner =>
                  if inner.incomplete then pure (some inner)
                  else if ← accept .closeParen then pure (some inner)
                  else
                    expected .closeParen
                    pure (some inner.markIncomplete)
          | .quoted .. => do
              match ← column? false with
              | some column => pure (some (.column column))
              | none => pure none
          | .word _ => do
              if rest.head?.any fun next => next.kind == .openParen then
                skip 2
                let args ← listing bound .closeParen true
                pure (some (.apply token.lower .call args.items
                  (← extent token.span.start (!args.complete))))
              else
                match ← column? false with
                | some column => pure (some (.column column))
                | none => pure none
          | _ =>
              expected .expression
              pure none

end

/-- A bound that no expression over a number of tokens reaches. -/
def expressionBound (count : Nat) : Nat := 8 * count + 8

/-- An expression; if there is none, that is recorded. -/
def expression : Rule (Option Expr) := do
  binary (expressionBound (← tokens).length) Power.or

/-- A part of a sequence, which halts the sequence if it is missing. -/
def operand (rule : Rule (Option Expr)) : Rule (Parts Expr) := do
  match ← rule with
  | some expr => pure (.one expr expr.incomplete)
  | none => pure .halted

end Esql.Grammar
