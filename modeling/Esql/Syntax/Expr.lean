import Esql.Text.Basic
import Esql.Text.Integer

/-!
# Expressions

The tree of an expression. Every node keeps its span and the text under it, and whether it had to
be closed early: an operand missing, a quote or a bracket left open. Parentheses leave no node.
-/

namespace Esql

/-- Where a node stands in the text, and whether it was closed early. -/
structure Extent where
  span : Span
  text : String
  incomplete : Bool
deriving Repr, BEq, DecidableEq

/-- How a function or an operator is written. -/
inductive Form where
  /-- A name before its arguments in parentheses. -/
  | call
  | binary
  | unary
  /-- An operator after its operand. -/
  | trailing
deriving Repr, BEq, DecidableEq, ReflBEq, LawfulBEq

structure Column extends Extent where
  /-- The parts without quotes, joined by points. -/
  name : String
  parts : List String
  /-- Some part is written in backticks. -/
  quoted : Bool
deriving Repr, BEq, DecidableEq

inductive LiteralKind where
  | integer
  | decimal
  | string
  | boolean
  | null
  | param
deriving Repr, BEq, DecidableEq, ReflBEq, LawfulBEq

structure Literal extends Extent where
  kind : LiteralKind
  /-- The value of a string without quotes, and what is written otherwise. -/
  value : String
deriving Repr, BEq, DecidableEq

/-- A number of units of time. It is never incomplete. -/
structure Interval where
  quantity : Int
  /-- The unit in lower case, known or not. -/
  unit : String
  span : Span
  text : String
deriving Repr, BEq, DecidableEq

inductive Expr where
  /-- A function or an operator, named in lower case or by its symbol. -/
  | apply (name : String) (form : Form) (args : List Expr) (extent : Extent)
  | column (column : Column)
  | literal (literal : Literal)
  | list (items : List Expr) (extent : Extent)
  | interval (interval : Interval)
  /-- A value with the type it is cast to, written after a double colon. -/
  | cast (value : Expr) (target : String) (extent : Extent)
deriving Repr, BEq

namespace Literal

def isNumeric (literal : Literal) : Bool := literal.kind == .integer || literal.kind == .decimal

/-- The value of an integer literal that fits in 64 bits. -/
def int64? (literal : Literal) : Option Int :=
  if literal.kind == .integer then readInt64? literal.value else none

end Literal

namespace Interval

def extent (interval : Interval) : Extent := ⟨interval.span, interval.text, false⟩

end Interval

namespace Expr

def extent : Expr → Extent
  | .apply _ _ _ extent => extent
  | .column c => c.toExtent
  | .literal l => l.toExtent
  | .list _ extent => extent
  | .interval i => i.extent
  | .cast _ _ extent => extent

def span (expr : Expr) : Span := expr.extent.span

def text (expr : Expr) : String := expr.extent.text

def incomplete (expr : Expr) : Bool := expr.extent.incomplete

/-- The expression marked as closed early; an interval cannot be. -/
def markIncomplete : Expr → Expr
  | .apply name form args extent => .apply name form args { extent with incomplete := true }
  | .column c => .column { c with incomplete := true }
  | .literal l => .literal { l with incomplete := true }
  | .list items extent => .list items { extent with incomplete := true }
  | .interval i => .interval i
  | .cast value target extent => .cast value target { extent with incomplete := true }

/-- The direct parts in source order. -/
def children : Expr → List Expr
  | .apply _ _ args _ => args
  | .list items _ => items
  | .cast value _ _ => [value]
  | .column _ | .literal _ | .interval _ => []

def column? : Expr → Option Column
  | .column c => some c
  | _ => none

def literal? : Expr → Option Literal
  | .literal l => some l
  | _ => none

def functionName? : Expr → Option String
  | .apply name _ _ _ => some name
  | _ => none

/-- The target and the value of a complete assignment. -/
def assignment? : Expr → Option (Column × Expr)
  | .apply "=" .binary [.column target, value] _ => some (target, value)
  | _ => none

/-- A binary application of the equals sign that names a value. -/
def isAssignment : Expr → Bool
  | .apply "=" .binary _ _ => true
  | _ => false

/-- An application that is not written with its arguments in parentheses. -/
def isOperator : Expr → Bool
  | .apply _ form _ _ => form != .call
  | _ => false

mutual

/-- A literal, an interval, or a list, a cast or a negation of constants only. -/
def isConstant : Expr → Bool
  | .literal _ => true
  | .interval _ => true
  | .list items _ => areConstant items
  | .cast value _ _ => isConstant value
  | .apply name form args _ => name == "-" && form == .unary && areConstant args
  | .column _ => false

def areConstant : List Expr → Bool
  | [] => true
  | expr :: rest => isConstant expr && areConstant rest

end

mutual

/-- The expression and all its parts, each before its own parts. -/
def walk : Expr → List Expr
  | .apply name form args extent => .apply name form args extent :: walkAll args
  | .list items extent => .list items extent :: walkAll items
  | .cast value target extent => .cast value target extent :: walk value
  | .column c => [.column c]
  | .literal l => [.literal l]
  | .interval i => [.interval i]

def walkAll : List Expr → List Expr
  | [] => []
  | expr :: rest => walk expr ++ walkAll rest

end

mutual

/-- The deepest part whose span touches an offset, the last one where two parts meet. -/
def innermostAt? (offset : Nat) : Expr → Option Expr
  | .apply name form args extent =>
      if extent.span.touches offset then
        some ((innermostIn? offset args).getD (.apply name form args extent))
      else none
  | .list items extent =>
      if extent.span.touches offset then
        some ((innermostIn? offset items).getD (.list items extent))
      else none
  | .cast value target extent =>
      if extent.span.touches offset then
        some ((innermostAt? offset value).getD (.cast value target extent))
      else none
  | .column c => if c.span.touches offset then some (.column c) else none
  | .literal l => if l.span.touches offset then some (.literal l) else none
  | .interval i => if i.span.touches offset then some (.interval i) else none

def innermostIn? (offset : Nat) : List Expr → Option Expr
  | [] => none
  | expr :: rest =>
      match innermostIn? offset rest with
      | some found => some found
      | none => innermostAt? offset expr

end

theorem walk_eq (expr : Expr) : walk expr = expr :: walkAll expr.children := by
  cases expr <;> simp [walk, children, walkAll]

theorem walkAll_eq_flatMap (exprs : List Expr) : walkAll exprs = exprs.flatMap walk := by
  induction exprs with
  | nil => rfl
  | cons expr rest ih => simp [walkAll, ih]

theorem markIncomplete_span (expr : Expr) : expr.markIncomplete.span = expr.span := by
  cases expr <;> rfl

end Expr

end Esql
