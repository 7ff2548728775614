import Esql.Syntax.Expr

/-!
# Commands and pipelines

A query is a pipeline of commands. A command holds its arguments: expressions, sources, clauses
introduced by a word of their own, sort keys, and the branches of a fork, which are pipelines
again. A command that could not be read to its end is incomplete.
-/

namespace Esql

/-- What a source names. -/
inductive SourceKind where
  | index
  | policy
deriving Repr, BEq, DecidableEq, ReflBEq, LawfulBEq

structure Source extends Extent where
  /-- The whole name without quotes, cluster and selector included. -/
  name : String
  /-- The name without its cluster and its selector. -/
  index : String
  /-- What stands before the first single colon; for a policy, its mode. -/
  cluster? : Option String
  /-- What stands after the first double colon. -/
  selector? : Option String
  kind : SourceKind
deriving Repr, BEq, DecidableEq

/-- A bare word as an argument. -/
structure Word where
  name : String
  span : Span
  text : String
deriving Repr, BEq, DecidableEq

structure Clause extends Extent where
  /-- The word of the clause in lower case. -/
  name : String
  operands : List Expr
deriving Repr, BEq

inductive Direction where
  | ascending
  | descending
deriving Repr, BEq, DecidableEq, ReflBEq, LawfulBEq

def Direction.spelling : Direction → String
  | .ascending => "ASC"
  | .descending => "DESC"

inductive NullsOrder where
  | first
  | last
deriving Repr, BEq, DecidableEq, ReflBEq, LawfulBEq

def NullsOrder.spelling : NullsOrder → String
  | .first => "NULLS FIRST"
  | .last => "NULLS LAST"

structure SortKey extends Extent where
  expr : Expr
  direction? : Option Direction
  nulls? : Option NullsOrder
deriving Repr, BEq

mutual

inductive Argument where
  | expr (expr : Expr)
  | word (word : Word)
  | source (source : Source)
  | clause (clause : Clause)
  | sortKey (key : SortKey)
  | branch (branch : Pipeline)

structure Pipeline where
  commands : List Command
  span : Span
  incomplete : Bool

structure Command where
  /-- The name in lower case, without a qualifier. -/
  name : String
  /-- The word before the name, in lower case. -/
  qualifier? : Option String
  text : String
  span : Span
  nameSpan : Span
  args : List Argument
  incomplete : Bool

end

deriving instance Repr for Argument, Pipeline, Command

namespace Argument

def span : Argument → Span
  | .expr e => e.span
  | .word w => w.span
  | .source s => s.span
  | .clause c => c.span
  | .sortKey k => k.span
  | .branch b => b.span

/-- The text under an argument; a branch has none of its own. -/
def text : Argument → String
  | .expr e => e.text
  | .word w => w.text
  | .source s => s.text
  | .clause c => c.text
  | .sortKey k => k.text
  | .branch _ => ""

def incomplete : Argument → Bool
  | .expr e => e.incomplete
  | .word _ => false
  | .source s => s.incomplete
  | .clause c => c.incomplete
  | .sortKey k => k.incomplete
  | .branch b => b.incomplete

def expr? : Argument → Option Expr
  | .expr e => some e
  | _ => none

def source? : Argument → Option Source
  | .source s => some s
  | _ => none

def clause? : Argument → Option Clause
  | .clause c => some c
  | _ => none

def branch? : Argument → Option Pipeline
  | .branch b => some b
  | _ => none

def isClause (argument : Argument) : Bool := argument.clause?.isSome

end Argument

namespace Clause

/-- The columns among the operands. -/
def columns (clause : Clause) : List Column := clause.operands.filterMap Expr.column?

end Clause

namespace Command

/-- The first clause with this word. -/
def clause? (command : Command) (name : String) : Option Clause :=
  (command.args.filterMap Argument.clause?).find? fun clause => clause.name == name

def clauses (command : Command) : List Clause := command.args.filterMap Argument.clause?

/-- The arguments that are no clauses. -/
def positional (command : Command) : List Argument :=
  command.args.filter fun argument => !argument.isClause

/-- The arguments that are expressions. -/
def exprs (command : Command) : List Expr := command.args.filterMap Argument.expr?

/-- The arguments that are columns. -/
def columns (command : Command) : List Column := command.exprs.filterMap Expr.column?

def sources (command : Command) : List Source := command.args.filterMap Argument.source?

def branches (command : Command) : List Pipeline := command.args.filterMap Argument.branch?

/-- The first argument, if it is a complete source. -/
def leadingSource? (command : Command) : Option Source :=
  (command.positional.head?.bind Argument.source?).filter fun source => !source.incomplete

/-- The name in upper case, with its qualifier. -/
def displayName (command : Command) : String :=
  match command.qualifier? with
  | some qualifier => Text.upper (qualifier ++ " " ++ command.name)
  | none => Text.upper command.name

end Command

end Esql
