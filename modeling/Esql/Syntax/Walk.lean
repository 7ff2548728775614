import Esql.Syntax.Command

/-!
# Walking a query

Nodes are commands, their arguments, and the expressions in those. A walk lists a node and all
nodes below it, each before its parts, but stays out of the branches of a fork: a branch is a
pipeline of its own, and its commands are visited as commands.
-/

namespace Esql

inductive Node where
  | command (command : Command)
  | argument (argument : Argument)
  | expr (expr : Expr)

namespace Node

/-- An argument as a node; an expression is a node by itself. -/
def ofArgument : Argument → Node
  | .expr e => .expr e
  | a => .argument a

def span : Node → Span
  | .command c => c.span
  | .argument a => a.span
  | .expr e => e.span

def text : Node → String
  | .command c => c.text
  | .argument a => a.text
  | .expr e => e.text

def incomplete : Node → Bool
  | .command c => c.incomplete
  | .argument a => a.incomplete
  | .expr e => e.incomplete

end Node

/-- The name of a kind of expression. -/
def Expr.kindName : Expr → String
  | .apply .. => "function"
  | .column _ => "column"
  | .literal _ => "literal"
  | .list .. => "list"
  | .interval _ => "timeInterval"
  | .cast .. => "inlineCast"

/-- The name of a kind of argument. -/
def Argument.kindName : Argument → String
  | .expr e => e.kindName
  | .word _ => "identifier"
  | .source _ => "source"
  | .clause _ => "option"
  | .sortKey _ => "order"
  | .branch _ => "query"

namespace Argument

/-- The expressions directly inside an argument that is not one itself. -/
def operands : Argument → List Expr
  | .clause c => c.operands
  | .sortKey k => [k.expr]
  | _ => []

/-- The argument and the nodes below it. -/
def walk : Argument → List Node
  | .expr e => e.walk.map .expr
  | argument => .argument argument :: (Expr.walkAll argument.operands).map .expr

/-- The deepest node of an argument whose span touches an offset. -/
def innermostAt? (offset : Nat) : Argument → Option Node
  | .expr e => (e.innermostAt? offset).map .expr
  | argument =>
      if argument.span.touches offset then
        some (((Expr.innermostIn? offset argument.operands).map .expr).getD (.argument argument))
      else none

/-- The same among several arguments, the last one where two meet. -/
def innermostIn? (offset : Nat) : List Argument → Option Node
  | [] => none
  | argument :: rest =>
      match innermostIn? offset rest with
      | some found => some found
      | none => argument.innermostAt? offset

end Argument

namespace Command

/-- The command and the nodes below it, branches left closed. -/
def walk (command : Command) : List Node := .command command :: command.args.flatMap Argument.walk

/-- The deepest node of a command whose span touches an offset. -/
def innermostAt? (command : Command) (offset : Nat) : Option Node :=
  if command.span.touches offset then
    some ((Argument.innermostIn? offset command.args).getD (.command command))
  else none

end Command

namespace Node

def children : Node → List Node
  | .command c => c.args.map ofArgument
  | .argument (.expr e) => e.children.map .expr
  | .argument a => a.operands.map .expr
  | .expr e => e.children.map .expr

/-- The node and all nodes below it, each before its parts. -/
def walk : Node → List Node
  | .command c => c.walk
  | .argument a => a.walk
  | .expr e => e.walk.map .expr

/-- The deepest node whose span touches an offset. -/
def innermostAt? : Node → Nat → Option Node
  | .command c, offset => c.innermostAt? offset
  | .argument a, offset => a.innermostAt? offset
  | .expr e, offset => (e.innermostAt? offset).map .expr

def kindName : Node → String
  | .command _ => "command"
  | .argument a => a.kindName
  | .expr e => e.kindName

def expr? : Node → Option Expr
  | .expr e => some e
  | _ => none

/-- The names of the functions below a node, itself included. -/
def functionNames (node : Node) : List String :=
  (node.walk.filterMap expr?).filterMap Expr.functionName?

/-- The columns below a node, itself included. -/
def columns (node : Node) : List Column := (node.walk.filterMap expr?).filterMap Expr.column?

end Node

mutual

/-- A command and the commands of its branches, in source order. -/
def Command.visited : Command → List Command
  | ⟨name, qualifier?, text, span, nameSpan, args, incomplete⟩ =>
      ⟨name, qualifier?, text, span, nameSpan, args, incomplete⟩ :: Argument.visitedIn args

def Argument.visited : Argument → List Command
  | .branch b => Pipeline.visited b
  | .expr _ | .word _ | .source _ | .clause _ | .sortKey _ => []

def Argument.visitedIn : List Argument → List Command
  | [] => []
  | argument :: rest => Argument.visited argument ++ Argument.visitedIn rest

/-- Every command of a pipeline, those of branches included, in source order. -/
def Pipeline.visited : Pipeline → List Command
  | ⟨commands, _, _⟩ => Command.visitedIn commands

def Command.visitedIn : List Command → List Command
  | [] => []
  | command :: rest => Command.visited command ++ Command.visitedIn rest

end

namespace Pipeline

/-- A branch is entered at an offset inside it, and at its end while it is still open. -/
def opensAt (branch : Pipeline) (offset : Nat) : Bool :=
  branch.span.touches offset && (branch.incomplete || offset < branch.span.stop)

end Pipeline

mutual

/-- The command being written at an offset that lies at or behind the start of this one. -/
def Command.descend (offset : Nat) : Command → Command
  | ⟨name, qualifier?, text, span, nameSpan, args, incomplete⟩ =>
      ((Argument.descendIn offset args).getD none).getD
        ⟨name, qualifier?, text, span, nameSpan, args, incomplete⟩

/-- What the last branch entered at an offset holds there, if a branch is entered at all. -/
def Argument.descendIn (offset : Nat) : List Argument → Option (Option Command)
  | [] => none
  | argument :: rest =>
      match Argument.descendIn offset rest with
      | some entered => some entered
      | none => Argument.descend offset argument

def Argument.descend (offset : Nat) : Argument → Option (Option Command)
  | .branch b => if b.opensAt offset then some (Pipeline.commandAt? offset b) else none
  | .expr _ | .word _ | .source _ | .clause _ | .sortKey _ => none

/-- The last command that starts at or before an offset, or the one inside its branch there. -/
def Pipeline.commandAt? (offset : Nat) : Pipeline → Option Command
  | ⟨commands, _, _⟩ => Command.lastAt? offset commands

def Command.lastAt? (offset : Nat) : List Command → Option Command
  | [] => none
  | command :: rest =>
      match Command.lastAt? offset rest with
      | some found => some found
      | none =>
          if command.span.start ≤ offset then some (Command.descend offset command) else none

end

end Esql
