import Esql.Proofs.Grammar.Pipeline

/-!
# The tree of a text

Whatever a text holds, its tree is well nested: no span leaves the text or cuts a character, every
part lies within its whole behind the parts before it, and the text kept with a node is what stands
under its span.
-/

namespace Esql

/-- The nodes of a tree: the commands of the query, the parts of a node that is in the tree, and
the commands of a branch that is. -/
inductive Node.Within (root : Pipeline) : Node → Prop where
  | command {command : Command} (member : command ∈ root.commands) :
      Node.Within root (.command command)
  | child {node part : Node} (within : Node.Within root node) (member : part ∈ node.children) :
      Node.Within root part
  | branch {branch : Pipeline} {command : Command}
      (within : Node.Within root (.argument (.branch branch)))
      (member : command ∈ branch.commands) :
      Node.Within root (.command command)

/-- A node that stands properly in a text, with its parts side by side inside it. -/
structure Node.Standing (source : String) (node : Node) : Prop where
  ordered : node.span.start ≤ node.span.stop
  inside : node.span.stop ≤ Text.byteLength source
  starts : Text.IsBoundary source.toList node.span.start
  stops : Text.IsBoundary source.toList node.span.stop
  text : (∀ branch, node ≠ .argument (.branch branch)) → node.text = node.span.slice source
  covers : ∀ part ∈ node.children, node.span.covers part.span = true
  siblings : node.children.Pairwise fun left right => left.span.stop ≤ right.span.start

/-- A pipeline that stands properly in a text, with something between any two commands. -/
structure Pipeline.Standing (source : String) (pipeline : Pipeline) : Prop where
  ordered : pipeline.span.start ≤ pipeline.span.stop
  inside : pipeline.span.stop ≤ Text.byteLength source
  starts : Text.IsBoundary source.toList pipeline.span.start
  stops : Text.IsBoundary source.toList pipeline.span.stop
  covers : ∀ command ∈ pipeline.commands, pipeline.span.covers command.span = true
  apart : pipeline.commands.Pairwise fun left right => left.span.stop < right.span.start

/-- A tree that stands properly in a text: the query, every node, and every branch. -/
structure Pipeline.Sound (source : String) (root : Pipeline) : Prop where
  query : root.Standing source
  nodes : ∀ node : Node, node.Within root → node.Standing source
  branches : ∀ branch : Pipeline, Node.Within root (.argument (.branch branch)) →
    branch.Standing source

/-- A node of a well-nested tree. -/
def Node.Nested (source : String) : Node → Prop
  | .command c => c.Nested source
  | .argument a => a.Nested source
  | .expr e => e.Nested source

namespace Node

variable {source : String} {node part : Node}

theorem nested_ofArgument {argument : Argument} (nested : argument.Nested source) :
    (ofArgument argument).Nested source := by
  cases argument with
  | expr e =>
      cases nested with
      | expr nested => exact nested
      | plain noTree => cases noTree.1
  | _ => exact nested

theorem span_ofArgument (argument : Argument) : (ofArgument argument).span = argument.span := by
  cases argument <;> rfl

/-- The parts of a well-nested node are well nested and stand in a row within it. -/
theorem Nested.children (nested : node.Nested source) :
    Placed Node.span (Node.Nested source) node.span.start node.children node.span.stop := by
  have exprs {start stop : Nat} {parts : List Expr}
      (placed : Placed Expr.span (Expr.Nested source) start parts stop) :
      Placed Node.span (Node.Nested source) start (parts.map Node.expr) stop := by
    refine ⟨?_, ?_⟩
    · rw [List.map_map]
      exact placed.row
    · intro part member
      obtain ⟨expr, inside, rfl⟩ := List.mem_map.mp member
      exact placed.sound expr inside
  cases node with
  | command c =>
      obtain ⟨fits, text, row, args⟩ := nested
      refine ⟨?_, ?_⟩
      · have same : Node.span ∘ ofArgument = Argument.span := funext span_ofArgument
        rw [children, List.map_map, same]
        exact row
      · intro part member
        obtain ⟨argument, inside, rfl⟩ := List.mem_map.mp member
        exact nested_ofArgument (args argument inside)
  | argument a =>
      cases nested with
      | expr nested => exact exprs nested.children
      | plain noTree fits text operands =>
          cases a with
          | expr e => cases noTree.1
          | _ => exact exprs operands
      | branch nested => exact .nil nested.fits.ordered
  | expr e => exact exprs nested.children

theorem Nested.fits (nested : node.Nested source) : node.span.Fits source := by
  cases node with
  | command c => exact Command.Nested.fits nested
  | argument a => exact Argument.Nested.fits nested
  | expr e => exact Expr.Nested.fits nested

theorem Nested.text_eq (nested : node.Nested source)
    (noBranch : ∀ branch, node ≠ .argument (.branch branch)) :
    node.text = node.span.slice source := by
  cases node with
  | command c =>
      obtain ⟨fits, text, row, args⟩ := nested
      exact text
  | argument a =>
      cases nested with
      | expr nested => exact nested.text_eq
      | plain noTree fits text operands => exact text
      | branch nested => exact absurd rfl (noBranch _)
  | expr e => exact Expr.Nested.text_eq nested

theorem Nested.standing (nested : node.Nested source) : node.Standing source := by
  have placed := nested.children
  refine ⟨nested.fits.ordered, nested.fits.stop_le, nested.fits.starts, nested.fits.stops,
    nested.text_eq, ?_, ?_⟩
  · intro part member
    have bounds := placed.row.bounds (List.mem_map_of_mem member)
    exact (Span.covers_iff _ _).mpr ⟨bounds.1, bounds.2.2⟩
  · exact List.pairwise_map.mp placed.row.pairwise

/-- All nodes of a well-nested tree are well nested. -/
theorem Within.nested {root : Pipeline} (tree : root.Nested source) (within : node.Within root) :
    node.Nested source := by
  induction within with
  | command member =>
      obtain ⟨fits, row, commands⟩ := tree
      exact commands _ member
  | child within member ih => exact ih.children.sound _ member
  | branch within member ih =>
      cases ih with
      | plain noTree => cases noTree.2
      | branch nested =>
          obtain ⟨fits, row, commands⟩ := nested
          exact commands _ member

end Node

theorem Pipeline.Nested.standing {source : String} {pipeline : Pipeline}
    (nested : pipeline.Nested source) : pipeline.Standing source := by
  obtain ⟨fits, row, commands⟩ := nested
  refine ⟨fits.ordered, fits.stop_le, fits.starts, fits.stops, ?_, ?_⟩
  · intro command member
    have bounds := row.bounds (List.mem_map_of_mem member)
    exact (Span.covers_iff _ _).mpr ⟨bounds.1, Nat.le_of_succ_le_succ bounds.2.2⟩
  · exact List.pairwise_map.mp row.pairwise

/-- The tree of any text, complete or not, is well nested in the text. -/
theorem nested_parse (source : String) : (parse source).pipeline.Nested source := by
  obtain ⟨stages, same, read⟩ :=
    (Grammar.pipelineOutcomes (Grammar.pipelineBound (Token.scan source).length)).pipeline false
      (Grammar.Reading.start source (Token.scan source))
  have tree := read.finish_nested (Grammar.ready_start source)
  rw [← same] at tree
  exact tree

/-- Every node of the tree of any text stands properly in the text, and so does every pipeline: the
query itself and each branch. -/
theorem sound_parse (source : String) : (parse source).pipeline.Sound source := by
  have tree := nested_parse source
  refine ⟨tree.standing, ?_, ?_⟩
  · intro node within
    exact (within.nested tree).standing
  · intro branch within
    cases within.nested tree with
    | plain noTree => cases noTree.2
    | branch nested => exact nested.standing

end Esql
