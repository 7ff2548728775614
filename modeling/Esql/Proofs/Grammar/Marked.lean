import Esql.Proofs.Grammar.Tree
import Esql.Proofs.Grammar.Visited

/-!
# What is marked in a tree

A tree with a mark on it never comes alone: something is told about what could not be read. And a
mark below a node shows at the node, so whoever finds a node without one may rely on all of it, up
to the branches of a fork.
-/

namespace Esql

/-- What a node of a tree has to do with the commands that are visited in the tree. -/
structure Node.Traced (root : Pipeline) (node : Node) : Prop where
  proper : node.Proper
  candid : node.Candid
  /-- A mark on the node is one on the command that it belongs to. -/
  shown : ∃ command ∈ Command.visitedIn root.commands,
    node.incomplete = true → command.incomplete = true
  command : ∀ command, node = .command command →
    command.visited ⊆ Command.visitedIn root.commands
  branch : ∀ branch, node = .argument (.branch branch) →
    Command.visitedIn branch.commands ⊆ Command.visitedIn root.commands

namespace Node

variable {root : Pipeline} {node part : Node}

/-- The parts of arguments and expressions are expressions. -/
theorem exists_expr_of_mem_children (member : part ∈ node.children)
    (other : ∀ command, node ≠ .command command) : ∃ expr, part = .expr expr := by
  have exprs {parts : List Expr} (member : part ∈ parts.map Node.expr) :
      ∃ expr, part = .expr expr := by
    obtain ⟨expr, -, rfl⟩ := List.mem_map.mp member
    exact ⟨expr, rfl⟩
  cases node with
  | command c => exact absurd rfl (other c)
  | argument a => cases a <;> exact exprs member
  | expr e => exact exprs member

theorem Traced.ofCommand {command : Command} (candid : (Node.command command).Candid)
    (visited : command.visited ⊆ Command.visitedIn root.commands) :
    (Node.command command).Traced root where
  proper := nofun
  candid := candid
  shown := ⟨command, visited command.mem_visited, id⟩
  command := by
    rintro _ ⟨⟩
    exact visited
  branch := nofun

theorem Traced.child (traced : node.Traced root) (member : part ∈ node.children) :
    part.Traced root := by
  obtain ⟨_, closed, parts⟩ := traced.candid
  obtain ⟨command, visited, shown⟩ := traced.shown
  refine ⟨proper_of_mem_children member, parts part member, ⟨command, visited, ?_⟩, ?_, ?_⟩
  · intro marked
    refine shown (Bool.of_not_eq_false fun complete => ?_)
    rw [closed complete part member] at marked
    cases marked
  · rintro inner rfl
    cases node with
    | command c =>
        obtain ⟨argument, -, same⟩ := List.mem_map.mp member
        cases argument <;> cases same
    | _ =>
        obtain ⟨expr, same⟩ := exists_expr_of_mem_children member nofun
        cases same
  · rintro branch rfl
    cases node with
    | command c =>
        obtain ⟨argument, inside, same⟩ := List.mem_map.mp member
        cases argument with
        | branch b =>
            cases same
            exact List.Subset.trans (Command.branch_subset inside) (traced.command c rfl)
        | _ => cases same
    | _ =>
        obtain ⟨expr, same⟩ := exists_expr_of_mem_children member nofun
        cases same

/-- Every node can be traced to a command, if the commands that are visited are candid. -/
theorem Within.traced
    (candid : ∀ command ∈ Command.visitedIn root.commands, (Node.command command).Candid)
    (within : node.Within root) : node.Traced root := by
  have command {command : Command} {commands : List Command} (member : command ∈ commands)
      (inside : Command.visitedIn commands ⊆ Command.visitedIn root.commands) :
      (Node.command command).Traced root := by
    have visited := List.Subset.trans (Command.visited_subset member) inside
    exact .ofCommand (candid command (visited command.mem_visited)) visited
  induction within with
  | command member => exact command member (List.Subset.refl _)
  | child within member ih => exact ih.child member
  | branch within member ih => exact command member (ih.branch _ rfl)

end Node

/-- Marks that are told of, and that show wherever they are looked for. -/
structure Parsed.Accountable (parsed : Parsed) : Prop where
  told : parsed.pipeline.incomplete = true ∨
    (∃ node : Node, node.Within parsed.pipeline ∧ node.incomplete = true) → parsed.errors ≠ []
  shown : ∀ node : Node, node.Within parsed.pipeline → node.incomplete = false →
    ∀ below ∈ node.walk, below.incomplete = false ∧ ∀ expr ∈ below.expr?, expr.Saturated

theorem errors_ne_nil_of_incomplete {text : String}
    (marked : (parse text).pipeline.incomplete = true) : (parse text).errors ≠ [] := by
  obtain ⟨stages, same, read⟩ :=
    (Grammar.pipelineOutcomes (Grammar.pipelineBound (Token.scan text).length)).pipeline false
      (Grammar.Reading.start text (Token.scan text))
  have incomplete : stages.incomplete = true := by
    rw [← marked]
    exact (congrArg Pipeline.incomplete same).symm
  have grown := read.faulty (by rw [incomplete, Bool.true_or])
  exact List.ne_nil_of_length_pos (Nat.lt_of_le_of_lt (Nat.zero_le _) grown)

/-- For every text: if anything in its tree is marked as closed early, an error is told, and what is
not marked has no mark below it and all operands of its operators. -/
theorem accountable_parse (text : String) : (parse text).Accountable := by
  have traced {node : Node} (within : node.Within (parse text).pipeline) :=
    within.traced (candid_visited text)
  refine ⟨?_, ?_⟩
  · rintro (marked | ⟨node, within, marked⟩)
    · exact errors_ne_nil_of_incomplete marked
    · obtain ⟨command, visited, shown⟩ := (traced within).shown
      exact errors_ne_nil_of_visited visited (shown marked)
  · intro node within complete
    exact (traced within).candid.of_mem_walk (traced within).proper complete

end Esql
