import Esql.Proofs.Syntax.Visited

/-!
# Candid trees

A node of a candid tree that is not marked as closed early has no part that is, and an operator that
is not marked has all of its operands. So one look at the top of a tree tells whether all of it was
read.
-/

namespace Esql

/-- The number of operands of an operator; a call may have any number of arguments. -/
def Form.arity? : Form → Option Nat
  | .call => none
  | .binary => some 2
  | .unary | .trailing => some 1

/-- An operator with all of its operands. -/
def Expr.Saturated : Expr → Prop
  | .apply _ form args _ => ∀ count ∈ form.arity?, args.length = count
  | .column _ | .literal _ | .list .. | .interval _ | .cast .. => True

namespace Node

/-- A node that is complete only if its parts are, with parts of which the same is true. -/
inductive Candid : Node → Prop where
  | intro {node : Node}
      (saturated : node.incomplete = false → ∀ expr ∈ node.expr?, expr.Saturated)
      (closed : node.incomplete = false → ∀ part ∈ node.children, part.incomplete = false)
      (parts : ∀ part ∈ node.children, Candid part) : Candid node

/-- A node that is not an expression in the place of an argument that has one. -/
def Proper (node : Node) : Prop := ∀ expr, node ≠ .argument (.expr expr)

theorem proper_ofArgument (argument : Argument) : (ofArgument argument).Proper := by
  rintro expr same
  cases argument with
  | expr e => cases same
  | _ => cases same

theorem proper_of_mem_children {node part : Node} (member : part ∈ node.children) :
    part.Proper := by
  have exprs {parts : List Expr} (member : part ∈ parts.map Node.expr) : part.Proper := by
    obtain ⟨expr, -, rfl⟩ := List.mem_map.mp member
    exact nofun
  cases node with
  | command c =>
      obtain ⟨argument, -, rfl⟩ := List.mem_map.mp member
      exact proper_ofArgument argument
  | argument a => cases a <;> exact exprs member
  | expr e => exact exprs member

theorem walk_ofArgument (argument : Argument) : (ofArgument argument).walk = argument.walk := by
  cases argument <;> rfl

/-- A walk comes to the node itself and then to its parts. -/
theorem walk_eq {node : Node} (proper : node.Proper) :
    node.walk = node :: node.children.flatMap walk := by
  have exprs (parts : List Expr) :
      (Expr.walkAll parts).map Node.expr = (parts.map Node.expr).flatMap walk := by
    rw [Expr.walkAll_eq_flatMap, List.map_flatMap, List.flatMap_map]
    rfl
  cases node with
  | command c =>
      have args : (c.args.map ofArgument).flatMap walk = c.args.flatMap Argument.walk := by
        rw [List.flatMap_map]
        exact congrArg c.args.flatMap (funext walk_ofArgument)
      exact congrArg (List.cons _) args.symm
  | argument a =>
      cases a with
      | expr e => exact absurd rfl (proper e)
      | _ => exact congrArg (List.cons _) (exprs _)
  | expr e =>
      rw [walk, Expr.walk_eq, List.map_cons, exprs]
      rfl

namespace Candid

variable {node : Node}

/-- Whatever lies below a complete node is complete, and every operator there has its operands. -/
theorem of_mem_walk (candid : node.Candid) (proper : node.Proper)
    (complete : node.incomplete = false) :
    ∀ below ∈ node.walk, below.incomplete = false ∧ ∀ expr ∈ below.expr?, expr.Saturated := by
  induction candid with
  | intro saturated closed parts ih =>
      rw [walk_eq proper, List.forall_mem_cons]
      refine ⟨⟨complete, saturated complete⟩, ?_⟩
      intro below member
      obtain ⟨part, inside, deeper⟩ := List.mem_flatMap.mp member
      exact ih part inside (proper_of_mem_children inside) (closed complete part inside) below deeper

/-- Whatever lies below a candid node is candid. -/
theorem of_mem (candid : node.Candid) (proper : node.Proper) :
    ∀ below ∈ node.walk, below.Candid := by
  induction candid with
  | @intro node saturated closed parts ih =>
      rw [walk_eq proper, List.forall_mem_cons]
      refine ⟨.intro saturated closed parts, ?_⟩
      intro below member
      obtain ⟨part, inside, deeper⟩ := List.mem_flatMap.mp member
      exact ih part inside (proper_of_mem_children inside) below deeper

/-- An expression from its parts. -/
theorem expr {expr : Expr} (saturated : expr.incomplete = false → expr.Saturated)
    (closed : expr.incomplete = false → ∀ part ∈ expr.children, part.incomplete = false)
    (parts : ∀ part ∈ expr.children, (Node.expr part).Candid) : (Node.expr expr).Candid := by
  refine .intro ?_ ?_ ?_
  · intro complete other same
    exact Option.some.inj same ▸ saturated complete
  · intro complete part member
    obtain ⟨inner, inside, rfl⟩ := List.mem_map.mp member
    exact closed complete inner inside
  · intro part member
    obtain ⟨inner, inside, rfl⟩ := List.mem_map.mp member
    exact parts inner inside

/-- An expression without parts. -/
theorem leaf {expr : Expr} (saturated : expr.Saturated) (childless : expr.children = []) :
    (Node.expr expr).Candid :=
  .expr (fun _ => saturated) (fun _ => childless ▸ List.forall_mem_nil _)
    (childless ▸ List.forall_mem_nil _)

/-- An argument that is no expression, from its operands. -/
theorem argument {argument : Argument} (other : argument.expr? = none)
    (closed : argument.incomplete = false →
      ∀ operand ∈ argument.operands, operand.incomplete = false)
    (parts : ∀ operand ∈ argument.operands, (Node.expr operand).Candid) :
    (Node.ofArgument argument).Candid := by
  cases argument with
  | expr e => cases other
  | _ =>
      refine .intro (fun _ => nofun) ?_ ?_
      · intro complete part member
        obtain ⟨inner, inside, rfl⟩ := List.mem_map.mp member
        exact closed complete inner inside
      · intro part member
        obtain ⟨inner, inside, rfl⟩ := List.mem_map.mp member
        exact parts inner inside

/-- A command from its arguments. -/
theorem command {command : Command}
    (closed : command.incomplete = false → ∀ argument ∈ command.args, argument.incomplete = false)
    (parts : ∀ argument ∈ command.args, (Node.ofArgument argument).Candid) :
    (Node.command command).Candid := by
  refine .intro (fun _ => nofun) ?_ ?_
  · intro complete part member
    obtain ⟨argument, inside, rfl⟩ := List.mem_map.mp member
    have same : (ofArgument argument).incomplete = argument.incomplete := by
      cases argument <;> rfl
    rw [same]
    exact closed complete argument inside
  · intro part member
    obtain ⟨argument, inside, rfl⟩ := List.mem_map.mp member
    exact parts argument inside

/-- The parts of a candid expression, where it is complete. -/
theorem parts_complete {expr : Expr} (candid : (Node.expr expr).Candid)
    (complete : expr.incomplete = false) : ∀ part ∈ expr.children, part.incomplete = false := by
  obtain ⟨_, closed, _⟩ := candid
  intro part member
  exact closed complete (.expr part) (List.mem_map_of_mem member)

/-- Marking a candid expression says no more than it did, except about itself. -/
theorem markIncomplete {expr : Expr} (candid : (Node.expr expr).Candid) :
    (Node.expr expr.markIncomplete).Candid := by
  obtain ⟨_, _, parts⟩ := candid
  have below : ∀ part ∈ expr.children, (Node.expr part).Candid := by
    intro part member
    exact parts (.expr part) (List.mem_map_of_mem member)
  cases expr with
  | interval i => exact .leaf trivial rfl
  | _ => exact .expr Bool.noConfusion Bool.noConfusion below

end Candid

end Node

/-- Everything in the expression was read to its end, and every operator has its operands. -/
def Expr.Whole (expr : Expr) : Prop := ∀ part ∈ expr.walk, part.incomplete = false ∧ part.Saturated

theorem Expr.Whole.part {expr part : Expr} (whole : expr.Whole) (member : part ∈ expr.children) :
    part.Whole :=
  fun node below => whole node (walk_subset_of_child member below)

/-- A complete expression below a candid node was read to its end in all of its parts. -/
theorem Node.Candid.whole {node : Node} (candid : node.Candid) (proper : node.Proper) {expr : Expr}
    (below : Node.expr expr ∈ node.walk) (complete : expr.incomplete = false) : expr.Whole := by
  intro part inside
  obtain ⟨closed, saturated⟩ := (candid.of_mem proper _ below).of_mem_walk
    (fun _ => Node.noConfusion) complete _ (List.mem_map_of_mem inside)
  exact ⟨closed, saturated part rfl⟩

end Esql
