import Esql.Proofs.Syntax.Term

/-!
# Grouping operators by strength

Operands with operators between them are a chain. A chain is grouped into a tree whose reading from
left to right is the chain. Among the trees of a chain there is exactly one in which each operator
takes operators at least as strong as itself on its left, and stronger ones on its right. It is
built by adding one operator after the other on the right of the tree.
-/

namespace Esql

/-- How tightly an operator binds. A negation, of strength 3, is no operator between operands. -/
def Connective.strength : Connective → Nat
  | .or => 1
  | .and => 2
  | .equal | .notEqual | .less | .lessEqual | .greater | .greaterEqual => 4
  | .matching | .like | .rlike | .notLike | .notRlike => 4
  | .plus | .minus => 5
  | .times | .divided | .modulo => 6

/-- Operands with an operator before each but the first. -/
structure Chain (α : Type) where
  first : α
  others : List (Connective × α)

/-- A tree of operators over operands. -/
inductive Grouping (α : Type) where
  | operand (leaf : α)
  | apply (connective : Connective) (left right : Grouping α)
deriving Repr, DecidableEq

namespace Grouping

variable {α : Type}

/-- The leftmost operand. -/
def first : Grouping α → α
  | .operand leaf => leaf
  | .apply _ left _ => left.first

/-- The operators from left to right, each with the operand behind it. -/
def links : Grouping α → List (Connective × α)
  | .operand _ => []
  | .apply connective left right => left.links ++ (connective, right.first) :: right.links

/-- The tree read from left to right. -/
def chain (tree : Grouping α) : Chain α := ⟨tree.first, tree.links⟩

/-- The operator at the root, if there is one, has at least this strength. -/
def BindsAt (strength : Nat) : Grouping α → Prop
  | .operand _ => True
  | .apply connective _ _ => strength ≤ connective.strength

/-- Each operator takes operators at least as strong as itself on its left, and stronger ones on its
right. -/
def Grouped : Grouping α → Prop
  | .operand _ => True
  | .apply connective left right =>
      left.BindsAt connective.strength ∧ right.BindsAt (connective.strength + 1) ∧
        left.Grouped ∧ right.Grouped

/-- An operator and an operand are added on the right, below the weaker operators there. -/
def push : Grouping α → Connective × α → Grouping α
  | .operand leaf, link => .apply link.1 (.operand leaf) (.operand link.2)
  | .apply connective left right, link =>
      if connective.strength < link.1.strength then .apply connective left (right.push link)
      else .apply link.1 (.apply connective left right) (.operand link.2)

variable {tree : Grouping α} {link : Connective × α} {weak strong : Nat}

theorem BindsAt.mono (binds : tree.BindsAt strong) (weaker : weak ≤ strong) :
    tree.BindsAt weak := by
  cases tree with
  | operand leaf => trivial
  | apply connective left right => exact Nat.le_trans weaker binds

theorem first_push (tree : Grouping α) (link : Connective × α) :
    (tree.push link).first = tree.first := by
  cases tree with
  | operand leaf => rfl
  | apply connective left right =>
      rw [push]
      split <;> rfl

theorem links_push (tree : Grouping α) (link : Connective × α) :
    (tree.push link).links = tree.links ++ [link] := by
  induction tree with
  | operand leaf => rfl
  | apply connective left right _ ih =>
      rw [push]
      split
      · rw [links, ih, first_push, links, List.append_assoc, List.cons_append]
      · rfl

/-- What stands below an operator stays below it, if the new operator belongs there. -/
theorem BindsAt.push (binds : tree.BindsAt weak) (strong : weak ≤ link.1.strength) :
    (tree.push link).BindsAt weak := by
  cases tree with
  | operand leaf => exact strong
  | apply connective left right =>
      rw [Grouping.push]
      split
      · exact binds
      · exact strong

theorem Grouped.push (grouped : tree.Grouped) : (tree.push link).Grouped := by
  induction tree with
  | operand leaf => exact ⟨trivial, trivial, trivial, trivial⟩
  | apply connective left right _ ih =>
      obtain ⟨before, behind, left, right⟩ := grouped
      rw [Grouping.push]
      split
      · rename_i stronger
        exact ⟨before, behind.push stronger, left, ih right⟩
      · rename_i weaker
        exact ⟨Nat.le_of_not_lt weaker, trivial, ⟨before, behind, left, right⟩, trivial⟩

/-- All operators of a grouped tree are as strong as the one at its root. -/
theorem Grouped.strong_of_mem (grouped : tree.Grouped) (binds : tree.BindsAt weak) :
    ∀ link ∈ tree.links, weak ≤ link.1.strength := by
  induction tree generalizing weak with
  | operand leaf => exact List.forall_mem_nil _
  | apply connective left right ihLeft ihRight =>
      obtain ⟨before, behind, left, right⟩ := grouped
      rw [links, List.forall_mem_append, List.forall_mem_cons]
      refine ⟨ihLeft left (before.mono binds), binds, ihRight right (behind.mono ?_)⟩
      exact Nat.le_succ_of_le binds

/-- Stronger operators are added below an operator. -/
theorem foldl_push_apply (connective : Connective) (left right : Grouping α)
    {links : List (Connective × α)}
    (strong : ∀ link ∈ links, connective.strength < link.1.strength) :
    links.foldl Grouping.push (.apply connective left right) =
      .apply connective left (links.foldl Grouping.push right) := by
  induction links generalizing right with
  | nil => rfl
  | cons link links ih =>
      rw [List.forall_mem_cons] at strong
      rw [List.foldl_cons, Grouping.push, if_pos strong.1, ih _ strong.2, List.foldl_cons]

/-- An operator that is no stronger than the one at the root becomes the new root. -/
theorem BindsAt.push_eq {connective : Connective} (binds : tree.BindsAt connective.strength)
    (leaf : α) : tree.push (connective, leaf) = .apply connective tree (.operand leaf) := by
  cases tree with
  | operand leaf => rfl
  | apply connective left right => exact if_neg (Nat.not_lt.mpr binds)

/-- A grouped tree is what its operators add up to. -/
theorem Grouped.foldl_push (grouped : tree.Grouped) :
    tree.links.foldl Grouping.push (.operand tree.first) = tree := by
  induction tree with
  | operand leaf => rfl
  | apply connective left right ihLeft ihRight =>
      obtain ⟨before, behind, left, right⟩ := grouped
      rw [links, List.foldl_append, first, ihLeft left, List.foldl_cons,
        before.push_eq, foldl_push_apply _ _ _ (right.strong_of_mem behind), ihRight right]

end Grouping

namespace Chain

variable {α : Type}

/-- The operators of a chain, grouped by strength. -/
def grouping (chain : Chain α) : Grouping α :=
  chain.others.foldl Grouping.push (.operand chain.first)

theorem chain_grouping (chain : Chain α) : chain.grouping.chain = chain := by
  suffices added : ∀ (links : List (Connective × α)) (tree : Grouping α),
      (links.foldl Grouping.push tree).chain = ⟨tree.first, tree.links ++ links⟩ from added _ _
  intro links
  induction links with
  | nil =>
      intro tree
      rw [List.append_nil]
      rfl
  | cons link links ih =>
      intro tree
      rw [List.foldl_cons, ih, Grouping.first_push, Grouping.links_push, List.append_assoc]
      rfl

theorem grouped_grouping (chain : Chain α) : chain.grouping.Grouped := by
  suffices added : ∀ (links : List (Connective × α)) (tree : Grouping α), tree.Grouped →
      (links.foldl Grouping.push tree).Grouped from added _ _ trivial
  intro links
  induction links with
  | nil => exact fun _ => id
  | cons link links ih => exact fun tree grouped => ih _ grouped.push

/-- No other tree of a chain is grouped by strength. -/
theorem eq_grouping {tree : Grouping α} (grouped : tree.Grouped) : tree = tree.chain.grouping :=
  grouped.foldl_push.symm

end Chain

/-! ## Climbing -/

/-- A tree to which operators of some power and more are added from the front of some links. -/
structure Climbing {α : Type} (power : Nat) (tree : Grouping α) (links : List (Connective × α)) :
    Prop where
  grouped : tree.Grouped
  binds : tree.BindsAt power
  before : ∀ link ∈ links.head?, tree.BindsAt link.1.strength

/-- A tree that was extended by operators of some power and more from the front of some links, up to
the first weaker one. -/
structure Climbed {α : Type} (power : Nat) (tree : Grouping α) (links : List (Connective × α))
    (whole : Grouping α) (rest : List (Connective × α)) : Prop where
  first : whole.first = tree.first
  taken : whole.links ++ rest = tree.links ++ links
  grouped : whole.Grouped
  binds : whole.BindsAt power
  weaker : ∀ link ∈ rest.head?, link.1.strength < power

section

variable {α : Type} {power : Nat} {tree right whole : Grouping α} {link : Connective × α}
  {links middle rest : List (Connective × α)}

theorem Climbing.operand (power : Nat) (leaf : α) (links : List (Connective × α)) :
    Climbing power (.operand leaf) links :=
  ⟨trivial, trivial, fun _ _ => trivial⟩

/-- A weaker operator is not added. -/
theorem Climbing.stop (climbing : Climbing power tree links)
    (weaker : ∀ link ∈ links.head?, link.1.strength < power) :
    Climbed power tree links tree links :=
  ⟨rfl, rfl, climbing.grouped, climbing.binds, weaker⟩

/-- An operator takes the stronger ones behind it on its right. -/
theorem Climbing.apply (climbing : Climbing power tree (link :: links))
    (strong : power ≤ link.1.strength)
    (climbed : Climbed (link.1.strength + 1) (.operand link.2) links right middle) :
    Climbing power (.apply link.1 tree right) middle where
  grouped := ⟨climbing.before link rfl, climbed.binds, climbing.grouped, climbed.grouped⟩
  binds := strong
  before next front := Nat.le_of_lt_succ (climbed.weaker next front)

theorem Climbed.step (climbed : Climbed (link.1.strength + 1) (.operand link.2) links right middle)
    (further : Climbed power (.apply link.1 tree right) middle whole rest) :
    Climbed power tree (link :: links) whole rest where
  first := further.first
  taken := by
    have taken : right.links ++ middle = links := climbed.taken
    rw [further.taken, Grouping.links, climbed.first, ← taken, List.append_assoc, List.cons_append]
    rfl
  grouped := further.grouped
  binds := further.binds
  weaker := further.weaker

/-- What climbs from the first operand of a chain to its end is the grouping of the chain. -/
theorem Climbed.eq_grouping {chain : Chain α}
    (climbed : Climbed power (.operand chain.first) chain.others whole []) :
    whole = chain.grouping := by
  have same : whole.chain = chain := by
    have taken : whole.links ++ [] = chain.others := climbed.taken
    rw [List.append_nil] at taken
    rw [Grouping.chain, climbed.first, taken]
    rfl
  rw [Chain.eq_grouping climbed.grouped, same]

end

end Esql
