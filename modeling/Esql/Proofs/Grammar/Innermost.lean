import Esql.Proofs.Grammar.Tree
import Esql.Proofs.Grammar.Visited

/-!
# The innermost node at an offset

The node at an offset is looked for from the right: the last part that touches the offset, in that
part the last one again, and so on. In a well-nested tree no node touches an offset that the node
around it does not touch. So the search ends at the last of all nodes that touch the offset, in the
order of a walk.
-/

namespace Esql

namespace Node

/-- A node that covers its parts, and so do its parts. -/
inductive Covering : Node → Prop where
  | intro {node : Node} (covers : ∀ part ∈ node.children, node.span.covers part.span = true)
      (parts : ∀ part ∈ node.children, Covering part) : Covering node

section

variable {source : String}

theorem covering_expr {expr : Expr} (nested : expr.Nested source) : Covering (.expr expr) := by
  induction nested with
  | @intro expr fits text row parts ih =>
      have standing : (Node.expr expr).Standing source :=
        Nested.standing (show (Node.expr expr).Nested source from .intro fits text row parts)
      refine .intro standing.covers fun part member => ?_
      obtain ⟨child, inside, rfl⟩ := List.mem_map.mp member
      exact ih child inside

theorem covering_argument {argument : Argument} (nested : argument.Nested source) :
    Covering (.argument argument) := by
  have standing : (Node.argument argument).Standing source :=
    Nested.standing (show (Node.argument argument).Nested source from nested)
  refine .intro standing.covers fun part member => ?_
  have exprs {parts : List Expr} (sound : ∀ expr ∈ parts, expr.Nested source)
      (member : part ∈ parts.map Node.expr) : Covering part := by
    obtain ⟨child, inside, rfl⟩ := List.mem_map.mp member
    exact covering_expr (sound child inside)
  cases nested with
  | expr nested => exact exprs nested.children.sound member
  | plain noTree fits text operands =>
      cases argument with
      | expr e => cases noTree.1
      | _ => exact exprs operands.sound member
  | branch nested => cases member

theorem covering_command {command : Command} (nested : command.Nested source) :
    Covering (.command command) := by
  have standing : (Node.command command).Standing source :=
    Nested.standing (show (Node.command command).Nested source from nested)
  refine .intro standing.covers fun part member => ?_
  obtain ⟨argument, inside, rfl⟩ := List.mem_map.mp member
  obtain ⟨fits, text, row, args⟩ := nested
  have here := args argument inside
  cases argument with
  | expr e =>
      cases here with
      | expr nested => exact covering_expr nested
      | plain noTree => cases noTree.1
  | _ => exact covering_argument here

end

/-- A search that tries the first item only where it finds nothing behind it. -/
theorem eq_findSome?_reverse {α β : Type} (search : List α → Option β) {found? : α → Option β}
    (nil : search [] = none)
    (cons : ∀ first rest, search (first :: rest) = (search rest).or (found? first))
    (items : List α) : search items = items.reverse.findSome? found? := by
  induction items with
  | nil => exact nil
  | cons first rest ih =>
      rw [cons, ih, List.reverse_cons, List.findSome?_append, List.findSome?_singleton]

variable {node : Node}

/-- The search goes through the parts from the last one to the first. -/
theorem innermostAt?_eq (proper : node.Proper) (offset : Nat) :
    node.innermostAt? offset =
      if node.span.touches offset then
        some ((node.children.reverse.findSome? (innermostAt? · offset)).getD node)
      else none := by
  have exprs (parts : List Expr) : (Expr.innermostIn? offset parts).map Node.expr =
      (parts.map Node.expr).reverse.findSome? (innermostAt? · offset) := by
    rw [← List.map_reverse, List.findSome?_map]
    refine eq_findSome?_reverse (fun parts => (Expr.innermostIn? offset parts).map _) rfl
      (fun expr rest => ?_) parts
    rw [Expr.innermostIn?]
    cases Expr.innermostIn? offset rest <;> rfl
  have args (parts : List Argument) : Argument.innermostIn? offset parts =
      (parts.map ofArgument).reverse.findSome? (innermostAt? · offset) := by
    rw [← List.map_reverse, List.findSome?_map]
    refine eq_findSome?_reverse (Argument.innermostIn? offset) rfl (fun argument rest => ?_) parts
    rw [Argument.innermostIn?]
    cases Argument.innermostIn? offset rest <;> cases argument <;> rfl
  have same {found? other? : Option Node} (equal : found? = other?) :
      (if node.span.touches offset then some (found?.getD node) else none) =
        if node.span.touches offset then some (other?.getD node) else none := by
    rw [equal]
  cases node with
  | command c => exact same (args c.args)
  | argument a =>
      cases a with
      | expr e => exact absurd rfl (proper e)
      | _ => exact same (exprs _)
  | expr e =>
      refine Eq.trans ?_ (same (exprs e.children))
      have mapped {touches : Bool} {parts : List Expr} :
          (if touches then some ((Expr.innermostIn? offset parts).getD e) else none).map expr =
            if touches then some (((Expr.innermostIn? offset parts).map expr).getD (expr e))
            else none := by
        cases touches <;> cases Expr.innermostIn? offset parts <;> rfl
      rw [← show _ = _ from mapped]
      cases e with
      | apply name form args extent => rfl
      | list items extent => rfl
      | cast value target extent => rfl
      | column c => rfl
      | literal l => rfl
      | interval i => rfl

/-- Among the nodes of a walk, the search finds the last one that touches the offset. -/
theorem Covering.innermostAt?_eq_getLast? (covering : node.Covering) (proper : node.Proper)
    (offset : Nat) :
    node.innermostAt? offset =
      (node.walk.filter fun below => below.span.touches offset).getLast? := by
  induction covering with
  | @intro node covers parts ih =>
      have below : ((node.children.flatMap walk).filter fun below =>
            below.span.touches offset).getLast? =
          node.children.reverse.findSome? (innermostAt? · offset) := by
        have each : (node.children.reverse.map fun part =>
              (part.walk.filter fun below => below.span.touches offset).getLast?) =
            node.children.reverse.map (innermostAt? · offset) := by
          refine List.map_congr_left fun part member => ?_
          have inside := List.mem_reverse.mp member
          exact (ih part inside (proper_of_mem_children inside)).symm
        have found := congrArg (List.findSome? id) each
        rw [List.findSome?_map, List.findSome?_map] at found
        rw [List.filter_flatMap, List.getLast?_flatMap]
        exact found
      rw [innermostAt?_eq proper, walk_eq proper, List.filter_cons]
      split
      · rw [List.getLast?_cons, below]
      · rename_i apart
        -- No part touches the offset where the node around it does not.
        rw [below, eq_comm, List.findSome?_eq_none_iff]
        intro part member
        have inside := List.mem_reverse.mp member
        rw [innermostAt?_eq (proper_of_mem_children inside), if_neg]
        intro touches
        refine apart ((Span.touches_iff _ _).mpr ?_)
        have within := (Span.covers_iff _ _).mp (covers part inside)
        have inner := (Span.touches_iff _ _).mp touches
        omega

/-- The search does not stop at a node before it has tried all of its parts. -/
theorem Covering.not_touches_of_innermostAt? (covering : node.Covering) (proper : node.Proper)
    {offset : Nat} {inner : Node} (found : node.innermostAt? offset = some inner) :
    ∀ part ∈ inner.children, part.span.touches offset = false := by
  induction covering with
  | @intro node covers parts ih =>
      rw [innermostAt?_eq proper] at found
      split at found
      · cases deeper : node.children.reverse.findSome? (innermostAt? · offset) with
        | some below =>
            rw [deeper] at found
            cases found
            obtain ⟨part, member, here⟩ := List.exists_of_findSome?_eq_some deeper
            have inside := List.mem_reverse.mp member
            exact ih part inside (proper_of_mem_children inside) here
        | none =>
            rw [deeper] at found
            cases found
            intro part member
            have nothing := List.findSome?_eq_none_iff.mp deeper part (List.mem_reverse.mpr member)
            rw [innermostAt?_eq (proper_of_mem_children member)] at nothing
            split at nothing
            · cases nothing
            · rename_i apart
              exact Bool.eq_false_iff.mpr apart
      · cases found

end Node

/-- In a command of a text, nothing is found at an offset if and only if the command does not touch
it. Otherwise the last node that touches it is found, in the order of a walk over the command, and
no part of that node touches it. -/
theorem innermostAt?_visited {text : String} {command : Command}
    (visited : command ∈ (parse text).pipeline.visited) (offset : Nat) :
    ((Node.command command).innermostAt? offset = none ↔ command.span.touches offset = false) ∧
      (command.span.touches offset = true →
        ∃ inner, (Node.command command).innermostAt? offset = some inner ∧
          ((Node.command command).walk.filter fun node =>
            node.span.touches offset).getLast? = some inner ∧
          ∀ part ∈ inner.children, part.span.touches offset = false) := by
  rw [Pipeline.visited_eq] at visited
  have covering := Node.covering_command (nested_visited text command visited)
  have proper : (Node.command command).Proper := fun _ => Node.noConfusion
  have search := Node.innermostAt?_eq proper offset
  change _ = if command.span.touches offset then _ else none at search
  cases touches : command.span.touches offset with
  | false =>
      rw [touches, if_neg Bool.false_ne_true] at search
      exact ⟨iff_of_true search rfl, Bool.noConfusion⟩
  | true =>
      rw [touches, if_pos rfl] at search
      refine ⟨iff_of_false ?_ Bool.noConfusion, fun _ => ⟨_, search, ?_, ?_⟩⟩
      · rw [search]
        exact Option.some_ne_none _
      · rw [← covering.innermostAt?_eq_getLast? proper, search]
      · exact covering.not_touches_of_innermostAt? proper search

/-- Where a column ends and a string begins, the string is found. -/
theorem innermostAt?_visited_meeting :
    ∃ command ∈ (parse "ROW a = \"b\" | DISSECT a\"b\"").pipeline.visited, ∃ inner,
      (Node.command command).innermostAt? 23 = some inner ∧ inner.text = "\"b\"" ∧
        inner.span = ⟨23, 26⟩ ∧ ∀ part ∈ inner.children, part.span.touches 23 = false := by
  have last : ((parse "ROW a = \"b\" | DISSECT a\"b\"").pipeline.visited.filter fun command =>
        command.span.touches 23).map (fun command =>
          ((Node.command command).walk.filter fun node => node.span.touches 23).getLast?.map
            fun node => (node.text, node.span)) =
      [some ("\"b\"", ⟨23, 26⟩)] := by decide +kernel
  obtain ⟨command, found, same⟩ := List.map_eq_singleton_iff.mp last
  obtain ⟨visited, touches⟩ := List.mem_filter.mp (found ▸ List.mem_singleton_self command)
  obtain ⟨inner, search, here, parts⟩ := (innermostAt?_visited visited 23).2 touches
  rw [here] at same
  obtain ⟨text, span⟩ := Prod.mk.inj (Option.some.inj same)
  exact ⟨command, visited, inner, search, text, span, parts⟩

end Esql
