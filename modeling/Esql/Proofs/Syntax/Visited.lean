import Esql.Meaning
import Esql.Syntax.Walk

/-!
# Visiting commands and their parts

The commands of a pipeline are visited one after the other, each followed by the commands of its
branches. A walk over a command or an expression comes to whatever is written in it.
-/

namespace Esql

namespace Expr

theorem mem_walk (expr : Expr) : expr ∈ expr.walk := by
  rw [walk_eq]
  exact List.mem_cons_self

theorem walkAll_subset_walk (expr : Expr) : walkAll expr.children ⊆ expr.walk := by
  rw [walk_eq expr]
  exact List.subset_cons_self _ _

theorem walk_subset_walkAll {expr : Expr} {exprs : List Expr} (member : expr ∈ exprs) :
    expr.walk ⊆ walkAll exprs := by
  intro node below
  rw [walkAll_eq_flatMap]
  exact List.mem_flatMap.mpr ⟨expr, member, below⟩

theorem walk_subset_of_child {expr part : Expr} (member : part ∈ expr.children) :
    part.walk ⊆ expr.walk :=
  List.Subset.trans (walk_subset_walkAll member) expr.walkAll_subset_walk

/-- The value of a field, without its name, is a part of the field. -/
theorem namedValue_walk_subset (field : Expr) : field.namedValue.2.walk ⊆ field.walk := by
  rw [namedValue]
  split
  · rename_i target value assigned
    rw [assignment?.eq_def] at assigned
    split at assigned
    · cases assigned
      exact walk_subset_of_child (.tail _ (.head _))
    · cases assigned
  · exact List.Subset.refl _

theorem namedValue_mem_walk (field : Expr) : field.namedValue.2 ∈ field.walk :=
  field.namedValue_walk_subset field.namedValue.2.mem_walk

/-- A field without its filter is a part of the field. -/
theorem unfiltered_walk_subset (field : Expr) : field.unfiltered.walk ⊆ field.walk := by
  rw [unfiltered.eq_def]
  split
  · exact walk_subset_of_child (.head _)
  · exact List.Subset.refl _

end Expr

/-- The nodes of an argument that is an expression are nodes of the command. -/
theorem Command.walk_of_exprs {command : Command} {expr node : Expr}
    (member : expr ∈ command.exprs) (below : node ∈ expr.walk) :
    Node.expr node ∈ command.walk := by
  obtain ⟨argument, inside, found⟩ := List.mem_filterMap.mp member
  cases argument <;> cases found
  refine List.mem_cons_of_mem _ (List.mem_flatMap.mpr ⟨_, inside, ?_⟩)
  exact List.mem_map_of_mem below

theorem Command.mem_walk_of_exprs {command : Command} {expr : Expr}
    (member : expr ∈ command.exprs) : Node.expr expr ∈ command.walk :=
  walk_of_exprs member expr.mem_walk

/-- The nodes of an operand of a clause are nodes of the command. -/
theorem Command.walk_of_operandsOf {command : Command} {name : String} {operand node : Expr}
    (member : operand ∈ command.operandsOf name) (below : node ∈ operand.walk) :
    Node.expr node ∈ command.walk := by
  obtain ⟨clause, inside, member⟩ := exists_clause_of_operandsOf member
  refine List.mem_cons_of_mem _ (List.mem_flatMap.mpr ⟨_, inside, List.mem_cons_of_mem _ ?_⟩)
  exact List.mem_map_of_mem (Expr.walk_subset_walkAll member below)

theorem Command.mem_walk_of_operandsOf {command : Command} {name : String} {operand : Expr}
    (member : operand ∈ command.operandsOf name) : Node.expr operand ∈ command.walk :=
  walk_of_operandsOf member operand.mem_walk

theorem Command.visitedIn_eq_flatMap (commands : List Command) :
    visitedIn commands = commands.flatMap visited := by
  induction commands with
  | nil => rfl
  | cons command rest ih => rw [visitedIn, ih, List.flatMap_cons]

theorem Argument.visitedIn_eq_flatMap (args : List Argument) :
    visitedIn args = args.flatMap visited := by
  induction args with
  | nil => rfl
  | cons argument rest ih => rw [visitedIn, ih, List.flatMap_cons]

theorem Command.visitedIn_append (first second : List Command) :
    visitedIn (first ++ second) = visitedIn first ++ visitedIn second := by
  simp only [visitedIn_eq_flatMap, List.flatMap_append]

theorem Argument.visitedIn_append (first second : List Argument) :
    visitedIn (first ++ second) = visitedIn first ++ visitedIn second := by
  simp only [visitedIn_eq_flatMap, List.flatMap_append]

theorem Command.visited_eq (command : Command) :
    command.visited = command :: Argument.visitedIn command.args := by
  cases command
  rfl

theorem Command.mem_visited (command : Command) : command ∈ command.visited := by
  rw [visited_eq]
  exact List.mem_cons_self

/-- The commands of a pipeline are visited as a list. -/
theorem Pipeline.visited_eq (query : Pipeline) :
    query.visited = Command.visitedIn query.commands := by
  cases query with
  | mk commands span incomplete => rfl

theorem Command.visited_subset {command : Command} {commands : List Command}
    (member : command ∈ commands) : command.visited ⊆ visitedIn commands := by
  intro below inside
  rw [visitedIn_eq_flatMap]
  exact List.mem_flatMap.mpr ⟨command, member, inside⟩

theorem Command.mem_visitedIn {command : Command} {commands : List Command}
    (member : command ∈ commands) : command ∈ visitedIn commands :=
  visited_subset member command.mem_visited

/-- What is visited in a branch is visited with its command. -/
theorem Command.branch_subset {command : Command} {branch : Pipeline}
    (member : Argument.branch branch ∈ command.args) :
    visitedIn branch.commands ⊆ command.visited := by
  intro below inside
  rw [visited_eq, Argument.visitedIn_eq_flatMap]
  refine List.mem_cons_of_mem _ (List.mem_flatMap.mpr ⟨_, member, ?_⟩)
  rwa [Argument.visited, Pipeline.visited_eq]

/-! ## The command at an offset -/

mutual

/-- The command found at an offset is one that is visited. -/
theorem Command.descend_mem_visited (offset : Nat) (command : Command) :
    command.descend offset ∈ command.visited := by
  cases command with
  | mk name qualifier? text span nameSpan args incomplete =>
      rw [Command.descend]
      cases entered : Argument.descendIn offset args with
      | none => exact Command.mem_visited _
      | some found? =>
          cases found? with
          | none => exact Command.mem_visited _
          | some found =>
              exact List.mem_cons_of_mem _ (Argument.mem_visitedIn_of_descendIn offset args entered)

theorem Argument.mem_visitedIn_of_descendIn (offset : Nat) (args : List Argument)
    {found : Command} (entered : Argument.descendIn offset args = some (some found)) :
    found ∈ Argument.visitedIn args := by
  cases args with
  | nil => cases entered
  | cons argument rest =>
      rw [Argument.visitedIn]
      rw [Argument.descendIn] at entered
      split at entered
      · rename_i later
        rw [entered] at later
        exact List.mem_append_right _ (Argument.mem_visitedIn_of_descendIn offset rest later)
      · exact List.mem_append_left _ (Argument.mem_visited_of_descend offset argument entered)

theorem Argument.mem_visited_of_descend (offset : Nat) (argument : Argument) {found : Command}
    (entered : argument.descend offset = some (some found)) : found ∈ argument.visited := by
  cases argument with
  | branch branch =>
      rw [Argument.descend] at entered
      split at entered
      · exact Pipeline.mem_visited_of_commandAt? offset branch (Option.some.inj entered)
      · cases entered
  | _ => cases entered

theorem Pipeline.mem_visited_of_commandAt? (offset : Nat) (query : Pipeline) {found : Command}
    (here : query.commandAt? offset = some found) : found ∈ query.visited := by
  cases query with
  | mk commands span incomplete => exact Command.mem_visitedIn_of_lastAt? offset commands here

theorem Command.mem_visitedIn_of_lastAt? (offset : Nat) (commands : List Command)
    {found : Command} (here : Command.lastAt? offset commands = some found) :
    found ∈ Command.visitedIn commands := by
  cases commands with
  | nil => cases here
  | cons command rest =>
      rw [Command.visitedIn]
      rw [Command.lastAt?] at here
      split at here
      · rename_i later
        rw [here] at later
        exact List.mem_append_right _ (Command.mem_visitedIn_of_lastAt? offset rest later)
      · split at here
        · cases here
          exact List.mem_append_left _ (Command.descend_mem_visited offset command)
        · cases here

end

end Esql
