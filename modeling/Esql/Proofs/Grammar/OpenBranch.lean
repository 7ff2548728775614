import Esql.Completion.Query
import Esql.Proofs.Grammar.Tree
import Mathlib.Data.List.Basic

/-!
# The command at the end of an open branch

What is being written at an offset is looked for from the right: the last command that starts
before it, and in that command the last branch that reaches it. Inside a query whose last fork is
still open this leads to the last command of the open branch as long as the branch reaches the
cursor. The branch ends with its last token, so a blank or a comment behind that token is outside
of it, and the fork itself is found there.
-/

namespace Esql

/-! ## Looking from the right -/

namespace Command

theorem lastAt?_append {offset : Nat} {last : Command} (starts : last.span.start ≤ offset)
    (front : List Command) :
    lastAt? offset (front ++ [last]) = some (last.descend offset) := by
  induction front with
  | nil =>
      rw [List.nil_append, lastAt?, lastAt?]
      exact if_pos starts
  | cons command rest ih => rw [List.cons_append, lastAt?, ih]

/-- A command none of whose branches is entered is found itself. -/
theorem descend_eq_self {offset : Nat} {command : Command}
    (closed : Argument.descendIn offset command.args = none) :
    command.descend offset = command := by
  cases command with
  | mk name qualifier? text span nameSpan args incomplete =>
      rw [descend, closed]
      rfl

/-- Once a branch is entered, what is found there counts. -/
theorem descend_eq_inner {offset : Nat} {command inner : Command}
    (entered : Argument.descendIn offset command.args = some (some inner)) :
    command.descend offset = inner := by
  cases command with
  | mk name qualifier? text span nameSpan args incomplete =>
      rw [descend, entered]
      rfl

end Command

namespace Argument

theorem descendIn_append {offset : Nat} {argument : Argument} {inner : Option Command}
    (entered : argument.descend offset = some inner) (front : List Argument) :
    descendIn offset (front ++ [argument]) = some inner := by
  induction front with
  | nil => exact entered
  | cons other rest ih => rw [List.cons_append, descendIn, ih]

theorem descendIn_eq_none {offset : Nat} {arguments : List Argument}
    (closed : ∀ argument ∈ arguments, argument.descend offset = none) :
    descendIn offset arguments = none := by
  induction arguments with
  | nil => rfl
  | cons argument rest ih =>
      rw [descendIn, ih fun other member => closed other (List.mem_cons_of_mem _ member)]
      exact closed argument List.mem_cons_self

/-- No argument is entered behind its end. -/
theorem descend_eq_none {offset : Nat} {argument : Argument} (ends : argument.span.stop < offset) :
    argument.descend offset = none := by
  cases argument with
  | branch branch =>
      have outside : branch.opensAt offset = false := by
        rw [Pipeline.opensAt, Bool.and_eq_false_iff]
        left
        rw [← Bool.not_eq_true, Span.touches_iff]
        exact fun inside => Nat.not_lt.mpr inside.2 ends
      rw [descend, outside]
      rfl
  | _ => rfl

/-- An open branch is entered at its end, where its last command is found. -/
theorem descend_branch {branch : Pipeline} {last : Command}
    (ordered : branch.span.start ≤ branch.span.stop) (opened : branch.incomplete = true)
    (ends : branch.commands.getLast? = some last) (starts : last.span.start ≤ branch.span.stop) :
    (Argument.branch branch).descend branch.span.stop =
      some (some (last.descend branch.span.stop)) := by
  obtain ⟨front, split⟩ := List.getLast?_eq_some_iff.mp ends
  have inside : branch.opensAt branch.span.stop = true := by
    rw [Pipeline.opensAt, Bool.and_eq_true, Span.touches_iff, opened]
    exact ⟨⟨ordered, Nat.le_refl _⟩, rfl⟩
  rw [descend, inside]
  cases branch with
  | mk commands span incomplete =>
      dsimp only at split ⊢
      rw [if_pos rfl, Pipeline.commandAt?, split, Command.lastAt?_append starts]

end Argument

/-! ## The open branch of a query -/

namespace Pipeline

variable {branch : Pipeline} {source : String}

theorem openBranch?_eq_some {query : Pipeline} (opened : query.openBranch? = some branch) :
    ∃ front fork before, query.commands = front ++ [fork] ∧
      fork.args = before ++ [.branch branch] ∧ branch.incomplete = true := by
  rw [openBranch?] at opened
  obtain ⟨fork, isFork, inFork⟩ := Option.bind_eq_some_iff.mp opened
  obtain ⟨argument, isLast, inLast⟩ := Option.bind_eq_some_iff.mp inFork
  obtain ⟨front, commands⟩ :=
    List.getLast?_eq_some_iff.mp (Option.filter_eq_some_iff.mp isFork).1
  obtain ⟨before, arguments⟩ := List.getLast?_eq_some_iff.mp isLast
  obtain ⟨isBranch, incomplete⟩ := Option.filter_eq_some_iff.mp inLast
  cases argument with
  | branch found =>
      cases isBranch
      exact ⟨front, fork, before, commands, arguments, incomplete⟩
  | _ => cases isBranch

/-- The last command of a pipeline starts within it. -/
theorem Nested.last_starts (nested : branch.Nested source) {last : Command}
    (ends : branch.commands.getLast? = some last) : last.span.start ≤ branch.span.stop := by
  obtain ⟨fits, row, commands⟩ := nested
  have bounds := row.bounds (List.mem_map_of_mem (List.mem_of_getLast? ends))
  omega

end Pipeline

namespace Command.Nested

variable {fork last : Command} {before : List Argument} {branch : Pipeline} {source : String}
  {offset : Nat}

theorem last_branch (nested : fork.Nested source)
    (arguments : fork.args = before ++ [.branch branch]) : branch.Nested source := by
  obtain ⟨fits, text, row, args⟩ := nested
  have inside : Argument.Nested source (.branch branch) := by
    apply args
    rw [arguments]
    exact List.mem_append_right before List.mem_cons_self
  cases inside with
  | plain noTree => cases noTree.2
  | branch inside => exact inside

/-- At the end of its last branch, if that is open, a fork is entered. -/
theorem descend_last (nested : fork.Nested source)
    (arguments : fork.args = before ++ [.branch branch]) (incomplete : branch.incomplete = true)
    (ends : branch.commands.getLast? = some last) :
    fork.descend branch.span.stop = last.descend branch.span.stop := by
  have inside := nested.last_branch arguments
  apply Command.descend_eq_inner
  rw [arguments]
  apply Argument.descendIn_append
  exact Argument.descend_branch inside.fits.ordered incomplete ends (inside.last_starts ends)

/-- Behind the last branch of a fork, no branch is entered. -/
theorem descend_behind (nested : fork.Nested source)
    (arguments : fork.args = before ++ [.branch branch]) (behind : branch.span.stop < offset) :
    fork.descend offset = fork := by
  obtain ⟨fits, text, row, args⟩ := nested
  apply Command.descend_eq_self
  apply Argument.descendIn_eq_none
  intro argument member
  have place := @List.mem_map_of_mem _ _ _ _ Argument.span member
  rw [arguments, List.map_append] at row place
  exact Argument.descend_eq_none (Nat.lt_of_le_of_lt (row.tight.bounds place).2.2 behind)

end Command.Nested

/-- Inside an open branch with commands, the last command of the branch is found at the end of the
text if the branch ends there, with what is open in that command in turn. Behind a blank or a
comment it is the fork that is found. -/
theorem commandAt?_openBranch {text : String} {branch : Pipeline} {last : Command}
    (opened : (parse text).pipeline.openBranch? = some branch)
    (ends : branch.commands.getLast? = some last) :
    (parse text).pipeline.commandAt? (Text.byteLength text) =
      if branch.span.stop = Text.byteLength text then some (last.descend (Text.byteLength text))
      else (parse text).pipeline.commands.getLast? := by
  obtain ⟨front, fork, before, commands, arguments, incomplete⟩ :=
    Pipeline.openBranch?_eq_some opened
  have isLast : (parse text).pipeline.commands.getLast? = some fork := by
    rw [commands, List.getLast?_concat]
  have tree := nested_parse text
  have starts : fork.span.start ≤ Text.byteLength text :=
    Nat.le_trans (tree.last_starts isLast) tree.fits.stop_le
  have nested := tree.command (List.mem_of_getLast? isLast)
  have stops := (nested.last_branch arguments).fits.stop_le
  have found : (parse text).pipeline.commandAt? (Text.byteLength text) =
      some (fork.descend (Text.byteLength text)) := by
    rw [← Command.lastAt?_append starts front, ← commands]
    rfl
  rw [found, isLast]
  split
  · rename_i atEnd
    rw [← atEnd, nested.descend_last arguments incomplete ends]
  · rename_i further
    rw [nested.descend_behind arguments (Nat.lt_of_le_of_ne stops further)]

/-- A cursor at the end of a number in the second branch. -/
theorem commandAt?_openBranch_limit :
    ∃ branch last,
      (parse "FROM a | FORK (WHERE x > 1) (LIMIT 1").pipeline.openBranch? = some branch ∧
        branch.commands.getLast? = some last ∧ last.name = "limit" ∧
        (parse "FROM a | FORK (WHERE x > 1) (LIMIT 1").pipeline.commandAt? 36 =
          some (last.descend 36) := by
  have shape : (parse "FROM a | FORK (WHERE x > 1) (LIMIT 1").pipeline.openBranch?.any
      (fun branch => branch.span.stop == 36 &&
        branch.commands.getLast?.any fun last => last.name == "limit") = true := by
    decide +kernel
  obtain ⟨branch, opened, inside⟩ := (Option.any_eq_true _ _).mp shape
  rw [Bool.and_eq_true, beq_iff_eq] at inside
  obtain ⟨last, ends, name⟩ := (Option.any_eq_true _ _).mp inside.2
  have found := commandAt?_openBranch opened ends
  have length : Text.byteLength "FROM a | FORK (WHERE x > 1) (LIMIT 1" = 36 := by decide
  rw [length, if_pos inside.1] at found
  exact ⟨branch, last, opened, ends, beq_iff_eq.mp name, found⟩

/-- A blank or a comment behind the last token hides the open branch. -/
theorem commandAt?_behind_openBranch :
    List.Forall
      (fun text =>
        ((parse text).pipeline.openBranch?.bind (·.commands.getLast?)).map (·.name) =
            some "limit" ∧
          ((parse text).pipeline.commandAt? (Text.byteLength text)).map (·.name) = some "fork")
      ["FROM a | FORK (LIMIT 1 ", "FROM a | FORK (LIMIT 1 // one"] := by
  rw [List.forall_iff_forall_mem]
  decide +kernel

end Esql
