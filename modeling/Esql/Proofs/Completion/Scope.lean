import Esql.Check.Pipeline
import Esql.Proofs.Grammar.OpenBranch
import Esql.Proofs.Grammar.Visited

/-!
# Completion and checks agree on the columns

A check carries the columns along from one command to the next, and into each branch of a fork.
Completion looks for a command in the query, then in the open branch, and carries the columns only
through the commands in front of it. Both come to a command with the same columns. Commands are told
apart by their spans: no two commands of a pipeline share one, and no command of a branch has the
span of a command around it, since a fork starts with its name.
-/

namespace Esql

namespace Command

/-- Commands with the columns that reach them, when some columns are carried along. -/
def reached (snapshot : Snapshot) (input : ColumnSet) : List Command → List (Command × ColumnSet)
  | [] => []
  | command :: rest => (command, input) :: reached snapshot (command.after snapshot input) rest

/-- What is wrong with a command that some columns reach. -/
def checkReached (snapshot : Snapshot) (license? : Option License) (command : Command)
    (input : ColumnSet) : List Diagnostic :=
  match Verb.ofName? command.name with
  | some verb =>
      if command.incomplete then []
      else command.checkLicense verb license? ++ command.check snapshot license? input
  | none => []

/-- A check of several commands goes from one to the next with these columns. -/
structure Walks (snapshot : Snapshot) (license? : Option License) (input : ColumnSet)
    (commands : List Command) (steps : List (Command × ColumnSet)) : Prop where
  all : steps.map Prod.fst = commands
  checked : checkAll snapshot license? input commands =
    steps.flatMap fun step => step.1.checkReached snapshot license? step.2

variable (snapshot : Snapshot) (license? : Option License) (input : ColumnSet)

theorem walks_reached (commands : List Command) :
    Walks snapshot license? input commands (reached snapshot input commands) := by
  induction commands generalizing input with
  | nil => exact ⟨rfl, rfl⟩
  | cons command rest ih =>
      obtain ⟨all, checked⟩ := ih (command.after snapshot input)
      refine ⟨congrArg (List.cons command) all, ?_⟩
      rw [checkAll, checked, reached, List.flatMap_cons]
      rfl

/-- A command is reached by what the commands in front of it make of the columns. -/
theorem exists_of_mem_reached {commands : List Command} {command : Command} {columns : ColumnSet}
    (member : (command, columns) ∈ reached snapshot input commands) :
    ∃ front back, commands = front ++ command :: back ∧
      columns = outputOfAll snapshot input front := by
  induction commands generalizing input with
  | nil => cases member
  | cons first rest ih =>
      rcases List.mem_cons.mp member with here | behind
      · cases here
        exact ⟨[], rest, rfl, by rw [outputOfAll]⟩
      · obtain ⟨front, back, rfl, same⟩ := ih (first.after snapshot input) behind
        exact ⟨first :: front, back, rfl, same.trans (by rw [outputOfAll]; rfl)⟩

theorem getLast?_reached (front : List Command) (last : Command) :
    (reached snapshot input (front ++ [last])).getLast? =
      some (last, outputOfAll snapshot input front) := by
  induction front generalizing input with
  | nil => rw [outputOfAll]; rfl
  | cons first rest ih =>
      have behind := ih (first.after snapshot input)
      rw [List.cons_append, reached, List.getLast?_cons, behind, outputOfAll]
      rfl

/-- The branches of a fork are all checked against the columns that reach the fork. -/
theorem check_fork {command : Command} (fork : Verb.ofName? command.name = some .fork) :
    command.check snapshot license? input = command.checkBranchCount ++
      command.branches.flatMap fun branch => checkAll snapshot license? input branch.commands := by
  have branches (args : List Argument) : Argument.checkBranches snapshot license? input args =
      (args.filterMap Argument.branch?).flatMap fun branch =>
        checkAll snapshot license? input branch.commands := by
    induction args with
    | nil => rw [Argument.checkBranches]; rfl
    | cons argument rest ih =>
        cases argument with
        | branch b =>
            cases b
            rw [Argument.checkBranches, ih]
            rfl
        | _ =>
            rw [Argument.checkBranches, ih]
            · rfl
            · exact fun _ _ _ => Argument.noConfusion
  cases command with
  | mk name =>
      rw [check, show Verb.ofName? name = some .fork from fork]
      exact congrArg _ (branches _)

end Command

namespace Pipeline

theorem precedingAt_append {front back : List Command} {command : Command}
    (apart : ∀ other ∈ front, other.span ≠ command.span) :
    precedingAt command.span (front ++ command :: back) = front := by
  rw [precedingAt, List.takeWhile_append_of_pos, List.takeWhile_cons_of_neg, List.append_nil]
  · simp
  · intro other member
    exact bne_iff_ne.mpr (apart other member)

/-- Only a fork has an open branch. -/
theorem verb_of_openBranch? {query branch : Pipeline} {front : List Command} {fork : Command}
    (opened : query.openBranch? = some branch) (commands : query.commands = front ++ [fork]) :
    Verb.ofName? fork.name = some .fork := by
  rw [openBranch?, commands, List.getLast?_concat] at opened
  obtain ⟨found, isFork, _⟩ := Option.bind_eq_some_iff.mp opened
  obtain ⟨same, named⟩ := Option.filter_eq_some_iff.mp isFork
  rw [Option.some.inj same, beq_iff_eq.mp named]
  rfl

namespace Nested

variable {source : String} {query : Pipeline}

/-- No command of a pipeline has the span of one in front of it. -/
theorem apart (nested : query.Nested source) {front back : List Command} {command : Command}
    (commands : query.commands = front ++ command :: back) :
    ∀ other ∈ front, other.span.stop < command.span.start := by
  obtain ⟨fits, row, _⟩ := nested
  rw [commands, List.map_append, List.map_cons] at row
  intro other member
  exact (List.pairwise_append.mp row.pairwise).2.2 _ (List.mem_map_of_mem member) _
    List.mem_cons_self

theorem precedingAt_eq (nested : query.Nested source) {front back : List Command}
    {command : Command} (commands : query.commands = front ++ command :: back) :
    precedingAt command.span query.commands = front := by
  rw [commands]
  refine precedingAt_append fun other member same => ?_
  have before := nested.apart commands other member
  have inside : command ∈ query.commands := commands ▸ List.mem_append_cons_self
  have ordered := (nested.command inside).fits.ordered
  rw [same] at before
  omega

end Nested

/-- A command in the last branch of the last command stands behind all commands around it. -/
theorem Nested.not_any_of_branch {source : String} {query branch : Pipeline}
    (nested : query.Nested source) {front : List Command} {fork command : Command}
    {before : List Argument} (commands : query.commands = front ++ [fork])
    (named : fork.Named source) (arguments : fork.args = before ++ [.branch branch])
    (member : command ∈ branch.commands) :
    (query.commands.any fun other => other.span == command.span) = false := by
  have isFork : fork ∈ query.commands := commands ▸ List.mem_append_cons_self
  have whole := nested.command isFork
  have inner := whole.last_branch arguments
  -- The branch starts behind the name of the fork, and the command within the branch.
  have behind : fork.span.start < command.span.start := by
    have place : (Argument.branch branch).span ∈ fork.args.map Argument.span := by
      rw [arguments]
      exact List.mem_map_of_mem List.mem_append_cons_self
    have starts : fork.nameSpan.stop ≤ branch.span.start := (named.row.bounds place).1
    have within : branch.span.start ≤ command.span.start := by
      obtain ⟨_, row, _⟩ := inner
      exact (row.bounds (List.mem_map_of_mem member)).1
    have wide := named.nonempty
    have first := named.starts
    omega
  rw [List.any_eq_false]
  intro other inside same
  have spans := beq_iff_eq.mp same
  rw [commands] at inside
  rcases List.mem_append.mp inside with earlier | last
  · have left := nested.apart commands other earlier
    have ordered := (inner.command member).fits.ordered
    rw [spans] at left
    omega
  · rw [List.mem_singleton.mp last] at spans
    rw [spans] at behind
    exact Nat.lt_irrefl _ behind

/-- The columns with which a query and its open branch are checked, and those with which they are
completed. -/
structure ScopesAgree (query : Pipeline) (snapshot : Snapshot) (license? : Option License) :
    Prop where
  walked : Command.Walks snapshot license? .empty query.commands
    (Command.reached snapshot .empty query.commands)
  top : ∀ step ∈ Command.reached snapshot .empty query.commands,
    query.columnsBefore step.1 snapshot = step.2
  /-- The open branch is checked against the columns that reach the fork at the end. -/
  branch : ∀ branch, query.openBranch? = some branch → ∃ fork input,
    (Command.reached snapshot .empty query.commands).getLast? = some (fork, input) ∧
    branch ∈ fork.branches ∧
    fork.check snapshot license? input = (fork.checkBranchCount ++
      fork.branches.flatMap fun branch =>
        Command.checkAll snapshot license? input branch.commands) ∧
    Command.Walks snapshot license? input branch.commands
      (Command.reached snapshot input branch.commands) ∧
    ∀ step ∈ Command.reached snapshot input branch.commands,
      query.columnsBefore step.1 snapshot = step.2

end Pipeline

/-- Wherever a command stands in a query or in the branch that is open at the end of the query,
completion takes the columns in front of it to be those with which a check comes to it. -/
theorem scopesAgree_parse (text : String) (snapshot : Snapshot) (license? : Option License) :
    (parse text).pipeline.ScopesAgree snapshot license? := by
  have nested := nested_parse text
  have named := named_visited text
  generalize (parse text).pipeline = query at nested named
  refine ⟨Command.walks_reached snapshot license? .empty _, ?_, ?_⟩
  · rintro ⟨command, columns⟩ member
    obtain ⟨front, back, commands, rfl⟩ := Command.exists_of_mem_reached snapshot .empty member
    have found : (query.commands.any fun other => other.span == command.span) = true := by
      rw [List.any_eq_true]
      exact ⟨command, commands ▸ List.mem_append_cons_self, BEq.rfl⟩
    rw [Pipeline.columnsBefore, if_pos found, nested.precedingAt_eq commands]
  · intro branch opened
    obtain ⟨front, fork, before, commands, arguments, incomplete⟩ :=
      Pipeline.openBranch?_eq_some opened
    have isFork : fork ∈ query.commands := commands ▸ List.mem_append_cons_self
    have inside : branch ∈ fork.branches := by
      rw [Command.branches, arguments]
      exact List.mem_filterMap.mpr ⟨_, List.mem_append_cons_self, rfl⟩
    refine ⟨fork, Command.outputOfAll snapshot .empty front, ?_, inside, ?_,
      Command.walks_reached snapshot license? _ _, ?_⟩
    · rw [commands]
      exact Command.getLast?_reached snapshot .empty front fork
    · exact Command.check_fork snapshot license? _ (Pipeline.verb_of_openBranch? opened commands)
    · rintro ⟨command, columns⟩ member
      obtain ⟨ahead, behind, split, rfl⟩ := Command.exists_of_mem_reached snapshot _ member
      have inBranch : command ∈ branch.commands := split ▸ List.mem_append_cons_self
      have starts := named fork (Command.mem_visitedIn isFork)
      have outside := nested.not_any_of_branch commands starts arguments inBranch
      have inner := (nested.command isFork).last_branch arguments
      rw [Pipeline.columnsBefore, outside, opened]
      dsimp only
      rw [inner.precedingAt_eq split, commands, List.dropLast_concat]
      rfl

end Esql
