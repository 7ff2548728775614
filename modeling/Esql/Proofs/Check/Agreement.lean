import Esql.Check.Pipeline

/-!
# What commands consult

A command looks up little of a snapshot: the columns of the first command, the indices, and for a
join or an enrichment the list behind its verb and the columns under the name of its own source.
Commands that find the same there have the same output, and the same is wrong with them.
-/

namespace Esql

theorem Verb.name_ofName? {written : String} {verb : Verb} (named : ofName? written = some verb) :
    verb.name = written := by
  unfold ofName? at named
  have found := List.find?_some named
  exact beq_iff_eq.mp found

/-- A command finds the same in two snapshots. -/
structure Snapshot.Agree (s t : Snapshot) (command : Command) : Prop where
  columns : s.columns? = t.columns?
  indices : s.indices? = t.indices?
  joinIndices : command.name = "join" → s.joinIndices? = t.joinIndices?
  joinColumns : command.name = "join" → ∀ source ∈ command.leadingSource?,
    s.joinColumns.lookup source.index = t.joinColumns.lookup source.index
  policies : command.name = "enrich" → s.policies? = t.policies?
  policyColumns : command.name = "enrich" → ∀ source ∈ command.leadingSource?,
    s.policyColumns.lookup source.index = t.policyColumns.lookup source.index

/-- All commands of a list and of its branches find the same in two snapshots. -/
abbrev Snapshot.AgreeOn (s t : Snapshot) (commands : List Command) : Prop :=
  ∀ command ∈ commands, s.Agree t command

namespace Snapshot.Agree

variable {s t : Snapshot} {command : Command} (agree : s.Agree t command)

include agree

theorem policy (enrich : command.name = "enrich") (name : String) :
    s.policy? name = t.policy? name := by
  rw [policy?, policy?, agree.policies enrich]

theorem joined (join : command.name = "join") : command.joined s = command.joined t := by
  unfold Command.joined
  cases leading : command.leadingSource? with
  | none => rfl
  | some source =>
      rw [Option.bind_some, Option.bind_some, agree.joinColumns join source leading]

theorem joinOutput (join : command.name = "join") (input : ColumnSet) :
    command.joinOutput s input = command.joinOutput t input := by
  unfold Command.joinOutput
  rw [agree.joined join]

theorem enrichment (enrich : command.name = "enrich") {source : Source}
    (leading : command.leadingSource? = some source) :
    command.enrichment? s source.index = command.enrichment? t source.index := by
  unfold Command.enrichment?
  rw [agree.policyColumns enrich source leading, agree.policy enrich]

theorem enrichOutput (enrich : command.name = "enrich") (input : ColumnSet) :
    command.enrichOutput s input = command.enrichOutput t input := by
  unfold Command.enrichOutput
  cases leading : command.leadingSource? with
  | none => rfl
  | some source =>
      dsimp only
      rw [agree.enrichment enrich leading]

theorem plainOutput {verb : Verb} (named : Verb.ofName? command.name = some verb)
    (input : ColumnSet) : command.plainOutput s input verb = command.plainOutput t input verb := by
  have name := Verb.name_ofName? named
  unfold Command.plainOutput
  cases verb with
  | «from» => rw [Command.sourceOutput, Command.sourceOutput, agree.columns]
  | ts => rw [Command.sourceOutput, Command.sourceOutput, agree.columns]
  | enrich => exact agree.enrichOutput name.symm input
  | join => exact agree.joinOutput name.symm input
  | _ => rfl

theorem checkSources : command.checkSources s = command.checkSources t := by
  have same : s.checkSource = t.checkSource := by
    funext source
    rw [checkSource, checkSource, agree.indices]
  rw [Command.checkSources, Command.checkSources, same]

theorem checkEnrich (enrich : command.name = "enrich") (scope : Scope) :
    command.checkEnrich scope s = command.checkEnrich scope t := by
  unfold Command.checkEnrich
  cases command.leadingSource? with
  | none => rfl
  | some source =>
      dsimp only
      rw [agree.policy enrich, agree.policies enrich]

theorem checkJoin (join : command.name = "join") (scope : Scope) :
    command.checkJoin scope s = command.checkJoin scope t := by
  unfold Command.checkJoin
  rw [agree.joined join, agree.joinIndices join]

theorem checkPlain {verb : Verb} (named : Verb.ofName? command.name = some verb) (scope : Scope) :
    command.checkPlain scope s verb = command.checkPlain scope t verb := by
  have name := Verb.name_ofName? named
  unfold Command.checkPlain
  cases verb with
  | «from» => exact agree.checkSources
  | ts => exact agree.checkSources
  | enrich => exact agree.checkEnrich name.symm scope
  | join => exact agree.checkJoin name.symm scope
  | _ => rfl

end Snapshot.Agree

namespace Snapshot.AgreeOn

variable {s t : Snapshot}

theorem command {command : Command} (agree : s.AgreeOn t command.visited) : s.Agree t command := by
  cases command with
  | mk name qualifier? text span nameSpan args incomplete =>
      exact agree _ (by
        rw [Command.visited]
        exact List.mem_cons_self)

theorem arguments {command : Command} (agree : s.AgreeOn t command.visited) :
    s.AgreeOn t (Argument.visitedIn command.args) := by
  cases command with
  | mk name qualifier? text span nameSpan args incomplete =>
      rw [Command.visited] at agree
      exact fun visited member => agree visited (List.mem_cons_of_mem _ member)

theorem append {xs ys : List Command} (agree : s.AgreeOn t (xs ++ ys)) :
    s.AgreeOn t xs ∧ s.AgreeOn t ys :=
  List.forall_mem_append.mp agree

end Snapshot.AgreeOn

section Output

variable {s t : Snapshot}

mutual

/-- The output of a command is the same with two snapshots that agree. -/
theorem Command.output_congr (command : Command) (agree : s.AgreeOn t command.visited)
    (input : ColumnSet) : command.output s input = command.output t input := by
  cases command with
  | mk name qualifier? text span nameSpan args incomplete =>
      have branches := Argument.outputs_congr args agree.arguments input
      have own := agree.command
      unfold Command.output
      split
      · rfl
      · rw [branches]
      · rename_i named
        exact own.plainOutput named input

theorem Argument.outputs_congr (arguments : List Argument)
    (agree : s.AgreeOn t (Argument.visitedIn arguments)) (input : ColumnSet) :
    Argument.outputs s input arguments = Argument.outputs t input arguments := by
  cases arguments with
  | nil => rfl
  | cons argument rest =>
      rw [Argument.visitedIn] at agree
      obtain ⟨first, others⟩ := Snapshot.AgreeOn.append agree
      have same := Argument.outputs_congr rest others input
      cases argument with
      | branch branch =>
          cases branch with
          | mk commands span incomplete =>
              rw [Argument.visited, Pipeline.visited] at first
              rw [Argument.outputs, Argument.outputs, same,
                Command.outputOfAll_congr commands first input]
      | _ => exact same

theorem Command.outputOfAll_congr (commands : List Command)
    (agree : s.AgreeOn t (Command.visitedIn commands)) (input : ColumnSet) :
    Command.outputOfAll s input commands = Command.outputOfAll t input commands := by
  cases commands with
  | nil => rfl
  | cons command rest =>
      rw [Command.visitedIn] at agree
      obtain ⟨first, others⟩ := Snapshot.AgreeOn.append agree
      rw [Command.outputOfAll, Command.outputOfAll, Command.output_congr command first input,
        Command.outputOfAll_congr rest others]

end

theorem Command.after_congr {command : Command} (agree : s.AgreeOn t command.visited)
    (input : ColumnSet) : command.after s input = command.after t input := by
  rw [Command.after, Command.after, command.output_congr agree]

end Output

section Check

variable {s t : Snapshot} (license? : Option License)

mutual

/-- The same is wrong with a command under two snapshots that agree. -/
theorem Command.check_congr (command : Command) (agree : s.AgreeOn t command.visited)
    (input : ColumnSet) : command.check s license? input = command.check t license? input := by
  cases command with
  | mk name qualifier? text span nameSpan args incomplete =>
      have branches := Argument.checkBranches_congr args agree.arguments input
      have own := agree.command
      unfold Command.check
      dsimp only
      split
      · rfl
      · rw [branches]
      · rename_i named
        exact own.checkPlain named _

theorem Argument.checkBranches_congr (arguments : List Argument)
    (agree : s.AgreeOn t (Argument.visitedIn arguments)) (input : ColumnSet) :
    Argument.checkBranches s license? input arguments =
      Argument.checkBranches t license? input arguments := by
  cases arguments with
  | nil => rfl
  | cons argument rest =>
      rw [Argument.visitedIn] at agree
      obtain ⟨first, others⟩ := Snapshot.AgreeOn.append agree
      have same := Argument.checkBranches_congr rest others input
      cases argument with
      | branch branch =>
          cases branch with
          | mk commands span incomplete =>
              rw [Argument.visited, Pipeline.visited] at first
              rw [Argument.checkBranches, Argument.checkBranches, same,
                Command.checkAll_congr commands first input]
      | _ => exact same

theorem Command.checkAll_congr (commands : List Command)
    (agree : s.AgreeOn t (Command.visitedIn commands)) (input : ColumnSet) :
    Command.checkAll s license? input commands = Command.checkAll t license? input commands := by
  cases commands with
  | nil => rfl
  | cons command rest =>
      rw [Command.visitedIn] at agree
      obtain ⟨first, others⟩ := Snapshot.AgreeOn.append agree
      rw [Command.checkAll, Command.checkAll, Command.check_congr command first input,
        Command.after_congr first, Command.checkAll_congr rest others]

end

end Check

end Esql
