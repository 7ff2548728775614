import Esql.Flow
import Esql.Proofs.Check.Agreement
import Esql.Proofs.Check.Quiet
import Esql.Proofs.Columns.Within

/-!
# Columns without the list of the source

A query can be followed without the columns of its source. What is then listed are the columns that
the query itself brings in, and each of them should be there when the columns of the source are
known. That is so as long as every selection that meets an unknown set matches all columns listed
in it: an unknown set is left as it is by a selection, the columns that are deselected included.
-/

namespace Esql

/-! ## Commands and the columns that reach them

A condition on commands and on the columns that reach them, asked of all commands of a pipeline and
of its branches. A command that was not read to its end does nothing, and nothing is asked of it.
-/

section

variable (holds : ColumnSet → Command → Bool) (snapshot : Snapshot)

mutual

/-- The condition holds of a command that these columns reach, and of the commands in its
branches. -/
def Command.meets (input : ColumnSet) : Command → Bool
  | ⟨name, qualifier?, text, span, nameSpan, args, incomplete⟩ =>
      holds input ⟨name, qualifier?, text, span, nameSpan, args, incomplete⟩
        && Argument.allMeet input args

/-- The condition holds of all commands in the branches among some arguments. -/
def Argument.allMeet (input : ColumnSet) : List Argument → Bool
  | [] => true
  | .branch ⟨commands, _, _⟩ :: rest =>
      Command.allMeet input commands && Argument.allMeet input rest
  | _ :: rest => Argument.allMeet input rest

/-- The condition holds of several commands, each with the columns behind those before it. -/
def Command.allMeet (input : ColumnSet) : List Command → Bool
  | [] => true
  | command :: rest =>
      (command.incomplete || Command.meets input command)
        && Command.allMeet (command.after snapshot input) rest

end

end

/-! ## Without the list of the source -/

/-- The snapshot without the columns of the first command. -/
def Snapshot.withheld (snapshot : Snapshot) : Snapshot := { snapshot with columns? := none }

namespace ColumnSet.Within

variable {part whole : ColumnSet}

/-- Renamings one after the other, when none of them is of a missing column. -/
theorem renamings {scope : Scope} {pairs : List (Column × Column)}
    (related : part.Within scope.columns) (faultless : Faultless (scope.checkRenamings pairs)) :
    (pairs.foldl ColumnSet.renamed part).Within (pairs.foldl ColumnSet.renamed scope.columns) := by
  induction pairs generalizing part scope with
  | nil => exact related
  | cons columns rest ih =>
      obtain ⟨plain, present⟩ := Scope.renaming_of_faultless faultless
      rw [Scope.checkRenamings_cons plain present] at faultless
      exact ih (related.renamed present) faultless

end ColumnSet.Within

namespace Command

/-- A selection that meets an unknown set matches every column listed in it. -/
def keepsListed (input : ColumnSet) (command : Command) : Bool :=
  command.name != "keep" || input.known ||
    input.names.all fun name => (command.patterns.map (·.name)).any (Text.globMatch · name)

theorem map_name_aggregates (command : Command) (first second : ColumnSet) :
    (command.fields.map (aggregate first) ++ command.groups.map (group first)).map (·.name) =
      (command.fields.map (aggregate second) ++
        command.groups.map (group second)).map (·.name) := by
  simp only [List.map_append, List.map_map]
  rfl

theorem names_aggregates (command : Command) (first second : ColumnSet) :
    (command.aggregates first).names = (command.aggregates second).names :=
  ColumnSet.names_insertAll_congr rfl (command.map_name_aggregates first second)

theorem known_aggregates (command : Command) (input : ColumnSet) :
    (command.aggregates input).known = true :=
  ColumnSet.known_insertAll _ _

variable {part whole : ColumnSet}

/-- A join adds columns to its input, and may leave more of them unknown. -/
theorem joinOutput_adds (command : Command) (snapshot : Snapshot) :
    ColumnSet.Adds (command.joinOutput snapshot) := by
  by_cases missing : command.leadingSource?.isNone = true
  · exact .known [] fun input => by rw [joinOutput, if_pos missing]; rfl
  · by_cases known : (command.joined snapshot).known = true
    · exact .known _ fun input => by rw [joinOutput, if_neg missing]; exact if_pos known
    · exact .unknown _ fun input => by rw [joinOutput, if_neg missing]; exact if_neg known

/-- So does an enrichment. -/
theorem enrichOutput_adds (command : Command) (snapshot : Snapshot) :
    ColumnSet.Adds (command.enrichOutput snapshot) := by
  cases leading : command.leadingSource? with
  | none => exact .known [] fun input => by rw [enrichOutput, leading]; rfl
  | some source =>
      cases added : command.enrichment? snapshot source.index with
      | none =>
          refine .unknown [] fun input => ?_
          rw [enrichOutput, leading]
          dsimp only
          rw [added]
          rfl
      | some fields =>
          refine .known fields fun input => ?_
          rw [enrichOutput, leading]
          dsimp only
          rw [added]

/-- Without the columns of the source, a command that is no fork lists no more than with them. -/
theorem plainOutput_within {command : Command} {verb : Verb} {snapshot : Snapshot} {scope : Scope}
    (named : Verb.ofName? command.name = some verb) (related : part.Within scope.columns)
    (faultless : Faultless (command.checkPlain scope snapshot verb))
    (kept : command.keepsListed part = true) :
    (command.plainOutput snapshot.withheld part verb).Within
      (command.plainOutput snapshot scope.columns verb) := by
  cases verb with
  | «from» => exact (ColumnSet.Within.unknown _).insertAll rfl
  | ts => exact (ColumnSet.Within.unknown _).insertAll rfl
  | row => exact (ColumnSet.Within.refl ColumnSet.nodup_empty).withFields _
  | «show» => exact .ofFields rfl
  | eval => exact related.withFields _
  | stats => exact .ofFields (command.map_name_aggregates _ _)
  | inlinestats =>
      exact related.extend (command.names_aggregates _ _)
        ((command.known_aggregates _).trans (command.known_aggregates _).symm)
  | keep =>
      have name := Verb.name_ofName? named
      rw [keepsListed, ← name] at kept
      exact related.keep (by simpa [Verb.name] using kept)
  | drop => exact related.drop _
  | rename => exact related.renamings faultless
  | dissect => exact related.insertAll rfl
  | grok => exact related.insertAll rfl
  | enrich =>
      change (command.enrichOutput snapshot part).Within
        (command.enrichOutput snapshot scope.columns)
      exact related.adds (command.enrichOutput_adds snapshot)
  | join =>
      change (command.joinOutput snapshot part).Within (command.joinOutput snapshot scope.columns)
      exact related.adds (command.joinOutput_adds snapshot)
  | changePoint => exact related.insertAll rfl
  | «where» => exact related
  | mvExpand => exact related
  | sort => exact related
  | limit => exact related
  | sample => exact related
  | fork => exact related

end Command

/-- What is wrong with a complete command is wrong with a pipeline that it begins. -/
theorem Command.check_subset_checkAll {snapshot : Snapshot} {license? : Option License}
    {input : ColumnSet} {command : Command} (rest : List Command)
    (complete : command.incomplete = false) :
    command.check snapshot license? input ⊆
      Command.checkAll snapshot license? input (command :: rest) := by
  rw [Command.checkAll, complete]
  refine List.Subset.trans ?_ (List.subset_append_left _ _)
  cases named : Verb.ofName? command.name with
  | none =>
      obtain ⟨name, qualifier?, text, span, nameSpan, args, incomplete⟩ := command
      dsimp only at named
      rw [Command.check, named]
      exact List.Subset.refl _
  | some verb => exact List.subset_append_right _ _

section

variable {snapshot : Snapshot} {license? : Option License}

mutual

/-- Without the columns of the source, a command without errors lists no more than with them. -/
theorem Command.output_within (command : Command) {part whole : ColumnSet}
    (related : part.Within whole)
    (faultless : Faultless (command.check snapshot license? whole))
    (kept : command.meets Command.keepsListed snapshot.withheld part = true) :
    (command.output snapshot.withheld part).Within (command.output snapshot whole) := by
  cases command with
  | mk name qualifier? text span nameSpan args incomplete =>
      rw [Command.meets, Bool.and_eq_true] at kept
      let command : Command := ⟨name, qualifier?, text, span, nameSpan, args, incomplete⟩
      cases named : Verb.ofName? command.name with
      | none =>
          rw [Command.output, Command.output, named]
          exact .refl ColumnSet.nodup_unknown
      | some verb =>
          by_cases fork : verb = .fork
          · subst fork
            rw [Command.check, named] at faultless
            rw [Command.output, Command.output, named]
            exact related.forked (Argument.outputs_within args related
              (Faultless.append_iff.mp faultless).2 kept.2)
          · rw [command.check_eq_plain named fork] at faultless
            rw [command.output_eq_plain named fork, command.output_eq_plain named fork]
            exact Command.plainOutput_within named related faultless kept.1

theorem Argument.outputs_within (arguments : List Argument) {part whole : ColumnSet}
    (related : part.Within whole)
    (faultless : Faultless (Argument.checkBranches snapshot license? whole arguments))
    (kept : Argument.allMeet Command.keepsListed snapshot.withheld part arguments = true) :
    List.Forall₂ ColumnSet.Within (Argument.outputs snapshot.withheld part arguments)
      (Argument.outputs snapshot whole arguments) := by
  cases arguments with
  | nil => exact .nil
  | cons argument rest =>
      cases argument with
      | branch branch =>
          cases branch with
          | mk commands span incomplete =>
              rw [Argument.allMeet, Bool.and_eq_true] at kept
              rw [Argument.checkBranches, Faultless.append_iff] at faultless
              exact .cons (Command.outputOfAll_within commands related faultless.1 kept.1)
                (Argument.outputs_within rest related faultless.2 kept.2)
      | _ => exact Argument.outputs_within rest related faultless kept

theorem Command.outputOfAll_within (commands : List Command) {part whole : ColumnSet}
    (related : part.Within whole)
    (faultless : Faultless (Command.checkAll snapshot license? whole commands))
    (kept : Command.allMeet Command.keepsListed snapshot.withheld part commands = true) :
    (Command.outputOfAll snapshot.withheld part commands).Within
      (Command.outputOfAll snapshot whole commands) := by
  cases commands with
  | nil => exact related
  | cons command rest =>
      rw [Command.allMeet, Bool.and_eq_true, Bool.or_eq_true] at kept
      have step : (command.after snapshot.withheld part).Within (command.after snapshot whole) := by
        rw [Command.after, Command.after]
        split
        · exact .refl ColumnSet.nodup_unknown
        · rename_i complete
          exact Command.output_within command related
            (faultless.mono (Command.check_subset_checkAll rest (Bool.eq_false_iff.mpr complete)))
            (kept.1.resolve_left complete)
      rw [Command.checkAll, Faultless.append_iff] at faultless
      exact Command.outputOfAll_within rest step faultless.2 kept.2

end

end

/-- A column that is there without the columns of the source is there with them, behind a query
without errors whose selections match every column listed in an unknown set. -/
theorem Pipeline.has?_of_withheld {query : Pipeline} {snapshot : Snapshot}
    {license? : Option License} {name : String}
    (faultless : Faultless (query.check snapshot license?))
    (kept : Command.allMeet Command.keepsListed snapshot.withheld .empty query.commands = true)
    (listed : (Command.outputOfAll snapshot.withheld .empty query.commands).has? name = some true) :
    (Command.outputOfAll snapshot .empty query.commands).has? name = some true := by
  rw [Pipeline.check, Faultless.append_iff, Faultless.append_iff] at faultless
  have related := Command.outputOfAll_within query.commands
    (.refl ColumnSet.nodup_empty) faultless.1.1 kept
  rw [ColumnSet.has?_eq_true_iff] at listed ⊢
  exact related.listed listed

/-- A selection of all columns, with one in an unknown set. -/
theorem Pipeline.has?_of_withheld_keep_all :
    Faultless ((parse "FROM a | EVAL y = 1 | KEEP *").pipeline.check
        { columns? := some [⟨"x", "long"⟩] } none) ∧
      Command.allMeet Command.keepsListed (Snapshot.withheld { columns? := some [⟨"x", "long"⟩] })
        .empty (parse "FROM a | EVAL y = 1 | KEEP *").pipeline.commands = true ∧
      (Command.outputOfAll (Snapshot.withheld { columns? := some [⟨"x", "long"⟩] }) .empty
        (parse "FROM a | EVAL y = 1 | KEEP *").pipeline.commands).has? "y" = some true ∧
      (Command.outputOfAll { columns? := some [⟨"x", "long"⟩] } .empty
        (parse "FROM a | EVAL y = 1 | KEEP *").pipeline.commands).has? "y" = some true := by
  have faultless : Faultless ((parse "FROM a | EVAL y = 1 | KEEP *").pipeline.check
      { columns? := some [⟨"x", "long"⟩] } none) := by decide +kernel
  have kept : Command.allMeet Command.keepsListed
      (Snapshot.withheld { columns? := some [⟨"x", "long"⟩] }) .empty
      (parse "FROM a | EVAL y = 1 | KEEP *").pipeline.commands = true := by decide +kernel
  have listed : (Command.outputOfAll (Snapshot.withheld { columns? := some [⟨"x", "long"⟩] }) .empty
      (parse "FROM a | EVAL y = 1 | KEEP *").pipeline.commands).has? "y" = some true := by
    decide +kernel
  exact ⟨faultless, kept, listed, Pipeline.has?_of_withheld faultless kept listed⟩

/-- A selection leaves a column in an unknown set that it does not match. -/
theorem Pipeline.has?_of_withheld_keep_other :
    Faultless ((parse "FROM a | EVAL y = 1 | KEEP x").pipeline.check
        { columns? := some [⟨"x", "long"⟩] } none) ∧
      (Command.outputOfAll (Snapshot.withheld { columns? := some [⟨"x", "long"⟩] }) .empty
        (parse "FROM a | EVAL y = 1 | KEEP x").pipeline.commands).has? "y" = some true ∧
      (Command.outputOfAll { columns? := some [⟨"x", "long"⟩] } .empty
        (parse "FROM a | EVAL y = 1 | KEEP x").pipeline.commands).has? "y" = some false := by
  decide +kernel

end Esql
