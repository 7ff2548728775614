import Esql.Flow
import Esql.Proofs.Columns.Lookup

/-!
# Columns listed once

Nothing in the type of a column set keeps it from listing a name twice: every command has to take
care of that in its own way. What a command keeps of the columns that reach it is kept by a whole
pipeline with all its branches, so one look at each verb is enough.
-/

namespace Esql

/-- A property of column sets that holds behind every command if it holds before the command. -/
structure ColumnSet.Invariant (snapshot : Snapshot) (holds : ColumnSet → Prop) : Prop where
  unknown : holds .unknown
  plain : ∀ (command : Command) (verb : Verb) (input : ColumnSet), holds input →
    holds (command.plainOutput snapshot input verb)
  forked : ∀ (input : ColumnSet) (outputs : List ColumnSet), holds input →
    (∀ output ∈ outputs, holds output) → holds (input.forked outputs)

namespace ColumnSet.Invariant

variable {snapshot : Snapshot} {holds : ColumnSet → Prop}

mutual

/-- A command keeps an invariant, in its branches too. -/
theorem output (invariant : Invariant snapshot holds) (command : Command) {input : ColumnSet}
    (before : holds input) : holds (command.output snapshot input) := by
  cases command with
  | mk name qualifier? text span nameSpan args incomplete =>
      rw [Command.output]
      cases Verb.ofName? name with
      | none => exact invariant.unknown
      | some verb =>
          cases verb with
          | fork => exact invariant.forked input _ before (invariant.outputs args before)
          | _ => exact invariant.plain _ _ input before

theorem outputs (invariant : Invariant snapshot holds) (arguments : List Argument)
    {input : ColumnSet} (before : holds input) :
    ∀ output ∈ Argument.outputs snapshot input arguments, holds output := by
  cases arguments with
  | nil =>
      intro output member
      cases member
  | cons argument rest =>
      cases argument with
      | branch branch =>
          cases branch with
          | mk commands span incomplete =>
              intro output member
              rw [Argument.outputs] at member
              rcases List.mem_cons.mp member with rfl | later
              · exact invariant.outputOfAll commands before
              · exact invariant.outputs rest before output later
      | _ => exact invariant.outputs rest before

theorem outputOfAll (invariant : Invariant snapshot holds) (commands : List Command)
    {input : ColumnSet} (before : holds input) :
    holds (Command.outputOfAll snapshot input commands) := by
  cases commands with
  | nil => exact before
  | cons command rest =>
      rw [Command.outputOfAll]
      apply invariant.outputOfAll rest
      split
      · exact invariant.unknown
      · exact invariant.output command before

end

end ColumnSet.Invariant

namespace ColumnSet

variable {set : ColumnSet}

theorem nodup_withFields (distinct : set.names.Nodup) (fields : List Expr) :
    (set.withFields fields).names.Nodup := by
  induction fields generalizing set with
  | nil => exact distinct
  | cons field rest ih => exact ih (nodup_insert distinct _)

theorem nodup_renamings (distinct : set.names.Nodup) (pairs : List (Column × Column)) :
    (pairs.foldl renamed set).names.Nodup := by
  induction pairs generalizing set with
  | nil => exact distinct
  | cons pair rest ih =>
      apply ih
      rw [renamed]
      split
      · exact distinct
      · exact nodup_rename distinct _ _

/-- Only what is read from a schema is taken as it is listed there. -/
theorem names_ofSchema (columns : List FieldMapping) :
    (ofSchema (some columns)).names = columns.map (·.name) := by
  rw [ofSchema, names, List.map_map]
  rfl

theorem nodup_ofSchema {columns? : Option (List FieldMapping)}
    (distinct : ∀ columns ∈ columns?, (columns.map (·.name)).Nodup) :
    (ofSchema columns?).names.Nodup := by
  cases columns? with
  | none => exact nodup_unknown
  | some columns =>
      rw [names_ofSchema]
      exact distinct columns rfl

/-- Behind a fork no name is listed twice, whatever its branches list. -/
theorem nodup_forked (distinct : set.names.Nodup) (outputs : List ColumnSet) :
    (set.forked outputs).names.Nodup := by
  rw [forked]
  split
  · exact distinct
  · exact nodup_insert (nodup_merge outputs) forkColumn

end ColumnSet

namespace Command

variable {input : ColumnSet}

theorem nodup_joinOutput (distinct : input.names.Nodup) (command : Command)
    (snapshot : Snapshot) : (command.joinOutput snapshot input).names.Nodup := by
  have added := fun fields => ColumnSet.nodup_insertAll distinct fields
  rw [joinOutput]
  split
  · exact distinct
  · dsimp only
    split
    · exact added _
    · exact added _

theorem nodup_enrichOutput (distinct : input.names.Nodup) (command : Command)
    (snapshot : Snapshot) : (command.enrichOutput snapshot input).names.Nodup := by
  rw [enrichOutput]
  split
  · exact distinct
  · split
    · exact ColumnSet.nodup_insertAll distinct _
    · exact distinct

/-- No verb lists a name twice, if the columns of the source are distinct. -/
theorem nodup_plainOutput {snapshot : Snapshot}
    (columns : ∀ listed ∈ snapshot.columns?, (listed.map (·.name)).Nodup) (command : Command)
    (verb : Verb) (distinct : input.names.Nodup) :
    (command.plainOutput snapshot input verb).names.Nodup := by
  have source : (command.sourceOutput snapshot).names.Nodup :=
    ColumnSet.nodup_insertAll (ColumnSet.nodup_ofSchema columns) _
  cases verb with
  | «from» => exact source
  | ts => exact source
  | row => exact ColumnSet.nodup_withFields ColumnSet.nodup_empty _
  | «show» => exact ColumnSet.nodup_ofFields _
  | eval => exact ColumnSet.nodup_withFields distinct _
  | stats => exact ColumnSet.nodup_ofFields _
  | inlinestats => exact ColumnSet.nodup_insertAll distinct _
  | keep => exact ColumnSet.nodup_keep distinct _
  | drop => exact ColumnSet.nodup_drop distinct _
  | rename => exact ColumnSet.nodup_renamings distinct _
  | dissect => exact ColumnSet.nodup_insertAll distinct _
  | grok => exact ColumnSet.nodup_insertAll distinct _
  | enrich => exact nodup_enrichOutput distinct command snapshot
  | join => exact nodup_joinOutput distinct command snapshot
  | changePoint => exact ColumnSet.nodup_insertAll distinct _
  | «where» => exact distinct
  | mvExpand => exact distinct
  | sort => exact distinct
  | limit => exact distinct
  | sample => exact distinct
  | fork => exact distinct

/-- Behind any commands, complete or not, every column is listed once, if it is in the input and in
what the source provides. The columns of joined indices and of policies may repeat names. -/
theorem nodup_outputOfAll {snapshot : Snapshot}
    (columns : ∀ listed ∈ snapshot.columns?, (listed.map (·.name)).Nodup)
    (distinct : input.names.Nodup) (commands : List Command) :
    (outputOfAll snapshot input commands).names.Nodup := by
  have invariant : ColumnSet.Invariant snapshot fun set => set.names.Nodup := by
    constructor
    · exact ColumnSet.nodup_unknown
    · intro command verb input before
      exact nodup_plainOutput columns command verb before
    · intro input outputs before _
      exact ColumnSet.nodup_forked before outputs
  exact invariant.outputOfAll commands distinct

/-- A join whose index lists a name twice, with branches that replace a column and rename to one
that is there. -/
theorem nodup_outputOfAll_joined :
    (∀ listed ∈ Snapshot.columns?
          { columns? := some [⟨"x", "long"⟩, ⟨"k", "keyword"⟩],
            joinColumns := [("b", [⟨"y", "long"⟩, ⟨"x", "date"⟩, ⟨"y", "ip"⟩])] },
        (listed.map (·.name)).Nodup) ∧
      ColumnSet.empty.names.Nodup ∧
      (outputOfAll
        { columns? := some [⟨"x", "long"⟩, ⟨"k", "keyword"⟩],
          joinColumns := [("b", [⟨"y", "long"⟩, ⟨"x", "date"⟩, ⟨"y", "ip"⟩])] }
        .empty
        (parse ("FROM a METADATA _id | LOOKUP JOIN b ON k | FORK (RENAME x AS y) (EVAL y = 2)"
          ++ " (STATS x = max(y)) | EVAL x = 1")).pipeline.commands).names.Nodup := by
  have columns : ∀ listed ∈ Snapshot.columns?
      { columns? := some [⟨"x", "long"⟩, ⟨"k", "keyword"⟩],
        joinColumns := [("b", [⟨"y", "long"⟩, ⟨"x", "date"⟩, ⟨"y", "ip"⟩])] },
      (listed.map (·.name)).Nodup := by
    decide
  have distinct : ColumnSet.empty.names.Nodup := ColumnSet.nodup_empty
  exact ⟨columns, distinct, nodup_outputOfAll columns distinct _⟩

end Command

end Esql
