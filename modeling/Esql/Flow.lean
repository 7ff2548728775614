import Esql.Meaning
import Esql.Schema.Snapshot
import Esql.Typing
import Esql.Verb

/-!
# The flow of columns

What a command does to the columns that reach it. The columns behind a pipeline are those that
come out of its commands one after the other; behind a command that was not understood nothing is
known. A fork runs its input through every branch and merges what comes out.
-/

namespace Esql

namespace ColumnSet

/-- The set with a field of an expression added, typed by the columns before it. -/
def withField (set : ColumnSet) (field : Expr) : ColumnSet :=
  set.insert ⟨field.namedValue.1, field.namedValue.2.type? set, true⟩

/-- The set with several fields added, where later ones see those before them. -/
def withFields (set : ColumnSet) (fields : List Expr) : ColumnSet := fields.foldl withField set

/-- The columns of several branches, each name where it first occurs. -/
def merge (outputs : List ColumnSet) : ColumnSet :=
  ⟨(outputs.flatMap (·.fields)).foldl listOnce [], outputs.all (·.known)⟩

/-- The columns behind a fork whose branches produce these. Without branches nothing happens. -/
def forked (input : ColumnSet) (outputs : List ColumnSet) : ColumnSet :=
  if outputs.isEmpty then input else (merge outputs).insert forkColumn

/-- The set with a column renamed, unless there certainly is none. -/
def renamed (set : ColumnSet) (columns : Column × Column) : ColumnSet :=
  if set.lacks columns.1.name then set else set.rename columns.1.name columns.2.name

end ColumnSet

namespace Command

/-- The columns of documents that a source asks for, as far as there are such columns. -/
def metadata (command : Command) : List Field :=
  (command.columnsOf "metadata").filterMap fun column =>
    metadataFields.find? fun field => field.name == column.name

/-- The output of a command that reads indices. -/
def sourceOutput (command : Command) (snapshot : Snapshot) : ColumnSet :=
  (ColumnSet.ofSchema snapshot.columns?).insertAll command.metadata

/-- The column of an aggregated field. -/
def aggregate (input : ColumnSet) (field : Expr) : Field :=
  let (name, value) := field.unfiltered.namedValue
  ⟨name, value.type? input, true⟩

/-- The column of a group. A group that is a column keeps what is known of it. -/
def group (input : ColumnSet) (field : Expr) : Field :=
  let (name, value) := field.namedValue
  let type? := match value with
    | .column c => input.type? c.name
    | other => other.type? input
  ⟨name, type?, field.column?.isNone⟩

/-- The columns that an aggregation computes, followed by its groups. -/
def aggregates (command : Command) (input : ColumnSet) : ColumnSet :=
  .ofFields (command.fields.map (aggregate input) ++ command.groups.map (group input))

/-- The columns of the index that a join refers to. -/
def joined (command : Command) (snapshot : Snapshot) : ColumnSet :=
  .ofSchema (command.leadingSource?.bind fun source => snapshot.joinColumns.lookup source.index)

/-- The output of a join: the columns of the index come last, except those that rows are joined
on. -/
def joinOutput (command : Command) (snapshot : Snapshot) (input : ColumnSet) : ColumnSet :=
  if command.leadingSource?.isNone then input
  else
    let keys := (command.columnsOf "on").map (·.name)
    let added := (command.joined snapshot).fields.filter fun field => !keys.contains field.name
    let output := input.insertAll (added.map fun field => ⟨field.name, field.type?, false⟩)
    if (command.joined snapshot).known then output else output.forget

/-- The type of a column of a policy, if its columns were asked for. -/
def policyType? (columns? : Option (List FieldMapping)) (name : String) : Option FieldType :=
  (columns?.bind fun columns => columns.find? fun column => column.name == name).map (·.type)

/-- The columns that a policy adds, all of them unless some are asked for, if they are known. -/
def enrichment? (command : Command) (snapshot : Snapshot) (policy : String) :
    Option (List Field) :=
  let columns? := snapshot.policyColumns.lookup policy
  match command.requests, columns?, snapshot.policy? policy with
  | [], some columns, _ => some (columns.map fun column => ⟨column.name, some column.type, true⟩)
  | [], none, some listed => some (listed.enrichFields.map fun name => ⟨name, none, true⟩)
  | [], none, none => none
  | requests, _, _ =>
      some (requests.map fun request => ⟨request.1, policyType? columns? request.2.name, true⟩)

/-- The output of an enrichment. -/
def enrichOutput (command : Command) (snapshot : Snapshot) (input : ColumnSet) : ColumnSet :=
  match command.leadingSource? with
  | none => input
  | some source =>
      match command.enrichment? snapshot source.index with
      | some added => input.insertAll added
      | none => input.forget

/-- The columns that a dissect pattern writes. -/
def dissected (command : Command) : List Field :=
  ((command.extraction?.map Extraction.dissectKeys).getD []).map fun key =>
    ⟨key, some .keyword, true⟩

/-- The columns that a grok pattern writes. -/
def grokked (command : Command) : List Field :=
  ((command.extraction?.map Extraction.grokFields).getD []).map fun column =>
    ⟨column.1, some column.2, true⟩

/-- The columns that a search for change points adds. -/
def changePoints (command : Command) : List Field :=
  [⟨command.changePointColumns.1, some .keyword, true⟩,
   ⟨command.changePointColumns.2, some .double, true⟩]

/-- The output of a command that is no fork, as its verb wants it. -/
def plainOutput (command : Command) (snapshot : Snapshot) (input : ColumnSet) : Verb → ColumnSet
  | .from | .ts => command.sourceOutput snapshot
  | .row => ColumnSet.empty.withFields command.fields
  | .show => .ofFields (["version", "date", "hash"].map fun name => ⟨name, some .keyword, false⟩)
  | .where | .mvExpand | .sort | .limit | .sample | .fork => input
  | .eval => input.withFields command.fields
  | .stats => command.aggregates input
  | .inlinestats => input.extend (command.aggregates input)
  | .keep => input.keep (command.patterns.map (·.name))
  | .drop => input.drop (command.patterns.map (·.name))
  | .rename => command.renamings.foldl ColumnSet.renamed input
  | .dissect => input.insertAll command.dissected
  | .grok => input.insertAll command.grokked
  | .enrich => command.enrichOutput snapshot input
  | .join => command.joinOutput snapshot input
  | .changePoint => input.insertAll command.changePoints

end Command

mutual

/-- The output of a command, understood or not; that of an unknown verb is unknown. -/
def Command.output (snapshot : Snapshot) (input : ColumnSet) : Command → ColumnSet
  | ⟨name, qualifier?, text, span, nameSpan, args, incomplete⟩ =>
      match Verb.ofName? name with
      | none => .unknown
      | some .fork => input.forked (Argument.outputs snapshot input args)
      | some verb =>
          Command.plainOutput ⟨name, qualifier?, text, span, nameSpan, args, incomplete⟩ snapshot
            input verb

/-- The outputs of the branches among some arguments, all of which read the same input. -/
def Argument.outputs (snapshot : Snapshot) (input : ColumnSet) : List Argument → List ColumnSet
  | [] => []
  | .branch ⟨commands, _, _⟩ :: rest =>
      Command.outputOfAll snapshot input commands :: Argument.outputs snapshot input rest
  | _ :: rest => Argument.outputs snapshot input rest

/-- The columns behind several commands. What follows a command that was not read to its end is
unknown. -/
def Command.outputOfAll (snapshot : Snapshot) (input : ColumnSet) : List Command → ColumnSet
  | [] => input
  | command :: rest =>
      Command.outputOfAll snapshot
        (if command.incomplete then .unknown else Command.output snapshot input command) rest

end

namespace Command

/-- The columns behind a command in a pipeline. -/
def after (snapshot : Snapshot) (input : ColumnSet) (command : Command) : ColumnSet :=
  if command.incomplete then .unknown else command.output snapshot input

/-- Only a fork looks into its branches. -/
theorem output_eq_plain (command : Command) {verb : Verb}
    (named : Verb.ofName? command.name = some verb) (other : verb ≠ .fork) (snapshot : Snapshot)
    (input : ColumnSet) :
    command.output snapshot input = command.plainOutput snapshot input verb := by
  cases command with
  | mk name =>
      rw [output, named]
      cases verb <;> first | rfl | contradiction

end Command

end Esql
