import Esql.Diagnostic.Basic
import Esql.Schema.Collaborator
import Esql.Syntax.Walk
import Esql.Text.Quoted

/-!
# Snapshots

The schema data that one query needs, asked for once. Each question about columns shows no more of
the query than what stands before the command that needs the answer. Failed questions are
remembered and otherwise count as unanswered.
-/

namespace Esql

structure Snapshot where
  /-- The columns that the first command produces. -/
  columns? : Option (List FieldMapping) := none
  indices? : Option (List Index) := none
  policies? : Option (List EnrichPolicy) := none
  joinIndices? : Option (List Index) := none
  /-- The columns of each index that the query joins with. -/
  joinColumns : List (String × List FieldMapping) := []
  /-- The columns that each policy of the query adds. -/
  policyColumns : List (String × List FieldMapping) := []
  failures : List String := []
deriving Repr, BEq, DecidableEq

namespace Schema

/-- The name of a source as it is written in a query, quoted if it holds unusual characters. -/
def writeSource (name : String) : String :=
  if name.toList.all fun c => Text.isAlphanumeric c || ['-', '_', '.', '*', ':'].contains c then
    name
  else
    String.ofList ('\x22' :: (name.toList.flatMap escaped ++ ['\x22']))
where
  escaped (c : Char) : List Char := if c == '\x22' then ['\\', '\x22'] else [c]

/-- The query for the columns of an index. -/
def indexQuery (index : String) : String := "FROM " ++ writeSource index

/-- The query for the columns that a policy adds. -/
def policyQuery (policy : EnrichPolicy) : String :=
  "FROM " ++ Text.join ", " (policy.indices.map writeSource) ++ " | KEEP "
    ++ Text.join ", " (policy.enrichFields.map Text.Quoted.write)

end Schema

namespace Pipeline

/-- Some command of the query, in a branch or not, has this name. -/
def uses (query : Pipeline) (name : String) : Bool :=
  query.visited.any fun command => command.name == name

/-- The indices or policies that the commands of a name refer to, each once. -/
def targets (query : Pipeline) (name : String) : List String :=
  (((query.visited.filter fun command => command.name == name).filterMap
    fun command => command.sources.head?).map (·.index)).eraseDups

end Pipeline

namespace Snapshot

def policy? (snapshot : Snapshot) (name : String) : Option EnrichPolicy :=
  snapshot.policies?.bind fun policies => policies.find? fun policy => policy.name == name

def index? (snapshot : Snapshot) (name : String) : Option Index :=
  snapshot.indices?.bind fun indices => indices.find? fun index => index.name == name

/-- The only trace that failed questions leave, a warning about the whole query. -/
def warning? (snapshot : Snapshot) (span : Span) : Option Diagnostic :=
  snapshot.failures.head?.map fun reason => (Finding.schemaUnavailable reason).about span

section Collect

variable {m : Type → Type} [Monad m]

/-- The columns of the first command. Only a command that reads indices needs to ask. -/
def firstColumns (collaborator : Collaborator m) (text : String) (query : Pipeline) :
    m (Reply (List FieldMapping)) :=
  match query.commands.head? with
  | none => pure (.ok none)
  | some first =>
      if first.name == "from" || first.name == "ts" then
        collaborator.columnsFor (Span.slice ⟨0, first.span.stop⟩ text)
      else pure (.ok (some []))

/-- An answer that is asked for only if it is needed. -/
def askIf {α : Type} (needed : Bool) (question : m (Reply α)) : m (Reply α) :=
  if needed then question else pure (.ok none)

/-- The columns of one joined index, under its name. -/
def joinedColumns (collaborator : Collaborator m) (index : String) :
    m (String × Reply (List FieldMapping)) := do
  pure (index, ← collaborator.columnsFor (Schema.indexQuery index))

/-- The columns of one policy, under its name. A policy that is not listed answers nothing, and
one without fields needs no question. -/
def enrichColumns (collaborator : Collaborator m) (policies : Reply (List EnrichPolicy))
    (name : String) : m (String × Reply (List FieldMapping)) := do
  match (policies.answer?.getD []).find? fun policy => policy.name == name with
  | none => pure (name, .ok none)
  | some policy =>
      if policy.enrichFields.isEmpty then pure (name, .ok (some []))
      else pure (name, ← collaborator.columnsFor (Schema.policyQuery policy))

/-- The named answers that were given. -/
def answered (replies : List (String × Reply (List FieldMapping))) :
    List (String × List FieldMapping) :=
  replies.filterMap fun reply => reply.2.answer?.map fun columns => (reply.1, columns)

/-- Asks for everything that a query needs. -/
def collect (collaborator : Collaborator m) (text : String) (query : Pipeline) : m Snapshot := do
  let columns ← firstColumns collaborator text query
  let indices ← collaborator.indices
  let joinIndices ← askIf (query.uses "join") collaborator.joinIndices
  let joins ← (query.targets "join").mapM (joinedColumns collaborator)
  let policies ← askIf (query.uses "enrich") collaborator.policies
  let enriched ← (query.targets "enrich").mapM (enrichColumns collaborator policies)
  let failures := columns.failure?.toList ++ indices.failure?.toList
    ++ joinIndices.failure?.toList ++ joins.filterMap (·.2.failure?)
    ++ policies.failure?.toList ++ enriched.filterMap (·.2.failure?)
  pure ⟨columns.answer?, indices.answer?, policies.answer?, joinIndices.answer?, answered joins,
    answered enriched, failures.map Failure.message⟩

end Collect

end Snapshot

end Esql
