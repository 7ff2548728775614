import Esql.Check.Expression
import Esql.Flow

/-!
# Checking names

Checks of the commands whose arguments are names: of sources, policies, columns and column
patterns. A name is only refused when it is certain that nothing has it.
-/

namespace Esql

namespace Scope

/-- Checks a pattern, which has to match some column. -/
def checkPattern (scope : Scope) (pattern : Column) : List Diagnostic :=
  if !Text.hasStar pattern.name then scope.checkColumn pattern
  else if scope.columns.known && (scope.columns.matching pattern.name).isEmpty then
    [(Finding.unknownColumn pattern.name).about pattern.span]
  else []

/-- Checks the complete columns of a clause. -/
def checkColumnsOf (scope : Scope) (command : Command) (clause : String) : List Diagnostic :=
  ((command.columnsOf clause).filter fun column => !column.incomplete).flatMap scope.checkColumn

/-- Checks renamings one after the other; later ones see those before them. -/
def checkRenamings (scope : Scope) : List (Column × Column) → List Diagnostic
  | [] => []
  | (old, new) :: rest =>
      match [old, new].find? fun column => Text.hasStar column.name with
      | some pattern =>
          (Finding.wildcardNotSupported "RENAME" pattern.text).about pattern.span
            :: scope.checkRenamings rest
      | none =>
          match scope.checkColumn old with
          | [] =>
              { scope with columns := scope.columns.rename old.name new.name }.checkRenamings rest
          | found => found ++ scope.checkRenamings rest

end Scope

namespace Snapshot

/-- Some index has the name of a source, or matches it if it is a pattern. -/
def provides (indices : List Index) (source : Source) : Bool :=
  if Text.hasStar source.index then
    indices.any fun index => Text.globMatch source.index index.name
  else indices.any fun index => index.name == source.name || index.name == source.index

/-- Checks a source, unless it lies in another cluster. -/
def checkSource (snapshot : Snapshot) (source : Source) : List Diagnostic :=
  match snapshot.indices? with
  | none => []
  | some indices =>
      if source.incomplete || source.cluster?.isSome || provides indices source then []
      else [(Finding.unknownIndex source.name).about source.span]

end Snapshot

namespace Clause

/-- Checks the columns of documents that a source is asked for. -/
def checkMetadata (clause : Clause) : List Diagnostic :=
  let available := metadataFields.map (·.name)
  (if Text.startsWith clause.text "[" then [Finding.metadataBrackets.about clause.span] else [])
    ++ (clause.columns.filter fun column => !available.contains column.name).map fun column =>
      (Finding.unknownMetadataField column.name available).about column.span

end Clause

namespace Command

def checkSources (command : Command) (snapshot : Snapshot) : List Diagnostic :=
  command.sources.flatMap snapshot.checkSource
    ++ (command.clause? "metadata").toList.flatMap Clause.checkMetadata

def checkKeep (command : Command) (scope : Scope) : List Diagnostic :=
  command.patterns.flatMap scope.checkPattern

/-- Checks which columns are dropped; at least one has to remain. -/
def checkDrop (command : Command) (scope : Scope) : List Diagnostic :=
  match command.patterns.find? fun pattern => pattern.name == "*" with
  | some all => [Finding.dropOfAllColumns.about all.span]
  | none => command.checkKeep scope

def checkRename (command : Command) (scope : Scope) : List Diagnostic :=
  scope.checkRenamings command.renamings

def checkMvExpand (command : Command) (scope : Scope) : List Diagnostic :=
  command.patterns.flatMap scope.checkColumn

/-- Checks that an existing column is numeric, if its type is known. -/
def checkNumeric (column : Column) (scope : Scope) : List Diagnostic :=
  match scope.checkColumn column, scope.columns.type? column.name with
  | [], some given =>
      if given.isNumeric then []
      else
        [(Finding.unsupportedColumnType "CHANGE_POINT" "double, long, integer" column.name
          given).about column.span]
  | found, _ => found

def checkChangePoint (command : Command) (scope : Scope) : List Diagnostic :=
  match command.columns.head?.filter fun value => !value.incomplete with
  | some value => checkNumeric value scope ++ scope.checkColumnsOf command "on"
  | none => []

/-- Checks how a policy is looked up in other clusters. -/
def checkMode (source : Source) : List Diagnostic :=
  match source.cluster?.filter fun mode => !enrichModes.contains (Text.lower mode) with
  | some mode => [(Finding.unsupportedSetting "ENRICH" mode enrichModes).about source.span]
  | none => []

/-- Checks the columns that are asked for from a policy. -/
def checkRequests (command : Command) (policy : EnrichPolicy) : List Diagnostic :=
  (command.requests.filter fun request => !policy.enrichFields.contains request.2.name).map
    fun request => (Finding.unknownColumn request.2.name).about request.2.span

def checkEnrich (command : Command) (scope : Scope) (snapshot : Snapshot) : List Diagnostic :=
  match command.leadingSource? with
  | none => []
  | some source =>
      let policy? := snapshot.policy? source.index
      checkMode source
        ++ (if snapshot.policies?.isSome && policy?.isNone then
            [(Finding.unknownPolicy source.index).about source.span]
          else [])
        ++ scope.checkColumnsOf command "on"
        ++ policy?.toList.flatMap command.checkRequests

/-- Some index that rows can be joined with has the name of a source. -/
def joinable (indices : List Index) (source : Source) : Bool :=
  indices.any fun index => index.name == source.index || index.name == source.name

/-- Checks a join. Its conditions see the columns of both sides. -/
def checkJoin (command : Command) (scope : Scope) (snapshot : Snapshot) : List Diagnostic :=
  match command.leadingSource? with
  | none => []
  | some source =>
      if snapshot.joinIndices?.any fun indices => !joinable indices source then
        [(Finding.invalidJoinIndex source.text).about source.span]
      else
        let both := { scope with columns := scope.columns.extend (command.joined snapshot) }
        (complete (command.operandsOf "on")).flatMap fun condition =>
          condition.check both .join none

end Command

end Esql
