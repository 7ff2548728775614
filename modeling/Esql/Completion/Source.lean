import Esql.Completion.Expression
import Esql.Meaning

/-!
# Completing names of data

What may stand at the cursor in the commands that name indices and policies. A source that is
already listed is not offered again, and a hidden one only behind a point.
-/

namespace Esql

namespace Completion

/-- A text without the quotes at either end. -/
def unquoted (text : String) : String :=
  let open? (c : Char) : Bool := c == '\x22'
  String.ofList ((text.toList.dropWhile open?).reverse.dropWhile open?).reverse

/-- What may follow a source that is complete as it stands. -/
def sourceEndings : List (String × String) :=
  [(" | ", "Pipe (|)"), (", ", "Comma (,)"), (" METADATA ", "Add metadata")]

end Completion

namespace Draft

open Completion

/-- The columns of documents that are not listed yet. -/
def suggestMetadata (draft : Draft) : List Suggestion :=
  let word := draft.word
  let listed := draft.listed (draft.command.columnsOf "metadata") word.range?
  match word.previous? with
  | none => []
  | some previous =>
      if previous.isKeyword .metadata || previous.kind == .comma then
        (metadataFields.filter fun field => !listed.contains field.name).map fun field =>
          { Suggestion.column field with text := field.name, range? := word.range? }
      else if endsOperand previous then [.comma, .pipe]
      else []

/-- The typed source with each of its possible endings. -/
def endings (typed : Typed) : List Suggestion :=
  sourceEndings.map fun ending =>
    { kind := .source, label := typed.text, text := typed.text ++ ending.1, detail := ending.2,
      filterText? := some typed.text, range? := typed.range?, reopens := true }

/-- The sources that are not listed yet, and what may follow if the typed one is complete. -/
def suggestSource (draft : Draft) (typed : Typed) : List Suggestion :=
  let listed :=
    (draft.command.sources.filter fun source => source.span.stop < draft.limit typed.range?).map
      (·.name)
  let known := draft.snapshot.indices?.getD []
  let offered := known.filter fun index =>
    (Text.startsWith typed.text "." || !index.hidden) && !listed.contains index.name
  let name := unquoted typed.text
  (offered.map fun index => ((Suggestion.source index).replacing typed.range?).reopening)
    ++ if Text.hasStar name || known.any fun index => index.name == name then endings typed else []

/-- What may stand in a command that reads indices. -/
def suggestSources (draft : Draft) : List Suggestion :=
  if draft.tokens.any fun token => token.isKeyword .metadata then draft.suggestMetadata
  else
    let typed := draft.source
    if typed.previous?.any fun previous => previous.kind != .comma then
      [.keyword "METADATA" "Add metadata fields to the results", .comma, .pipe]
    else draft.suggestSource typed

/-- What may stand in a command about the deployment. -/
def suggestShow (draft : Draft) : List Suggestion :=
  let word := draft.word
  if word.previous?.isSome then [.pipe]
  else
    [{ kind := .keyword, label := "INFO", text := "INFO",
       detail := "Get information about the Elasticsearch cluster", range? := word.range? }]

/-- The indices that rows can be joined with. -/
def suggestJoinIndex (draft : Draft) : List Suggestion :=
  let typed := draft.source
  if typed.before.isEmpty then
    (draft.snapshot.joinIndices?.getD []).map fun index =>
      let suggestion := ((Suggestion.source index).replacing typed.range?).reopening
      { suggestion with text := suggestion.text ++ " " }
  else [.keyword "ON" "Join condition"]

/-- The columns that both sides of a join have, or all of them if the other side is unknown. -/
def sharedColumns (draft : Draft) : ColumnSet :=
  let joined := draft.command.joined draft.snapshot
  if joined.known then
    .ofFields (draft.columns.fields.filter fun field => (joined.get? field.name).isSome)
  else draft.columns

/-- What may stand in a join. -/
def suggestJoin (draft : Draft) : List Suggestion :=
  let word := draft.word
  match lastClause? [.on] word.before with
  | none => draft.suggestJoinIndex
  | some (_, _, written) =>
      let last? := written.getLast?
      if last?.all fun last => last.kind == .comma then
        let shared : Draft := { draft with columns := draft.sharedColumns }
        (shared.columnSuggestions .any []).map fun suggestion =>
          { suggestion with detail := "Join key", range? := word.range? }
      else if last?.any endsOperand then
        let both := draft.columns.extend (draft.command.joined draft.snapshot)
        let scope : Draft := { draft with columns := both }
        scope.expression .join word.before [.comma, .pipe]
      else draft.expression .join word.before []

/-- The columns that the policy adds, with their types as far as they are known. -/
def suggestPolicyColumns (draft : Draft) : List Suggestion :=
  match draft.command.leadingSource? with
  | none => []
  | some source =>
      let columns? := draft.snapshot.policyColumns.lookup source.index
      let names := ((draft.snapshot.policy? source.index).map (·.enrichFields)).getD []
      names.map fun name =>
        (Suggestion.column ⟨name, Command.policyType? columns? name, false⟩).replacing
          draft.word.range?

/-- The policies, and while a mode is being typed the modes too. -/
def suggestPolicy (draft : Draft) : List Suggestion :=
  let typed := draft.source
  if typed.before.isEmpty then
    let modes :=
      if Text.startsWith typed.text "_" && !Text.contains typed.text ":" then
        enrichModes.map fun mode =>
          (Suggestion.value (mode ++ ":") "Enrich mode").reopening
      else []
    ((draft.snapshot.policies?.getD []).map Suggestion.policy ++ modes).map
      (Suggestion.replacing typed.range?)
  else [.keyword "ON" "Match field", .keyword "WITH" "Enrich fields", .pipe]

/-- What may stand among the columns that are asked for from a policy. -/
def suggestRequest (draft : Draft) (before : List Token) : List Suggestion :=
  let (rest, path) := splitPath before
  match rest.getLast?.map Token.kind with
  | some .assign => if path.isEmpty then draft.suggestPolicyColumns else [.comma, .pipe]
  | some (.keyword .with) | some .comma =>
      if path.isEmpty then draft.suggestPolicyColumns else [.assign, .comma, .pipe]
  | _ => []

/-- What may stand in an enrichment. -/
def suggestEnrich (draft : Draft) : List Suggestion :=
  let word := draft.word
  match lastClause? [.on, .with] word.before with
  | none => draft.suggestPolicy
  | some (.on, _, written) =>
      if written.isEmpty then
        (draft.columnSuggestions .any []).map (Suggestion.replacing word.range?)
      else [.keyword "WITH" "Enrich fields", .pipe]
  | some _ => draft.suggestRequest word.before

end Draft

end Esql
