import Esql.Completion.Columns
import Esql.Completion.Fields
import Esql.Completion.Source

/-!
# Completing queries

A query is cut at the cursor and read anew. Where a command may start, verbs are offered; anywhere
else the command being written decides, with the columns that the commands before it produce.
-/

namespace Esql

namespace Text

/-- The characters at the front that fit into a number of bytes. -/
def fitting : List Char → (limit : Nat) → List Char
  | [], _ => []
  | c :: cs, limit => if c.utf8Size ≤ limit then c :: fitting cs (limit - c.utf8Size) else []

/-- The text before an offset; an offset inside a character counts as one before it. -/
def before (text : String) (offset : Nat) : String := String.ofList (fitting text.toList offset)

/-- An offset moved into the text and before the character that it lies in. -/
def clampOffset (text : String) (offset : Nat) : Nat := width (fitting text.toList offset)

end Text

namespace Draft

/-- What may stand at the cursor in the arguments of a verb. -/
def suggestions (draft : Draft) : Verb → List Suggestion
  | .from | .ts => draft.suggestSources
  | .row => draft.suggestField .row
  | .show => draft.suggestShow
  | .where => draft.suggestWhere
  | .eval => draft.withNaming (draft.suggestField .eval)
  | .stats | .inlinestats => draft.suggestStats
  | .keep | .drop => draft.suggestPatterns
  | .rename => draft.suggestRename
  | .mvExpand => draft.suggestSingle
  | .sort => draft.suggestSort
  | .limit => draft.suggestLimit
  | .sample => draft.suggestSample
  | .dissect => draft.suggestDissect
  | .grok => draft.suggestGrok
  | .enrich => draft.suggestEnrich
  | .join => draft.suggestJoin
  | .fork => draft.suggestFork
  | .changePoint => draft.suggestChangePoint

end Draft

namespace Pipeline

/-- The branch that is still open at the end of a query. -/
def openBranch? (query : Pipeline) : Option Pipeline := do
  let fork ← query.commands.getLast?.filter fun command => command.name == "fork"
  let last ← fork.args.getLast?
  last.branch?.filter (·.incomplete)

/-- The commands before the one at a span, all of them if none is there. -/
def precedingAt (span : Span) (commands : List Command) : List Command :=
  commands.takeWhile fun command => command.span != span

/-- The columns that reach a command of the query or of its open branch. -/
def columnsBefore (query : Pipeline) (command : Command) (snapshot : Snapshot) : ColumnSet :=
  if query.commands.any fun other => other.span == command.span then
    Command.outputOfAll snapshot .empty (precedingAt command.span query.commands)
  else
    match query.openBranch? with
    | none => .unknown
    | some branch =>
        let input := Command.outputOfAll snapshot .empty query.commands.dropLast
        Command.outputOfAll snapshot input (precedingAt command.span branch.commands)

end Pipeline

namespace Completion

/-- Where a command may start. -/
inductive Start where
  | query
  | stage
  | branch
deriving Repr, BEq, DecidableEq, ReflBEq, LawfulBEq

/-- The start of a command behind these tokens, if one may start there. -/
def start? (query : Pipeline) (before : List Token) : Option Start :=
  match before.getLast? with
  | none => some .query
  | some last =>
      match last.kind with
      | .pipe => some .stage
      | .openParen =>
          (query.openBranch?.filter fun branch => branch.span.start == last.span.start).map
            fun _ => .branch
      | _ => none

/-- The verbs that may start a command. A query has one fork at most, and none in a branch. -/
def verbs (query : Pipeline) : Start → List Verb
  | .query => Verb.suggestable true
  | .branch => (Verb.suggestable false).filter Verb.allowedInFork
  | .stage =>
      if query.openBranch?.isSome then (Verb.suggestable false).filter Verb.allowedInFork
      else if query.commands.any fun command => command.name == "fork" then
        (Verb.suggestable false).filter (· != .fork)
      else Verb.suggestable false

/-- The tokens end with a qualifier of a join at the start of a command. -/
def endsWithQualifier (before : List Token) : Bool :=
  match before.reverse with
  | qualifier :: first :: _ =>
      (first.kind == .pipe || first.kind == .openParen) &&
        qualifier.kind.name?.any fun name => Verb.join.qualifiers.contains (Text.lower name)
  | _ => false

/-- The command that is being written at the end of a text. -/
def draft? (text : String) (tokens : List Token) (query : Pipeline) (snapshot : Snapshot) :
    Option (Draft × Verb) := do
  let command ← query.commandAt? (Text.byteLength text)
  let verb ← Verb.ofName? command.name
  let written := tokens.dropWhile fun token => token.span.start < command.nameSpan.stop
  pure (⟨text, command, written, query.columnsBefore command snapshot, snapshot⟩, verb)

/-- What may stand at the end of a text. -/
def atEnd (text : String) (query : Pipeline) (snapshot : Snapshot) : List Suggestion :=
  let tokens := Token.scan text
  let typing? := tokens.getLast?.filter fun token =>
    token.endsAt (Text.byteLength text) && (token.kind.isName || token.kind.keyword?.isSome)
  let before := if typing?.isSome then tokens.dropLast else tokens
  let range? := typing?.map (·.span)
  match start? query before with
  | some start =>
      (verbs query start).map fun verb => (Suggestion.command verb).replacing range?
  | none =>
      if endsWithQualifier before then
        [(Suggestion.keyword "JOIN" "Join a lookup index").replacing range?]
      else
        match draft? text tokens query snapshot with
        | some (draft, verb) => draft.suggestions verb
        | none => []

/-- A list of suggestions with one more, unless one with its text and label is listed. -/
def listOnce (listed : List Suggestion) (suggestion : Suggestion) : List Suggestion :=
  if listed.any fun known => known.text == suggestion.text && known.label == suggestion.label then
    listed
  else listed ++ [suggestion]

end Completion

/-- What may stand at an offset of a query. -/
def suggest {m : Type → Type} [Monad m] (collaborator : Collaborator m) (text : String)
    (offset : Nat) : m (List Suggestion) := do
  let text := Text.before text offset
  let query := (parse text).pipeline
  let snapshot ← Snapshot.collect collaborator text query
  pure ((Completion.atEnd text query snapshot).foldl Completion.listOnce [])

end Esql
