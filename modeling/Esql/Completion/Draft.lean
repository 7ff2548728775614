import Esql.Completion.Cue
import Esql.Flow

/-!
# Drafts

A draft is a command that is being written, up to the cursor. The token or the run of tokens that
touches the cursor is what is being typed; a suggestion replaces it.
-/

namespace Esql

structure Draft where
  /-- The query up to the cursor. -/
  text : String
  command : Command
  /-- The tokens behind the name of the command. -/
  tokens : List Token
  /-- The columns that reach the command. -/
  columns : ColumnSet
  snapshot : Snapshot

/-- What is being typed, and the tokens of the command before it. -/
structure Typed where
  text : String
  /-- The span of what is being typed, if there is anything. -/
  range? : Option Span
  before : List Token
deriving Repr, BEq, DecidableEq

namespace Typed

def previous? (typed : Typed) : Option Token := typed.before.getLast?

end Typed

namespace Draft

def cursor (draft : Draft) : Nat := Text.byteLength draft.text

/-- The span of a run of tokens. -/
def runSpan? (run : List Token) : Option Span := do
  pure ⟨(← run.head?).span.start, (← run.getLast?).span.stop⟩

/-- A run at the end of the tokens as what is being typed. -/
def typed (draft : Draft) (parts : List Token × List Token) : Typed :=
  let range? := runSpan? parts.2
  ⟨(range?.map fun span => span.slice draft.text).getD "", range?, parts.1⟩

/-- The tokens that touch the cursor and each other, as far as they are of a kind. -/
def run (draft : Draft) (member : TokenKind → Bool) : Typed :=
  if draft.tokens.getLast?.any fun token => token.endsAt draft.cursor then
    draft.typed (Completion.splitRun member draft.tokens)
  else draft.typed (draft.tokens, [])

def isWordPart (kind : TokenKind) : Bool :=
  kind.isName || kind.keyword?.isSome || kind == .dot

/-- The name being typed, with its quotes and all its segments. -/
def word (draft : Draft) : Typed := draft.run isWordPart

def isString : TokenKind → Bool
  | .string .. => true
  | _ => false

/-- The name of a source being typed, which a string may be too. -/
def source (draft : Draft) : Typed :=
  match draft.tokens.getLast? with
  | some last =>
      if last.endsAt draft.cursor && isString last.kind then
        draft.typed (draft.tokens.dropLast, [last])
      else draft.run Grammar.isSourcePart
  | none => draft.run Grammar.isSourcePart

/-- The start of what is being typed, or the cursor. -/
def limit (draft : Draft) (range? : Option Span) : Nat := (range?.map (·.start)).getD draft.cursor

/-- The names of columns that were written before what is being typed. -/
def listed (draft : Draft) (columns : List Column) (range? : Option Span) : List String :=
  (columns.filter fun column => column.span.stop < draft.limit range?).map (·.name)

end Draft

end Esql
