import Esql.Grammar.Fault
import Esql.Syntax.Command
import Esql.Token.Scan

/-!
# Reading tokens

The state of a parse is the list of tokens still to be read, where the last one read ended, and
the errors found so far. Rules of the grammar are state transformers over it. They never fail:
a rule that finds nothing records an error and says so in its result.
-/

namespace Esql.Grammar

structure Reading where
  /-- The whole text, for the text under a node. -/
  source : String
  rest : List Token
  /-- The end of the last token read, at first the start of the text. -/
  lastStop : Nat
  errors : List SyntaxError

abbrev Rule := StateM Reading

namespace Reading

def start (source : String) (tokens : List Token) : Reading := ⟨source, tokens, 0, []⟩

/-- The state after the next token, if there is one. -/
def advance (reading : Reading) : Reading :=
  match reading.rest with
  | [] => reading
  | token :: rest => { reading with rest := rest, lastStop := token.span.stop }

/-- The state after a number of tokens, or at the end of the tokens. -/
def skip (reading : Reading) : Nat → Reading
  | 0 => reading
  | count + 1 => reading.advance.skip count

def record (reading : Reading) (error : SyntaxError) : Reading :=
  { reading with errors := reading.errors ++ [error] }

/-- The next token is of this kind. -/
def isAt (reading : Reading) (kind : TokenKind) : Bool :=
  reading.rest.head?.any fun token => token.kind == kind

/-- The offset at which the next token starts, or the end of the text. -/
def nextStart (reading : Reading) : Nat :=
  match reading.rest with
  | token :: _ => token.span.start
  | [] => Text.byteLength reading.source

/-- No token is left, or, inside a branch, the branch closes. -/
def isAtEnd (reading : Reading) (nested : Bool) : Bool :=
  reading.rest.isEmpty || (nested && reading.isAt .closeParen)

/-- A command may end here. -/
def isAtBoundary (reading : Reading) (nested : Bool) : Bool :=
  reading.isAtEnd nested || reading.isAt .pipe

/-- The error of not finding something at the next token. -/
def missing (reading : Reading) (what : Expectation) : SyntaxError :=
  match reading.rest with
  | token :: _ => ⟨.expected what (some token.text), token.span⟩
  | [] => ⟨.expected what none, .point (Text.byteLength reading.source)⟩

/-- The extent of a node from an offset to the end of the last token read. -/
def extent (reading : Reading) (start : Nat) (incomplete : Bool) : Extent :=
  let span : Span := ⟨start, reading.lastStop⟩
  ⟨span, span.slice reading.source, incomplete⟩

end Reading

/-- The tokens still to be read. -/
def tokens : Rule (List Token) := do pure (← get).rest

def advance : Rule Unit := modify Reading.advance

def skip (count : Nat) : Rule Unit := modify (·.skip count)

def record (fault : SyntaxFault) (span : Span) : Rule Unit := modify (·.record ⟨fault, span⟩)

/-- Records that something was looked for at the next token. -/
def expected (what : Expectation) : Rule Unit := modify fun reading => reading.record (reading.missing what)

/-- Reads the next token if it is of this kind, and says whether it was. -/
def accept (kind : TokenKind) : Rule Bool := do
  if (← get).isAt kind then
    advance
    pure true
  else pure false

/-- Reads the next token if it is of this kind, and returns it. -/
def accept? (kind : TokenKind) : Rule (Option Token) := do
  match ← tokens with
  | token :: _ =>
      if token.kind == kind then
        advance
        pure (some token)
      else pure none
  | [] => pure none

def acceptWord (keyword : Keyword) : Rule Bool := accept (.keyword keyword)

def acceptWord? (keyword : Keyword) : Rule (Option Token) := accept? (.keyword keyword)

/-- The extent of a node that ends with the last token read. -/
def extent (start : Nat) (incomplete : Bool) : Rule Extent := do
  pure ((← get).extent start incomplete)

/-- How many tokens to pass over to reach the next place where a command may end, with as many
parentheses open as `depth` says. -/
def recoveryLength (nested : Bool) : (depth : Nat) → List Token → Nat
  | _, [] => 0
  | depth, token :: rest =>
      match token.kind with
      | .pipe => if depth == 0 then 0 else 1 + recoveryLength nested depth rest
      | .closeParen =>
          if depth == 0 && nested then 0 else 1 + recoveryLength nested (depth - 1) rest
      | .openParen => 1 + recoveryLength nested (depth + 1) rest
      | _ => 1 + recoveryLength nested depth rest

/-- Passes over what could not be read, up to the next place where a command may end. -/
def recover (nested : Bool) : Rule Unit := do skip (recoveryLength nested 0 (← tokens))

/-- What a rule read of a sequence, and whether it read all that belongs to it. -/
structure Parts (α : Type) where
  items : List α
  complete : Bool

namespace Parts

def none {α : Type} : Parts α := ⟨[], true⟩

/-- Nothing was read where something belongs. -/
def halted {α : Type} : Parts α := ⟨[], false⟩

def one {α : Type} (item : α) (incomplete : Bool) : Parts α := ⟨[item], !incomplete⟩

def append {α : Type} (first second : Parts α) : Parts α :=
  ⟨first.items ++ second.items, second.complete⟩

end Parts

/-- Records what was looked for, and halts. -/
def halt {α : Type} (what : Expectation) : Rule (Parts α) := do
  expected what
  pure .halted

/-- Goes on with a second sequence after a first one that is complete. -/
def andThen {α : Type} (first second : Rule (Parts α)) : Rule (Parts α) := do
  let read ← first
  if read.complete then pure (read.append (← second)) else pure read

/-- One or more items with commas between them. The bound on their number is never reached, as a
comma is read for each further item. -/
def separatedFrom {α : Type} (item : Rule (Parts α)) : Nat → Rule (Parts α)
  | 0 => halt .expression
  | bound + 1 =>
      andThen item do
        if ← accept .comma then separatedFrom item bound else pure .none

def separated {α : Type} (item : Rule (Parts α)) : Rule (Parts α) := do
  separatedFrom item ((← tokens).length + 1)

end Esql.Grammar
