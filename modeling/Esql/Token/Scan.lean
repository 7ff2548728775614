import Esql.Token.Basic

/-!
# Scanning

The text of a query is read from left to right. At each place one lexeme is taken: a token, or
something to skip (a blank or a comment). Scanning never fails: an unfinished string or quoted
name extends to the end of the text, and an unknown character is a token of its own.

A lexeme is described by its kind and by how many characters it takes beyond the first, so the
scan is a plain recursion over the characters that counts down those still to pass over.
-/

namespace Esql

/-- What stands at one place of a text, and how many characters beyond the first belong to it. -/
structure Lexeme where
  /-- Absent for blanks and comments. -/
  kind? : Option TokenKind
  more : Nat
deriving Repr, DecidableEq

namespace Lexeme

def skip (more : Nat) : Lexeme := ⟨none, more⟩

def token (kind : TokenKind) (more : Nat) : Lexeme := ⟨some kind, more⟩

/-- The length of the longest run of characters of a class at the front. -/
def runLength (member : Char → Bool) (cs : List Char) : Nat := (cs.takeWhile member).length

/-- A comment to the end of its line, line end included. -/
def lineComment (rest : List Char) : Nat :=
  let line := runLength (· != '\n') rest
  if line < rest.length then line + 1 else line

/-- What is passed over up to and including a closing mark, or all of an unclosed rest. -/
def throughMark (mark rest : List Char) : Nat :=
  match Text.splitAtFirst? mark rest with
  | some (before, _) => before.length + mark.length
  | none => rest.length

/-- A bare name: reserved, or a word. -/
def name (first : Char) (rest : List Char) : Lexeme :=
  let more := runLength Text.continuesName rest
  let text := String.ofList (first :: rest.take more)
  match Keyword.ofWord? text with
  | some keyword => token (.keyword keyword) more
  | none => token (.word text) more

/-- The length of a fraction: a point that no name follows, and the digits after it. -/
def fractionLength : List Char → Nat
  | '.' :: rest =>
      if (rest.head?.any Text.startsName) then 0 else 1 + runLength Text.isDigit rest
  | _ => 0

/-- The length of an exponent: the letter, an optional sign, and at least one digit. -/
def exponentLength : List Char → Nat
  | letter :: rest =>
      if letter == 'e' || letter == 'E' then
        let signed := rest.head?.any fun sign => sign == '+' || sign == '-'
        let digits := if signed then rest.drop 1 else rest
        if digits.head?.any Text.isDigit then
          (if signed then 2 else 1) + runLength Text.isDigit digits
        else 0
      else 0
  | [] => 0

/-- A number, which is an integer unless it has a fraction or an exponent. -/
def number (cs : List Char) : Lexeme :=
  let digits := runLength Text.isDigit cs
  let fraction := fractionLength (cs.drop digits)
  let exponent := exponentLength (cs.drop (digits + fraction))
  let kind := if fraction + exponent == 0 then TokenKind.integer else TokenKind.decimal
  token kind (digits + fraction + exponent - 1)

/-- The value, the length and the closing of a name in backticks, read after the opening one. -/
def quotedBody : List Char → List Char × Nat × Bool
  | [] => ([], 0, false)
  | '\x60' :: '\x60' :: rest =>
      let (value, length, terminated) := quotedBody rest
      ('\x60' :: value, length + 2, terminated)
  | '\x60' :: _ => ([], 1, true)
  | c :: rest =>
      let (value, length, terminated) := quotedBody rest
      (c :: value, length + 1, terminated)

def quotedName (rest : List Char) : Lexeme :=
  let (value, length, terminated) := quotedBody rest
  token (.quoted (String.ofList value) terminated) length

/-- What a character after a backslash stands for; an unknown one keeps its backslash. -/
def escaped : Char → List Char
  | 'n' => ['\n']
  | 't' => ['\t']
  | 'r' => ['\r']
  | '\x22' => ['\x22']
  | '\\' => ['\\']
  | c => ['\\', c]

/-- The value, the length and the closing of a string, read after the opening quote. -/
def stringBody : List Char → List Char × Nat × Bool
  | [] => ([], 0, false)
  | ['\\'] => (['\\'], 1, false)
  | '\\' :: c :: rest =>
      let (value, length, terminated) := stringBody rest
      (escaped c ++ value, length + 2, terminated)
  | '\x22' :: _ => ([], 1, true)
  | c :: rest =>
      let (value, length, terminated) := stringBody rest
      (c :: value, length + 1, terminated)

def tripleQuote : List Char := ['\x22', '\x22', '\x22']

/-- A string whose value is the raw text between triple quotes. -/
def rawString (rest : List Char) : Lexeme :=
  match Text.splitAtFirst? tripleQuote rest with
  | some (value, _) => token (.string (String.ofList value) true) (2 + value.length + 3)
  | none => token (.string (String.ofList rest) false) (2 + rest.length)

/-- A string, read after its first quote. -/
def quotedString : List Char → Lexeme
  | '\x22' :: '\x22' :: rest => rawString rest
  | rest =>
      let (value, length, terminated) := stringBody rest
      token (.string (String.ofList value) terminated) length

def parameter (rest : List Char) : Lexeme :=
  let more := runLength Text.continuesName rest
  token (.param (String.ofList (rest.take more))) more

/-- An operator or a mark of one or two characters. -/
def mark : Char → Option Char → Lexeme
  | '=', some '=' => token .equal 1
  | '!', some '=' => token .notEqual 1
  | '<', some '=' => token .lessEqual 1
  | '>', some '=' => token .greaterEqual 1
  | ':', some ':' => token .doubleColon 1
  | '=', _ => token .assign 0
  | '<', _ => token .less 0
  | '>', _ => token .greater 0
  | ':', _ => token .colon 0
  | '|', _ => token .pipe 0
  | ',', _ => token .comma 0
  | '.', _ => token .dot 0
  | '(', _ => token .openParen 0
  | ')', _ => token .closeParen 0
  | '[', _ => token .openBracket 0
  | ']', _ => token .closeBracket 0
  | '+', _ => token .plus 0
  | '-', _ => token .minus 0
  | '*', _ => token .star 0
  | '/', _ => token .slash 0
  | '%', _ => token .percent 0
  | c, _ => token (.other c) 0

/-- A number starts with a digit, or with a point before a digit unless a token ends there. -/
def startsNumber (glued : Bool) (first : Char) (rest : List Char) : Bool :=
  Text.isDigit first || (first == '.' && rest.head?.any Text.isDigit && !glued)

/-- The lexeme that starts with `first`. `glued` says that a token ends right before it. -/
def read (glued : Bool) (first : Char) (rest : List Char) : Lexeme :=
  if Text.isBlank first then skip 0
  else if first == '/' && rest.head? == some '/' then skip (1 + lineComment (rest.drop 1))
  else if first == '/' && rest.head? == some '*' then skip (1 + throughMark ['*', '/'] (rest.drop 1))
  else if Text.startsName first then name first rest
  else if startsNumber glued first rest then number (first :: rest)
  else if first == '\x60' then quotedName rest
  else if first == '\x22' then quotedString rest
  else if first == '?' then parameter rest
  else mark first rest.head?

end Lexeme

namespace Token

/-- Scans the characters that start at byte `offset`, after passing over `pending` of them. -/
def scanFrom : List Char → (pending : Nat) → (glued : Bool) → (offset : Nat) → List Token
  | [], _, _, _ => []
  | c :: rest, pending + 1, glued, offset => scanFrom rest pending glued (offset + c.utf8Size)
  | c :: rest, 0, glued, offset =>
      let lexeme := Lexeme.read glued c rest
      let next := offset + c.utf8Size
      match lexeme.kind? with
      | none => scanFrom rest lexeme.more false next
      | some kind =>
          let chars := c :: rest.take lexeme.more
          ⟨kind, String.ofList chars, ⟨offset, offset + Text.width chars⟩⟩ ::
            scanFrom rest lexeme.more true next

/-- The tokens of a text, in order. -/
def scan (text : String) : List Token := scanFrom text.toList 0 false 0

theorem scanFrom_pending (cs : List Char) (pending : Nat) (glued : Bool) (offset : Nat) :
    scanFrom cs pending glued offset =
      scanFrom (cs.drop pending) 0 glued (offset + Text.width (cs.take pending)) := by
  induction cs generalizing pending offset with
  | nil => simp [scanFrom]
  | cons c rest ih =>
      cases pending with
      | zero => rfl
      | succ pending =>
          rw [scanFrom, ih, List.drop_succ_cons, List.take_succ_cons, Text.width, Nat.add_assoc]

end Token

end Esql
