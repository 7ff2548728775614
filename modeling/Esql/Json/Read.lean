import Esql.Json.Basic
import Esql.Text.Basic

/-!
# Reading JSON

A strict reader: one value, with blanks around it and nothing else. The recursion is bounded by
the length of the text, since every nested value takes at least one character.
-/

namespace Esql.Json

/-- The four blanks of the format. -/
def isSpace (c : Char) : Bool := c == ' ' || c == '\n' || c == '\t' || c == '\x0d'

def skipSpace (cs : List Char) : List Char := cs.dropWhile isSpace

def hexDigit? (c : Char) : Option Nat :=
  if c.isDigit then some (c.toNat - '0'.toNat)
  else if 'a' ≤ c ∧ c ≤ 'f' then some (c.toNat - 'a'.toNat + 10)
  else if 'A' ≤ c ∧ c ≤ 'F' then some (c.toNat - 'A'.toNat + 10)
  else none

/-- The code unit written by four hexadecimal digits. -/
def codeUnit? : List Char → Option (Nat × List Char)
  | a :: b :: c :: d :: rest => do
      let unit := (((← hexDigit? a) * 16 + (← hexDigit? b)) * 16 + (← hexDigit? c)) * 16
      pure (unit + (← hexDigit? d), rest)
  | _ => none

def isHighSurrogate (unit : Nat) : Bool := 0xD800 ≤ unit && unit ≤ 0xDBFF

def isLowSurrogate (unit : Nat) : Bool := 0xDC00 ≤ unit && unit ≤ 0xDFFF

/-- The character of a surrogate pair. -/
def pairChar (high low : Nat) : Char :=
  Char.ofNat (0x10000 + (high - 0xD800) * 0x400 + (low - 0xDC00))

/-- What a single letter after a backslash stands for. -/
def plainEscape? : Char → Option Char
  | '\x22' => some '\x22'
  | '\\' => some '\\'
  | '/' => some '/'
  | 'b' => some '\x08'
  | 'f' => some '\x0c'
  | 'n' => some '\n'
  | 'r' => some '\x0d'
  | 't' => some '\t'
  | _ => none

/-- The characters of a string after its opening quote, and what follows its closing one. A unit
that is half a pair makes the value absent, but the string is read on. -/
def stringBody : Nat → List Char → Option (Option (List Char) × List Char)
  | 0, _ => none
  | fuel + 1, cs =>
      match cs with
      | [] => none
      | '\x22' :: rest => some (some [], rest)
      | '\\' :: 'u' :: rest => do
          let (unit, rest) ← codeUnit? rest
          if isHighSurrogate unit then
            match rest with
            | '\\' :: 'u' :: more =>
                let (low, after) ← codeUnit? more
                if isLowSurrogate low then
                  let (tail, rest) ← stringBody fuel after
                  pure (tail.map (pairChar unit low :: ·), rest)
                else
                  let (_, rest) ← stringBody fuel rest
                  pure (none, rest)
            | _ =>
                let (_, rest) ← stringBody fuel rest
                pure (none, rest)
          else
            let (tail, rest) ← stringBody fuel rest
            if isLowSurrogate unit then pure (none, rest)
            else pure (tail.map (Char.ofNat unit :: ·), rest)
      | '\\' :: c :: rest => do
          let plain ← plainEscape? c
          let (tail, rest) ← stringBody fuel rest
          pure (tail.map (plain :: ·), rest)
      | c :: rest =>
          if c.toNat < 0x20 || c == '\\' then none
          else do
            let (tail, rest) ← stringBody fuel rest
            pure (tail.map (c :: ·), rest)

/-- The value of a string after its opening quote. -/
def readString (cs : List Char) : Option (Option String × List Char) :=
  (stringBody (cs.length + 1) cs).map fun read => (read.1.map String.ofList, read.2)

/-- At least one digit. -/
def digits? (cs : List Char) : Option (List Char × List Char) :=
  match cs.takeWhile Char.isDigit with
  | [] => none
  | run => some (run, cs.drop run.length)

/-- The whole part of a number, which starts with zero only if it is zero. -/
def whole? : List Char → Option (List Char × List Char)
  | '0' :: rest => if rest.head?.any Char.isDigit then none else some (['0'], rest)
  | cs => digits? cs

def fraction? : List Char → Option (List Char × List Char)
  | '.' :: rest => (digits? rest).map fun read => ('.' :: read.1, read.2)
  | cs => some ([], cs)

def exponent? : List Char → Option (List Char × List Char)
  | 'e' :: rest | 'E' :: rest =>
      match rest with
      | '+' :: rest => (digits? rest).map fun read => ('e' :: read.1, read.2)
      | '-' :: rest => (digits? rest).map fun read => ('e' :: '-' :: read.1, read.2)
      | rest => (digits? rest).map fun read => ('e' :: read.1, read.2)
  | cs => some ([], cs)

def readNumber (cs : List Char) : Option (Json × List Char) := do
  let (sign, rest) := match cs with
    | '-' :: rest => (['-'], rest)
    | rest => ([], rest)
  let (whole, rest) ← whole? rest
  let (fraction, rest) ← fraction? rest
  let (exponent, rest) ← exponent? rest
  pure (.number (String.ofList (sign ++ whole ++ fraction ++ exponent)), rest)

/-- A fixed word at the front. -/
def readWord (word : String) (value : Json) (cs : List Char) : Option (Json × List Char) :=
  if word.toList.isPrefixOf cs then some (value, cs.drop word.length) else none

mutual

/-- A value, with the blanks before it. -/
def readValue : Nat → List Char → Option (Json × List Char)
  | 0, _ => none
  | fuel + 1, cs =>
      match skipSpace cs with
      | [] => none
      | '\x7b' :: rest =>
          match skipSpace rest with
          | '\x7d' :: rest => some (.object [], rest)
          | rest => (readFields fuel rest).map fun read => (.object read.1, read.2)
      | '[' :: rest =>
          match skipSpace rest with
          | ']' :: rest => some (.array [], rest)
          | rest => (readItems fuel rest).map fun read => (.array read.1, read.2)
      | '\x22' :: rest => (readString rest).map fun read => (.string read.1, read.2)
      | c :: rest =>
          if c == 'n' then readWord "null" .null (c :: rest)
          else if c == 't' then readWord "true" (.bool true) (c :: rest)
          else if c == 'f' then readWord "false" (.bool false) (c :: rest)
          else readNumber (c :: rest)

/-- The items of an array up to its closing bracket; there is at least one. -/
def readItems : Nat → List Char → Option (List Json × List Char)
  | 0, _ => none
  | fuel + 1, cs => do
      let (item, rest) ← readValue fuel cs
      match skipSpace rest with
      | ',' :: rest =>
          let (items, rest) ← readItems fuel rest
          pure (item :: items, rest)
      | ']' :: rest => pure ([item], rest)
      | _ => none

/-- The fields of an object up to its closing brace; there is at least one. -/
def readFields : Nat → List Char → Option (List (Option String × Json) × List Char)
  | 0, _ => none
  | fuel + 1, cs =>
      match skipSpace cs with
      | '\x22' :: rest => do
          let (name, rest) ← readString rest
          match skipSpace rest with
          | ':' :: rest =>
              let (value, rest) ← readValue fuel rest
              match skipSpace rest with
              | ',' :: rest =>
                  let (fields, rest) ← readFields fuel rest
                  pure ((name, value) :: fields, rest)
              | '\x7d' :: rest => pure ([(name, value)], rest)
              | _ => none
          | _ => none
      | _ => none

end

/-- The single value that a text holds. -/
def parse? (written : String) : Option Json :=
  let cs := written.toList
  match readValue (2 * cs.length + 2) cs with
  | some (value, rest) => if (skipSpace rest).isEmpty then some value else none
  | none => none

end Esql.Json
