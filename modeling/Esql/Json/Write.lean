import Esql.Json.Basic

/-!
# Writing JSON

Two layouts of one value: everything on one line, and one item or field a line with two blanks
for each level. An empty array or object is always written on one line. Only quotes, backslashes
and control characters are escaped.
-/

namespace Esql.Json

def hexDigit (value : Nat) : Char :=
  if value < 10 then Char.ofNat ('0'.toNat + value) else Char.ofNat ('a'.toNat + value - 10)

/-- The written form of one character of a string. -/
def escapeChar (c : Char) : List Char :=
  if c == '\x22' then ['\\', '\x22']
  else if c == '\\' then ['\\', '\\']
  else if c == '\n' then ['\\', 'n']
  else if c == '\x0d' then ['\\', 'r']
  else if c == '\t' then ['\\', 't']
  else if c == '\x08' then ['\\', 'b']
  else if c == '\x0c' then ['\\', 'f']
  else if c.toNat < 0x20 then ['\\', 'u', '0', '0', hexDigit (c.toNat / 16), hexDigit (c.toNat % 16)]
  else [c]

/-- A string between quotes. -/
def writeString (value : String) : String :=
  String.ofList ('\x22' :: (value.toList.flatMap escapeChar ++ ['\x22']))

/-- The line break and the indentation of a level. -/
def newLine (level : Nat) : String := String.ofList ('\n' :: List.replicate (2 * level) ' ')

mutual

/-- The layout on one line. -/
def compact : Json → String
  | .null => "null"
  | .bool value => if value then "true" else "false"
  | .number written => written
  | .string value => writeString (value.getD "")
  | .array [] => "[]"
  | .array (item :: items) => "[" ++ compact item ++ compactItems items
  | .object [] => "\x7b\x7d"
  | .object ((name, value) :: fields) =>
      "\x7b" ++ writeString (name.getD "") ++ ":" ++ compact value ++ compactFields fields

def compactItems : List Json → String
  | [] => "]"
  | item :: items => "," ++ compact item ++ compactItems items

def compactFields : List (Option String × Json) → String
  | [] => "\x7d"
  | (name, value) :: fields =>
      "," ++ writeString (name.getD "") ++ ":" ++ compact value ++ compactFields fields

end

mutual

/-- The layout over several lines, at a level of indentation. -/
def prettyAt (level : Nat) : Json → String
  | .null => "null"
  | .bool value => if value then "true" else "false"
  | .number written => written
  | .string value => writeString (value.getD "")
  | .array [] => "[]"
  | .array (item :: items) =>
      "[" ++ newLine (level + 1) ++ prettyAt (level + 1) item ++ prettyItems level items
  | .object [] => "\x7b\x7d"
  | .object ((name, value) :: fields) =>
      "\x7b" ++ newLine (level + 1) ++ writeString (name.getD "") ++ ": "
        ++ prettyAt (level + 1) value ++ prettyFields level fields

def prettyItems (level : Nat) : List Json → String
  | [] => newLine level ++ "]"
  | item :: items =>
      "," ++ newLine (level + 1) ++ prettyAt (level + 1) item ++ prettyItems level items

def prettyFields (level : Nat) : List (Option String × Json) → String
  | [] => newLine level ++ "\x7d"
  | (name, value) :: fields =>
      "," ++ newLine (level + 1) ++ writeString (name.getD "") ++ ": "
        ++ prettyAt (level + 1) value ++ prettyFields level fields

end

def pretty (value : Json) : String := prettyAt 0 value

end Esql.Json
