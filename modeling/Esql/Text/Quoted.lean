import Esql.Keyword

/-!
# Quoted names

A name that could not be read back bare is written in backticks, with each backtick inside it
doubled. Reading a written name drops the backticks that open and close a quoted stretch.
-/

namespace Esql.Text.Quoted

/-- Each backtick doubled. -/
def encode : List Char → List Char
  | [] => []
  | c :: cs => if c == '\x60' then '\x60' :: '\x60' :: encode cs else c :: encode cs

/-- Characters that a bare name may hold. -/
def isBareChar (c : Char) : Bool := isAlphanumeric c || c == '_' || c == '.' || c == '@'

/-- Two points stand side by side. -/
def hasEmptySegment (cs : List Char) : Bool := (splitAtFirst? ['.', '.'] cs).isSome

/-- The name cannot be written bare. -/
def needsQuotes (name : String) : Bool :=
  match name.toList with
  | [] => true
  | first :: rest =>
      !startsName first
        || (Keyword.ofWord? name).isSome
        || !(first :: rest).all isBareChar
        || (first :: rest).getLast? == some '.'
        || hasEmptySegment (first :: rest)

/-- The name as it is written in a query. -/
def write (name : String) : String :=
  if needsQuotes name then String.ofList ('\x60' :: (encode name.toList ++ ['\x60'])) else name

/-- The characters of a written name without its quotes. `inside` says whether a quoted stretch is
open; only there does a doubled backtick stand for one. -/
def decode : (inside : Bool) → List Char → List Char
  | _, [] => []
  | true, '\x60' :: '\x60' :: rest => '\x60' :: decode true rest
  | inside, c :: rest => if c == '\x60' then decode (!inside) rest else c :: decode inside rest

/-- The name that a written name stands for. -/
def read (written : String) : String := String.ofList (decode false written.toList)

theorem length_le_encode (name : List Char) : name.length ≤ (encode name).length := by
  induction name with
  | nil => exact Nat.le_refl _
  | cons c name ih =>
      rw [encode]
      split <;> simp only [List.length_cons] <;> omega

theorem decode_encode_append (name rest : List Char) (closed : rest.head? ≠ some '\x60') :
    decode true (encode name ++ '\x60' :: rest) = name ++ decode false rest := by
  induction name with
  | nil =>
      cases rest with
      | nil => simp [encode, decode]
      | cons c cs =>
          have other : c ≠ '\x60' := by simpa using closed
          simp [encode, decode, other]
  | cons c cs ih =>
      by_cases tick : c = '\x60'
      · subst tick
        simp [encode, decode, ih]
      · simp [encode, decode, tick, ih]

end Esql.Text.Quoted
