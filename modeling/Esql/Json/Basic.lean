/-!
# JSON values

The values of the data format in which schema documents are read and results are written. An
object keeps its fields in the order written, repeated names included, so that a reader of
records can refuse a repetition. A string is absent when its escapes spell half of a surrogate
pair, which no text can hold; such a string is harmless where it is not needed.
-/

namespace Esql

inductive Json where
  | null
  | bool (value : Bool)
  /-- A number, as it is written. -/
  | number (text : String)
  | string (value : Option String)
  | array (items : List Json)
  | object (fields : List (Option String × Json))
deriving Repr, Inhabited

namespace Json

def text (value : String) : Json := .string (some value)

def nat (value : Nat) : Json := .number (toString value)

/-- An object with plain field names. -/
def record (fields : List (String × Json)) : Json :=
  .object (fields.map fun field => (some field.1, field.2))

/-- The value, or null when it is absent. -/
def orNull (value : Option Json) : Json := value.getD .null

def textOrNull (value : Option String) : Json := orNull (value.map text)

def texts (values : List String) : Json := .array (values.map text)

/-- The last field with this name, as the later of two assignments wins. -/
def field? (value : Json) (name : String) : Option Json :=
  match value with
  | .object fields => (fields.reverse.find? fun field => field.1 == some name).map (·.2)
  | _ => none

def text? : Json → Option String
  | .string value => value
  | _ => none

def bool? : Json → Option Bool
  | .bool value => some value
  | _ => none

def array? : Json → Option (List Json)
  | .array items => some items
  | _ => none

/-- The value of a number written as an unsigned integer. -/
def nat? : Json → Option Nat
  | .number written => if written.toList.all Char.isDigit then written.toNat? else none
  | _ => none

def isNull : Json → Bool
  | .null => true
  | _ => false

end Json

end Esql
