import Esql.Text.Basic

/-!
# Field types

The types of columns and values, and their names in schema data. Schema data uses more names than
there are types: several names stand for one type, and an unknown name is an unsupported type.
-/

namespace Esql

inductive FieldType where
  | boolean
  | integer
  | long
  | unsignedLong
  | double
  | keyword
  | text
  | date
  | dateNanos
  | ip
  | version
  | geoPoint
  | geoShape
  | cartesianPoint
  | cartesianShape
  | timeDuration
  | datePeriod
  | null
  | unsupported
deriving Repr, BEq, DecidableEq, ReflBEq, LawfulBEq

namespace FieldType

/-- The name of a type, in lower case with underscores. -/
def name : FieldType → String
  | .boolean => "boolean"
  | .integer => "integer"
  | .long => "long"
  | .unsignedLong => "unsigned_long"
  | .double => "double"
  | .keyword => "keyword"
  | .text => "text"
  | .date => "date"
  | .dateNanos => "date_nanos"
  | .ip => "ip"
  | .version => "version"
  | .geoPoint => "geo_point"
  | .geoShape => "geo_shape"
  | .cartesianPoint => "cartesian_point"
  | .cartesianShape => "cartesian_shape"
  | .timeDuration => "time_duration"
  | .datePeriod => "date_period"
  | .null => "null"
  | .unsupported => "unsupported"

def all : List FieldType :=
  [.boolean, .integer, .long, .unsignedLong, .double, .keyword, .text, .date, .dateNanos, .ip,
   .version, .geoPoint, .geoShape, .cartesianPoint, .cartesianShape, .timeDuration, .datePeriod,
   .null, .unsupported]

/-- The types that a stored column can have. -/
def supported : List FieldType :=
  [.boolean, .integer, .long, .unsignedLong, .double, .keyword, .text, .date, .dateNanos, .ip,
   .version, .geoPoint, .geoShape, .cartesianPoint, .cartesianShape]

/-- The types that a value of an expression can have, intervals included. -/
def valueTypes : List FieldType := supported ++ [.timeDuration, .datePeriod]

/-- The type that a lower-case mapping name stands for. -/
def ofLower? : String → Option FieldType
  | "boolean" | "bool" => some .boolean
  | "integer" | "int" | "short" | "byte" => some .integer
  | "long" | "counter_long" => some .long
  | "unsigned_long" => some .unsignedLong
  | "double" | "float" | "half_float" | "scaled_float" | "counter_double" => some .double
  | "keyword" | "string" | "constant_keyword" | "wildcard" => some .keyword
  | "text" | "match_only_text" | "semantic_text" => some .text
  | "date" | "datetime" => some .date
  | "date_nanos" => some .dateNanos
  | "ip" => some .ip
  | "version" => some .version
  | "geo_point" => some .geoPoint
  | "geo_shape" => some .geoShape
  | "cartesian_point" => some .cartesianPoint
  | "cartesian_shape" => some .cartesianShape
  | "time_duration" => some .timeDuration
  | "date_period" => some .datePeriod
  | "null" => some .null
  | "unsupported" => some .unsupported
  | _ => none

/-- A mapping name that stands for no type, in lower case. -/
structure Unknown where
  name : String
deriving Repr, DecidableEq

def Unknown.message (unknown : Unknown) : String := "unknown field type [" ++ unknown.name ++ "]"

/-- The type that a mapping name in any case stands for. -/
def parse (written : String) : Except Unknown FieldType :=
  let lower := Text.lower written
  match ofLower? lower with
  | some type => .ok type
  | none => .error ⟨lower⟩

/-- The type of a schema column; an unknown mapping is unsupported. -/
def ofMapping (written : String) : FieldType := (ofLower? (Text.lower written)).getD .unsupported

def isNumeric : FieldType → Bool
  | .integer | .long | .unsignedLong | .double => true
  | _ => false

def isString : FieldType → Bool
  | .keyword | .text => true
  | _ => false

def isDate : FieldType → Bool
  | .date | .dateNanos => true
  | _ => false

def isSpatial : FieldType → Bool
  | .geoPoint | .geoShape | .cartesianPoint | .cartesianShape => true
  | _ => false

def isPoint : FieldType → Bool
  | .geoPoint | .cartesianPoint => true
  | _ => false

def isInterval : FieldType → Bool
  | .timeDuration | .datePeriod => true
  | _ => false

/-- Types that a quoted literal can stand for where they are expected. -/
def isReadFromText : FieldType → Bool
  | .ip | .version | .date | .dateNanos => true
  | type => type.isSpatial

/-- The width of a numeric type; a mixed calculation has the widest type. -/
def numericRank : FieldType → Nat
  | .integer => 1
  | .long => 2
  | .unsignedLong => 3
  | .double => 4
  | _ => 0

/-- The wider of a known type and a further one. -/
def wider (widest : Option FieldType) (type : FieldType) : Option FieldType :=
  match widest with
  | none => some type
  | some known => if known.numericRank ≤ type.numericRank then some type else some known

/-- The widest of the numeric types in a list. -/
def widest (types : List FieldType) : Option FieldType :=
  (types.filter isNumeric).foldl wider none

theorem mem_all (type : FieldType) : type ∈ all := by cases type <;> decide

theorem ofLower?_name (type : FieldType) : ofLower? type.name = some type := by
  cases type <;> decide

end FieldType

end Esql
