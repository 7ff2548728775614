import Esql.FieldType

/-!
# Parameter types

What a function accepts for a parameter: a family of types, one exact type, or any of several
choices. Nothing more is needed to decide whether a value can be passed, except whether it is a
quoted literal, which stands for a date, an address or a shape where one is expected.
-/

namespace Esql

inductive ParamType where
  | any
  | number
  | string
  | date
  | spatial
  | point
  | interval
  | exact (type : FieldType)
  | oneOf (choices : List ParamType)
deriving Repr, BEq

namespace ParamType

/-- Types whose values are ordered. -/
def comparable : ParamType :=
  .oneOf [.number, .string, .date, .exact .boolean, .exact .ip, .exact .version]

/-- A value of exactly this expected type, up to the two kinds of strings and quoted literals. -/
def acceptsExact (expected type : FieldType) (quoted : Bool) : Bool :=
  expected == type || (expected.isString && type.isString) || (quoted && expected.isReadFromText)

mutual

/-- A value of type `type` can be passed; `quoted` says that it is a quoted literal. -/
def accepts (type : FieldType) (quoted : Bool) : ParamType → Bool
  | .any => type == .null || type != .unsupported
  | .number => type == .null || type.isNumeric
  | .string => type == .null || type.isString
  | .date => type == .null || type.isDate || quoted
  | .spatial => type == .null || type.isSpatial || quoted
  | .point => type == .null || type.isPoint || quoted
  | .interval => type == .null || type.isInterval
  | .exact expected => type == .null || acceptsExact expected type quoted
  | .oneOf choices => type == .null || acceptsAny type quoted choices

def acceptsAny (type : FieldType) (quoted : Bool) : List ParamType → Bool
  | [] => false
  | choice :: rest => accepts type quoted choice || acceptsAny type quoted rest

end

def isAny : ParamType → Bool
  | .any => true
  | _ => false

/-- Some type of a value is accepted by both. -/
def shareType (first second : ParamType) : Bool :=
  FieldType.valueTypes.any fun type => accepts type false first && accepts type false second

mutual

/-- A parameter type without choices has a type in common with another one. -/
def leafIntersects (leaf : ParamType) : ParamType → Bool
  | .any => true
  | .oneOf choices => leafIntersectsAny leaf choices
  | .number => shareType leaf .number
  | .string => shareType leaf .string
  | .date => shareType leaf .date
  | .spatial => shareType leaf .spatial
  | .point => shareType leaf .point
  | .interval => shareType leaf .interval
  | .exact type => shareType leaf (.exact type)

def leafIntersectsAny (leaf : ParamType) : List ParamType → Bool
  | [] => false
  | choice :: rest => leafIntersects leaf choice || leafIntersectsAny leaf rest

end

mutual

/-- The two parameter types have a type in common; a choice has what one of its parts has. -/
def intersects : ParamType → ParamType → Bool
  | .any, _ => true
  | .oneOf choices, other => other.isAny || intersectsAny choices other
  | .number, other => leafIntersects .number other
  | .string, other => leafIntersects .string other
  | .date, other => leafIntersects .date other
  | .spatial, other => leafIntersects .spatial other
  | .point, other => leafIntersects .point other
  | .interval, other => leafIntersects .interval other
  | .exact type, other => leafIntersects (.exact type) other

def intersectsAny : List ParamType → ParamType → Bool
  | [], _ => false
  | choice :: rest, other => intersects choice other || intersectsAny rest other

end

mutual

/-- The name of a parameter type in diagnostics. -/
def describe : ParamType → String
  | .any => "any"
  | .number => "number"
  | .string => "keyword"
  | .date => "date"
  | .spatial => "spatial"
  | .point => "point"
  | .interval => "time_literal"
  | .exact type => type.name
  | .oneOf choices => Text.join " or " (describeAll choices)

def describeAll : List ParamType → List String
  | [] => []
  | choice :: rest => describe choice :: describeAll rest

end

theorem accepts_null (quoted : Bool) (param : ParamType) : accepts .null quoted param = true := by
  cases param <;> simp [accepts]

theorem acceptsAny_eq_any (type : FieldType) (quoted : Bool) (choices : List ParamType) :
    acceptsAny type quoted choices = choices.any (accepts type quoted) := by
  induction choices with
  | nil => rfl
  | cons choice rest ih => simp [acceptsAny, ih]

theorem intersectsAny_eq_any (choices : List ParamType) (other : ParamType) :
    intersectsAny choices other = choices.any (intersects · other) := by
  induction choices with
  | nil => rfl
  | cons choice rest ih => simp [intersectsAny, ih]

end ParamType

end Esql
