import Esql.Callable.Catalog.Entry

/-!
# Operators

Operators are callables named by their symbol, so that the operands of an expression are checked
like the arguments of a function.
-/

namespace Esql.Callable.Catalog

/-- A test on two operands of one type. -/
def pairTest (type : ParamType) : Signature :=
  takes [required "left" type, required "right" type] (.fixed .boolean)

/-- Comparisons of ordered values. -/
def orderedTests : List Signature :=
  [pairTest .number, pairTest .string, pairTest .date, pairTest (.exact .ip),
   pairTest (.exact .version)]

def ordering (name : String) : Callable := operator name "Compares two values." orderedTests

/-- Booleans and shapes can be equal, but are not ordered. -/
def equality (name : String) : Callable :=
  operator name "Compares two values."
    (orderedTests ++ [pairTest (.exact .boolean), pairTest .spatial])

def numericPair : Signature := takes [required "left" .number, required "right" .number] .widest

/-- An operation on numbers alone. -/
def multiplicative (name description : String) : Callable :=
  operator name description [numericPair]

/-- An operation on numbers, on a date and an interval, or on a single number as a sign. -/
def additive (name description : String) : Callable :=
  operator name description
    [numericPair,
     takes [required "left" .date, required "right" .interval] (.sameAs 0),
     takes [required "left" .interval, required "right" .date] (.sameAs 1),
     takes [required "value" .number] (.sameAs 0)]

def logical (name description : String) : Callable :=
  operator name description [pairTest (.exact .boolean)]

def nullTest (name description : String) : Callable :=
  operator name description [takes [required "value" .any] (.fixed .boolean)]

def membership (name description : String) : Callable :=
  operator name description
    [takes [required "value" .any, required "list" .any] (.fixed .boolean)]

def patternTest (name : String) : Callable :=
  operator name "Filters strings against a pattern."
    [takes [required "field" .string, required "pattern" .string] (.fixed .boolean)]

/-- The full text match, which only filters rows. -/
def fullTextMatch : Callable :=
  { operator ":" "Performs a full text match on the field."
      [takes [required "field" .any, constant (required "query" (.oneOf [.string, .number]))]
        (.fixed .boolean)] with
    places := [.where] }

def operators : List Callable :=
  [additive "+" "Add two values together.",
   additive "-" "Subtract one value from another.",
   multiplicative "*" "Multiply two values together.",
   multiplicative "/" "Divide one value by another.",
   multiplicative "%" "Divide one value by another and return the remainder.",
   equality "==",
   equality "!=",
   ordering "<",
   ordering "<=",
   ordering ">",
   ordering ">=",
   logical "and" "Logical AND.",
   logical "or" "Logical OR.",
   operator "not" "Logical NOT." [takes [required "value" (.exact .boolean)] (.fixed .boolean)],
   nullTest "is null" "Returns true if the value is null.",
   nullTest "is not null" "Returns true if the value is not null.",
   membership "in" "Tests whether a value is in a list.",
   membership "not in" "Tests whether a value is not in a list.",
   patternTest "like",
   patternTest "not like",
   patternTest "rlike",
   patternTest "not rlike",
   fullTextMatch]

end Esql.Callable.Catalog
