/-!
# Integers in text

Reading of decimal digits, with a sign where one is allowed, and the bounds of the integers of 32
and 64 bits. Only ASCII digits count.
-/

namespace Esql

/-- The value of a run of digits. -/
def digitsValue (digits : List Char) : Nat :=
  digits.foldl (fun value digit => 10 * value + (digit.toNat - '0'.toNat)) 0

/-- The value of at least one digit, if there is nothing else. -/
def readDigits? (digits : List Char) : Option Nat :=
  if digits.isEmpty || !digits.all Char.isDigit then none else some (digitsValue digits)

/-- The integer written by an optional sign and at least one digit. -/
def readInt? (written : String) : Option Int :=
  match written.toList with
  | '-' :: digits => (readDigits? digits).map fun value => -(value : Int)
  | '+' :: digits => (readDigits? digits).map fun value => (value : Int)
  | digits => (readDigits? digits).map fun value => (value : Int)

/-- The integer fits in a number of bits, one of which is the sign. -/
def fitsSigned (bits : Nat) (value : Int) : Bool :=
  let limit : Int := Nat.pow 2 (bits - 1)
  decide (-limit ≤ value) && decide (value < limit)

def inInt64 (value : Int) : Bool := fitsSigned 64 value

def inInt32 (value : Int) : Bool := fitsSigned 32 value

/-- The integer written by a text, if it fits in 64 bits. -/
def readInt64? (written : String) : Option Int := (readInt? written).filter inInt64

/-- The number written by an optional plus sign and at least one digit, if it fits in 64 bits
without a sign. -/
def readUnsigned64? (written : String) : Option Nat :=
  let digits := match written.toList with
    | '+' :: digits => digits
    | digits => digits
  (readDigits? digits).filter (· < Nat.pow 2 64)

end Esql
