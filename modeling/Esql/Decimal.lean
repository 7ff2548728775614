import Esql.Syntax.Expr

/-!
# Decimal numbers

An unsigned decimal number is a whole number of units of a negative or positive power of ten. A
number counts as a probability if the double nearest to it lies strictly between zero and one,
where a number halfway between two doubles goes to the even one. Zero is nearest up to `2⁻¹⁰⁷⁵`,
and one is nearest from `1 - 2⁻⁵⁴` on.
-/

namespace Esql

/-- The number `units * 10 ^ exponent`. -/
structure Decimal where
  units : Nat
  exponent : Int
deriving Repr, BEq, DecidableEq

namespace Decimal

/-- The exponent written behind the digits of a number. -/
def exponentOf? : List Char → Option Int
  | [] => some 0
  | mark :: written =>
      if mark == 'e' || mark == 'E' then readInt? (String.ofList written) else none

/-- The number with these digits before and behind the point, and what follows them. -/
def ofParts? (whole fraction rest : List Char) : Option Decimal := do
  if whole.isEmpty && fraction.isEmpty then none
  else pure ⟨digitsValue (whole ++ fraction), (← exponentOf? rest) - fraction.length⟩

/-- The number that a text writes, with a point and an exponent or without. -/
def read? (written : String) : Option Decimal :=
  let whole := written.toList.takeWhile Char.isDigit
  match written.toList.dropWhile Char.isDigit with
  | '.' :: rest => ofParts? whole (rest.takeWhile Char.isDigit) (rest.dropWhile Char.isDigit)
  | rest => ofParts? whole [] rest

/-- The number of decimal digits. -/
def digitCount (value : Nat) : Nat := (toString value).length

/-- A number `units / scale` is nearer to some positive double below one than to zero or one. -/
def nearInside (units scale : Nat) : Bool :=
  scale < units * Nat.pow 2 1075 && units * Nat.pow 2 54 < (Nat.pow 2 54 - 1) * scale

/-- The double nearest to the number lies strictly between zero and one. The position of the first
digit settles all numbers that are far from both, however long their exponents are. -/
def isProbability (number : Decimal) : Bool :=
  let magnitude : Int := number.exponent + digitCount number.units
  if number.units == 0 || 0 < magnitude || magnitude < -324 then false
  else nearInside number.units (Nat.pow 10 (-number.exponent).toNat)

end Decimal

namespace Literal

/-- The literal is a number that counts as a probability. -/
def isProbability (literal : Literal) : Bool :=
  literal.isNumeric && (Decimal.read? literal.value).any Decimal.isProbability

end Literal

end Esql
