import Esql.Text.Alphabetic
import Esql.Text.Numeric

/-!
# Character classes

The classes of characters that the language tells apart: letters and numbers of any script for
names, blanks of any script between words, and ASCII digits for numbers.
-/

namespace Esql.Text

/-- The code point lies in one of the ranges. -/
def inRanges (code : Nat) (ranges : List (Nat × Nat)) : Bool :=
  ranges.any fun range => range.1 ≤ code && code ≤ range.2

/-- A letter of any script. -/
def isAlphabetic (c : Char) : Bool :=
  if c.toNat < 128 then c.isAlpha else inRanges c.toNat Alphabetic.ranges

/-- A letter or a number of any script. -/
def isAlphanumeric (c : Char) : Bool :=
  if c.toNat < 128 then c.isAlphanum
  else inRanges c.toNat Alphabetic.ranges || inRanges c.toNat Numeric.ranges

/-- The digits of numbers are ASCII only. -/
def isDigit (c : Char) : Bool := c.isDigit

/-- The code points with the property White_Space. -/
def blankRanges : List (Nat × Nat) :=
  [(0x09, 0x0D), (0x20, 0x20), (0x85, 0x85), (0xA0, 0xA0), (0x1680, 0x1680), (0x2000, 0x200A),
   (0x2028, 0x2029), (0x202F, 0x202F), (0x205F, 0x205F), (0x3000, 0x3000)]

/-- A blank of any script, line ends included. -/
def isBlank (c : Char) : Bool := inRanges c.toNat blankRanges

/-- A name starts with a letter, an underscore or an at sign. -/
def startsName (c : Char) : Bool := isAlphabetic c || c == '_' || c == '@'

/-- A name goes on with letters, numbers and underscores. -/
def continuesName (c : Char) : Bool := isAlphanumeric c || c == '_'

theorem isAlphanumeric_of_isAlphabetic {c : Char} (letter : isAlphabetic c = true) :
    isAlphanumeric c = true := by
  unfold isAlphabetic at letter
  unfold isAlphanumeric
  split
  · rename_i ascii
    rw [if_pos ascii] at letter
    simp [Char.isAlphanum, letter]
  · rename_i beyond
    rw [if_neg beyond] at letter
    simp [letter]

end Esql.Text
