import Esql.Span
import Esql.Text.Letter

/-!
# Text

Operations on strings that the language needs in many places: ASCII case folding, trimming,
byte widths, and slices by byte offset. Each is a function of the list of characters, so that
it can be reasoned about by induction on that list.
-/

namespace Esql.Text

/-- The text with its ASCII letters in lower case; all other characters stay. -/
def lower (text : String) : String := String.ofList (text.toList.map Char.toLower)

/-- The text with its ASCII letters in upper case; all other characters stay. -/
def upper (text : String) : String := String.ofList (text.toList.map Char.toUpper)

/-- Equality of two texts up to the case of ASCII letters. -/
def sameWord (first second : String) : Bool := lower first == lower second

/-- The number of bytes of a list of characters. -/
def width : List Char → Nat
  | [] => 0
  | c :: cs => c.utf8Size + width cs

theorem width_append (first second : List Char) :
    width (first ++ second) = width first + width second := by
  induction first with
  | nil => simp [width]
  | cons c cs ih => simp [width, ih, Nat.add_assoc]

/-- The number of bytes of a text. -/
def byteLength (text : String) : Nat := width text.toList

/-- What follows the first `count` bytes, unless they end inside a character or beyond the end. -/
def dropBytes? : List Char → Nat → Option (List Char)
  | cs, 0 => some cs
  | [], _ + 1 => none
  | c :: cs, count + 1 =>
      if c.utf8Size ≤ count + 1 then dropBytes? cs (count + 1 - c.utf8Size) else none

/-- The first `count` bytes, unless they end inside a character or beyond the end. -/
def takeBytes? : List Char → Nat → Option (List Char)
  | _, 0 => some []
  | [], _ + 1 => none
  | c :: cs, count + 1 =>
      if c.utf8Size ≤ count + 1 then
        (takeBytes? cs (count + 1 - c.utf8Size)).map (c :: ·)
      else none

/-- The bytes from `start` up to `stop`, clamped to the text, and nothing at all if one of the two
ends lies inside a character. -/
def sliceChars (cs : List Char) (start stop : Nat) : List Char :=
  let stop := min stop (width cs)
  let start := min start stop
  (((dropBytes? cs start).bind (takeBytes? · (stop - start)))).getD []

/-- Without the blanks at the front. -/
def trimStartChars (cs : List Char) : List Char := cs.dropWhile isBlank

/-- Without the blanks at either end. -/
def trimChars (cs : List Char) : List Char :=
  (trimStartChars (trimStartChars cs).reverse).reverse

/-- The text without the blanks at either end. -/
def trim (text : String) : String := String.ofList (trimChars text.toList)

/-- The text begins with these characters. -/
def startsWith (text start : String) : Bool := start.toList.isPrefixOf text.toList

/-- The text ends with these characters. -/
def endsWith (text ending : String) : Bool := ending.toList.isSuffixOf text.toList

/-- The characters before and after the first occurrence of a separator. -/
def splitAtFirst? (separator : List Char) : List Char → Option (List Char × List Char)
  | [] => if separator.isEmpty then some ([], []) else none
  | c :: cs =>
      if separator.isPrefixOf (c :: cs) then some ([], (c :: cs).drop separator.length)
      else (splitAtFirst? separator cs).map fun parts => (c :: parts.1, parts.2)

theorem splitAtFirst?_append {separator cs before rest : List Char}
    (found : splitAtFirst? separator cs = some (before, rest)) :
    cs = before ++ separator ++ rest := by
  induction cs generalizing before rest with
  | nil =>
      unfold splitAtFirst? at found
      split at found
      · rename_i empty
        simp_all [List.isEmpty_iff]
      · simp at found
  | cons c cs ih =>
      unfold splitAtFirst? at found
      split at found
      · rename_i starts
        obtain ⟨tail, tailEq⟩ := List.isPrefixOf_iff_prefix.mp starts
        simp only [Option.some.injEq, Prod.mk.injEq] at found
        obtain ⟨rfl, rfl⟩ := found
        simp [← tailEq]
      · obtain ⟨parts, inner, equal⟩ := Option.map_eq_some_iff.mp found
        simp only [Prod.mk.injEq] at equal
        obtain ⟨rfl, rfl⟩ := equal
        simp [ih inner]

/-- The stretches between the occurrences of a separator, one more than there are of them. -/
def pieces (separator : Char) : List Char → List (List Char)
  | [] => [[]]
  | c :: cs =>
      if c == separator then [] :: pieces separator cs
      else
        match pieces separator cs with
        | [] => [[c]]
        | piece :: rest => (c :: piece) :: rest

/-- The separator occurs somewhere in the text. -/
def contains (text part : String) : Bool := (splitAtFirst? part.toList text.toList).isSome

/-- Texts joined with a separator between each two. -/
def join (separator : String) : List String → String
  | [] => ""
  | [only] => only
  | first :: second :: rest => first ++ separator ++ join separator (second :: rest)

end Esql.Text

namespace Esql.Span

/-- The part of a text under a span. -/
def slice (span : Span) (text : String) : String :=
  String.ofList (Text.sliceChars text.toList span.start span.stop)

end Esql.Span
