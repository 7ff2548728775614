import Esql.Text.Basic

/-!
# Wildcard patterns

In a pattern a star stands for any run of characters, and every other character for itself. A
pattern is matched one character at a time, with all the ends of the name that may still follow.
-/

namespace Esql.Text

/-- All ends of a list, the longest one first. -/
def suffixes : List Char → List (List Char)
  | [] => [[]]
  | c :: cs => (c :: cs) :: suffixes cs

/-- What follows a given character. -/
def afterChar? (c : Char) : List Char → Option (List Char)
  | [] => none
  | first :: rest => if first == c then some rest else none

/-- The possible rests of a name after one more character of the pattern, the longest one first.
Every end of a shorter rest is also an end of the longest. -/
def globStep (rests : List (List Char)) (c : Char) : List (List Char) :=
  if c == '*' then (rests.head?.map suffixes).getD []
  else rests.filterMap (afterChar? c)

/-- The name arises from the pattern by putting some run of characters for each star. -/
def globMatch (pattern name : String) : Bool :=
  (pattern.toList.foldl globStep [name.toList]).any List.isEmpty

/-- The text holds a star. -/
def hasStar (text : String) : Bool := text.toList.contains '*'

theorem mem_suffixes {rest cs : List Char} : rest ∈ suffixes cs ↔ rest <:+ cs := by
  induction cs with
  | nil => simp [suffixes, List.suffix_nil]
  | cons c cs ih => simp [suffixes, ih, List.suffix_cons_iff]

theorem afterChar?_eq_some_iff {c : Char} {cs rest : List Char} :
    afterChar? c cs = some rest ↔ cs = c :: rest := by
  cases cs with
  | nil => simp [afterChar?]
  | cons first tail =>
      by_cases same : first = c <;> simp [afterChar?, same]

end Esql.Text
