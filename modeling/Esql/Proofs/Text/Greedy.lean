import Esql.Proofs.Text.Bare
import Esql.Proofs.Text.Glob

/-!
# Searching for the pieces of a pattern

A pattern falls into pieces at its stars. A name that matches begins with the first piece, holds
those in the middle one behind the other, and ends with the last one behind all of them. A search
that takes each piece in the middle where it stands first decides this without ever going back: of
all places for a piece, the first one leaves the longest rest, and what fits behind another place
fits there as well. So the search accepts the same names as the matcher, which follows all places at
once.
-/

namespace Esql.Text

/-! ## Putting runs for stars -/

/-- A pattern with the first run put for its first star, the second one for the second, and so on.
Stars without a run are left out. -/
def fill : List Char → List (List Char) → List Char
  | [], _ => []
  | c :: pattern, runs =>
      if c = '*' then runs.headD [] ++ fill pattern runs.tail else c :: fill pattern runs

/-- The text that a pattern becomes with these runs for its stars. -/
def filled (pattern : String) (runs : List String) : String :=
  String.ofList (fill pattern.toList (runs.map String.toList))

theorem fills_iff_fill {pattern name : List Char} :
    Fills pattern name ↔
      ∃ runs : List (List Char), runs.length = pattern.count '*' ∧ fill pattern runs = name := by
  induction pattern generalizing name with
  | nil =>
      constructor
      · rintro rfl
        exact ⟨[], rfl, rfl⟩
      · rintro ⟨runs, -, rfl⟩
        rfl
  | cons c pattern ih =>
      by_cases star : c = '*'
      · subst star
        rw [Fills, if_pos rfl, List.count_cons_self]
        constructor
        · rintro ⟨rest, ⟨run, rfl⟩, fills⟩
          obtain ⟨runs, count, rfl⟩ := ih.mp fills
          refine ⟨run :: runs, congrArg Nat.succ count, ?_⟩
          rw [fill, if_pos rfl]
          rfl
        · rintro ⟨runs, count, rfl⟩
          obtain ⟨run, others, rfl⟩ := List.exists_cons_of_length_eq_add_one count
          rw [fill, if_pos rfl]
          exact ⟨_, List.suffix_append run _, ih.mpr ⟨others, Nat.succ.inj count, rfl⟩⟩
      · rw [Fills, if_neg star, List.count_cons_of_ne star]
        constructor
        · rintro ⟨rest, rfl, fills⟩
          obtain ⟨runs, count, rfl⟩ := ih.mp fills
          refine ⟨runs, count, ?_⟩
          rw [fill, if_neg star]
        · rintro ⟨runs, count, rfl⟩
          rw [fill, if_neg star]
          exact ⟨_, rfl, ih.mpr ⟨runs, count, rfl⟩⟩

/-! ## Pieces one behind the other -/

/-- The name is the last piece, or it begins with a piece and the others follow somewhere behind. -/
def Strung : List (List Char) → List Char → Prop
  | [], _ => False
  | [last], name => name = last
  | piece :: next :: others, name =>
      ∃ rest, name = piece ++ rest ∧ ∃ behind, behind <:+ rest ∧ Strung (next :: others) behind

/-- What a pattern can be filled up to is its pieces, strung together with runs between them. -/
theorem fills_iff_strung {pattern name : List Char} :
    Fills pattern name ↔ Strung (pieces '*' pattern) name := by
  induction pattern generalizing name with
  | nil => rfl
  | cons c pattern ih =>
      by_cases star : c = '*'
      · subst star
        obtain ⟨piece, others, split⟩ := exists_pieces '*' pattern
        rw [split] at ih
        rw [Fills, if_pos rfl, pieces_separator, split, Strung]
        simp only [ih, List.nil_append, exists_eq_left']
      · obtain ⟨piece, others, split, longer⟩ := exists_pieces_cons star pattern
        rw [split] at ih
        rw [Fills, if_neg star, longer]
        simp only [ih]
        cases others with
        | nil => exact exists_eq_right
        | cons next others =>
            constructor
            · rintro ⟨_, rfl, rest, rfl, strung⟩
              exact ⟨rest, rfl, strung⟩
            · rintro ⟨rest, rfl, strung⟩
              exact ⟨_, rfl, rest, rfl, strung⟩

/-! ## The first place of a piece -/

section

variable {piece later cs before rest : List Char}

/-- A piece that stands somewhere is found. -/
theorem exists_splitAtFirst? (stands : piece ++ later <:+ cs) :
    ∃ before rest, splitAtFirst? piece cs = some (before, rest) := by
  induction cs with
  | nil =>
      obtain ⟨rfl, -⟩ := List.append_eq_nil_iff.mp (List.suffix_nil.mp stands)
      exact ⟨[], [], rfl⟩
  | cons c cs ih =>
      rw [splitAtFirst?]
      split
      · exact ⟨_, _, rfl⟩
      · rename_i elsewhere
        rcases List.suffix_cons_iff.mp stands with here | behind
        · exact absurd (List.isPrefixOf_iff_prefix.mpr ⟨later, here⟩) elsewhere
        · obtain ⟨before, rest, found⟩ := ih behind
          exact ⟨c :: before, rest, by rw [found]; rfl⟩

/-- Behind the first place of a piece there is at least as much as behind any other. -/
theorem suffix_of_splitAtFirst? (found : splitAtFirst? piece cs = some (before, rest))
    (stands : piece ++ later <:+ cs) : later <:+ rest := by
  induction cs generalizing before with
  | nil =>
      obtain ⟨-, rfl⟩ := List.append_eq_nil_iff.mp (List.suffix_nil.mp stands)
      exact List.nil_suffix
  | cons c cs ih =>
      have whole := splitAtFirst?_append found
      rw [splitAtFirst?] at found
      split at found
      · obtain ⟨rfl, -⟩ := Prod.mk.inj (Option.some.inj found)
        rw [List.nil_append] at whole
        rw [whole] at stands
        have shorter := stands.length_le
        rw [List.length_append, List.length_append] at shorter
        exact List.suffix_of_suffix_length_le ((List.suffix_append piece later).trans stands)
          (List.suffix_append piece rest) (Nat.le_of_add_le_add_left shorter)
      · rename_i elsewhere
        obtain ⟨parts, inner, same⟩ := Option.map_eq_some_iff.mp found
        obtain ⟨-, rfl⟩ := Prod.mk.inj same
        rcases List.suffix_cons_iff.mp stands with here | behind
        · exact absurd (List.isPrefixOf_iff_prefix.mpr ⟨later, here⟩) elsewhere
        · exact ih inner behind

end

/-! ## The search -/

/-- The pieces stand in a text one behind the other and the last one at its end, if each piece
before the last is taken where it stands first. -/
def findPieces : List (List Char) → List Char → Bool
  | [], _ => true
  | [last], text => last.isSuffixOf text
  | piece :: next :: others, text =>
      match splitAtFirst? piece text with
      | some (_, rest) => findPieces (next :: others) rest
      | none => false

/-- The name begins with the first piece of the pattern, and the others are found behind it. A
pattern without stars is one piece, which the name has to be. -/
def searchMatch (pattern name : String) : Bool :=
  match pieces '*' pattern.toList with
  | [] => false
  | [whole] => whole == name.toList
  | first :: second :: others =>
      first.isPrefixOf name.toList &&
        findPieces (second :: others) (name.toList.drop first.length)

/-- The search finds the pieces if and only if they stand in the text in any way at all. -/
theorem findPieces_iff (piece : List Char) (others : List (List Char)) (text : List Char) :
    findPieces (piece :: others) text = true ↔
      ∃ behind, behind <:+ text ∧ Strung (piece :: others) behind := by
  induction others generalizing piece text with
  | nil =>
      rw [findPieces, List.isSuffixOf_iff_suffix]
      simp only [Strung, exists_eq_right]
  | cons next others ih =>
      rw [findPieces]
      constructor
      · intro holds
        split at holds
        · rename_i before rest found
          obtain ⟨behind, ends, strung⟩ := (ih next rest).mp holds
          have stands : piece ++ rest <:+ text :=
            ⟨before, by rw [splitAtFirst?_append found, List.append_assoc]⟩
          exact ⟨piece ++ rest, stands, rest, rfl, behind, ends, strung⟩
        · cases holds
      · rintro ⟨_, stands, later, rfl, behind, ends, strung⟩
        obtain ⟨before, rest, found⟩ := exists_splitAtFirst? stands
        rw [found]
        exact (ih next rest).mpr
          ⟨behind, ends.trans (suffix_of_splitAtFirst? found stands), strung⟩

theorem searchMatch_iff (pattern name : String) :
    searchMatch pattern name = true ↔ Fills pattern.toList name.toList := by
  rw [fills_iff_strung, searchMatch]
  obtain ⟨first, others, split⟩ := exists_pieces '*' pattern.toList
  rw [split]
  cases others with
  | nil => exact beq_iff_eq.trans eq_comm
  | cons second others =>
      dsimp only
      rw [Bool.and_eq_true, findPieces_iff, List.isPrefixOf_iff_prefix, Strung]
      constructor
      · rintro ⟨⟨rest, whole⟩, strung⟩
        rw [← whole, List.drop_left] at strung
        exact ⟨rest, whole.symm, strung⟩
      · rintro ⟨rest, whole, strung⟩
        rw [whole, List.drop_left]
        exact ⟨⟨rest, rfl⟩, strung⟩

/-- A name matches a pattern if and only if it is what the pattern becomes with some run of
characters, maybe none, for each of its stars. The search for its pieces, each where it stands
first, finds out the same. -/
theorem globMatch_iff_filled (pattern name : String) :
    (globMatch pattern name = true ↔
      ∃ runs : List String, runs.length = pattern.toList.count '*' ∧ filled pattern runs = name) ∧
    searchMatch pattern name = globMatch pattern name := by
  constructor
  · rw [globMatch_iff, fills_iff_fill]
    constructor
    · rintro ⟨runs, count, same⟩
      refine ⟨runs.map String.ofList, by rw [List.length_map, count], ?_⟩
      have back : (runs.map String.ofList).map String.toList = runs := by
        rw [List.map_map]
        exact List.map_id'' (fun run => String.toList_ofList) runs
      rw [filled, back, same, String.ofList_toList]
    · rintro ⟨runs, count, rfl⟩
      exact ⟨runs.map String.toList, by rw [List.length_map, count],
        String.toList_ofList.symm⟩
  · rw [Bool.eq_iff_iff, searchMatch_iff, globMatch_iff]

/-- The last piece must not overlap those before it, though the name begins and ends as the pattern
does. -/
example : searchMatch "ab*bc" "abc" = false ∧ searchMatch "a*ba*a" "aababa" = true := by
  decide +kernel

end Esql.Text
