import Esql.Text.Basic

/-!
# The first occurrence of a separator

A text is split where a separator first occurs in it. What stands before holds no separator, and if
there is none, the text holds none. Conversely, a separator that does not overlap itself is found
directly behind any text that does not hold it, even where the text ends with a part of it. A text
without a separator is passed over in the same way, whatever stands behind it, as long as that does
not go on with a part of the separator.
-/

namespace Esql.Text

variable {separator cs before rest : List Char}

/-- No separator begins before the first one that is found. -/
theorem not_infix_of_splitAtFirst? (present : separator ≠ [])
    (found : splitAtFirst? separator cs = some (before, rest)) : ¬ separator <:+: before := by
  induction cs generalizing before with
  | nil =>
      rw [splitAtFirst?, if_neg (mt List.isEmpty_iff.mp present)] at found
      cases found
  | cons c cs ih =>
      rw [splitAtFirst?] at found
      split at found
      · cases found
        rw [List.infix_nil]
        exact present
      · rename_i differs
        obtain ⟨⟨inner, tail⟩, inside, same⟩ := Option.map_eq_some_iff.mp found
        cases same
        have whole := splitAtFirst?_append inside
        rw [List.infix_cons_iff]
        rintro (here | later)
        · apply differs
          rw [List.isPrefixOf_iff_prefix, whole, List.append_assoc, ← List.cons_append]
          exact here.trans (List.prefix_append _ _)
        · exact ih inside later

theorem not_infix_of_splitAtFirst?_eq_none (present : separator ≠ [])
    (missing : splitAtFirst? separator cs = none) : ¬ separator <:+: cs := by
  induction cs with
  | nil =>
      rw [List.infix_nil]
      exact present
  | cons c cs ih =>
      rw [splitAtFirst?] at missing
      split at missing
      · cases missing
      · rename_i differs
        rw [List.infix_cons_iff]
        rintro (here | later)
        · exact differs (List.isPrefixOf_iff_prefix.mpr here)
        · exact ih (Option.map_eq_none_iff.mp missing) later

theorem splitAtFirst?_eq_none (absent : ¬ separator <:+: cs) :
    splitAtFirst? separator cs = none := by
  refine Option.eq_none_iff_forall_not_mem.mpr fun parts found => absent ?_
  rw [splitAtFirst?_append found]
  exact ⟨parts.1, parts.2, rfl⟩

/-- A separator that stands at the front is found there. -/
theorem splitAtFirst?_here (present : separator ≠ []) (rest : List Char) :
    splitAtFirst? separator (separator ++ rest) = some ([], rest) := by
  obtain ⟨c, others, rfl⟩ := List.exists_cons_of_ne_nil present
  rw [List.cons_append, splitAtFirst?, if_pos, ← List.cons_append, List.drop_left]
  exact List.isPrefixOf_iff_prefix.mpr (List.prefix_append (c :: others) rest)

/-- A text that does not hold the separator is passed over, if what stands behind it does not begin
with a later character of the separator. -/
theorem splitAtFirst?_pass {first : Char} {others : List Char}
    (absent : ¬ first :: others <:+: cs) (apart : ∀ c ∈ rest.head?, c ∉ others) :
    splitAtFirst? (first :: others) (cs ++ rest) =
      (splitAtFirst? (first :: others) rest).map fun parts => (cs ++ parts.1, parts.2) := by
  induction cs with
  | nil => exact Option.map_id'.symm
  | cons c cs ih =>
      have later : ¬ first :: others <:+: cs := fun found =>
        absent (found.trans (List.suffix_cons c cs).isInfix)
      rw [List.cons_append, splitAtFirst?, if_neg, ih later, Option.map_map]
      · rfl
      · rw [List.isPrefixOf_iff_prefix, ← List.cons_append]
        intro starts
        -- A separator that starts in the text either lies in it or goes on into the one behind it,
        -- whose first character then stands in the rest of the separator.
        rcases List.prefix_or_prefix_of_prefix starts (List.prefix_append (c :: cs) _) with
          within | ⟨tail, overlap⟩
        · exact absent within.isInfix
        · cases tail with
          | nil =>
              rw [List.append_nil] at overlap
              exact absent (overlap ▸ List.infix_rfl)
          | cons d tail =>
              rw [← overlap, List.prefix_append_right_inj] at starts
              obtain ⟨behind, same⟩ := starts
              obtain ⟨rfl, rfl⟩ := List.cons.inj overlap
              refine apart d ?_ (List.mem_append_right _ (.head _))
              rw [← same]
              rfl

/-- A separator whose first character does not come again in it is found behind a text that does
not hold it. -/
theorem splitAtFirst?_behind {first : Char} {others : List Char} (apart : first ∉ others)
    (absent : ¬ first :: others <:+: cs) (rest : List Char) :
    splitAtFirst? (first :: others) (cs ++ (first :: others) ++ rest) = some (cs, rest) := by
  have next : ∀ c ∈ ((first :: others) ++ rest).head?, c ∉ others := by
    rintro _ ⟨⟩
    exact apart
  rw [List.append_assoc, splitAtFirst?_pass absent next,
    splitAtFirst?_here (List.cons_ne_nil _ _), Option.map_some, List.append_nil]

/-- A separator does not reach over a character that is none of its own. -/
theorem not_infix_append_cons {c : Char} {back : List Char} (present : separator ≠ [])
    (other : c ∉ separator) (front : ¬ separator <:+: cs) (behind : ¬ separator <:+: back) :
    ¬ separator <:+: cs ++ c :: back := by
  rintro ⟨before, after, same⟩
  rw [List.append_assoc, List.append_eq_append_iff] at same
  rcases same with ⟨middle, rfl, tail⟩ | ⟨middle, rfl, tail⟩
  · rcases List.append_eq_append_iff.mp tail with ⟨inner, rfl, -⟩ | ⟨inner, rfl, reaches⟩
    · exact front ⟨before, inner, by rw [List.append_assoc]⟩
    · cases inner with
      | nil => exact front ⟨before, [], by simp⟩
      | cons d inner =>
          obtain ⟨rfl, -⟩ := List.cons.inj reaches
          exact other (List.mem_append_right _ (.head _))
  · cases middle with
    | nil =>
        obtain ⟨d, others, rfl⟩ := List.exists_cons_of_ne_nil present
        obtain ⟨rfl, -⟩ := List.cons.inj tail
        exact other (.head _)
    | cons d middle =>
        obtain ⟨rfl, rfl⟩ := List.cons.inj tail
        exact behind ⟨middle, after, by simp⟩

end Esql.Text
