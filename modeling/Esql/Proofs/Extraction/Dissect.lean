import Esql.Extraction
import Esql.Proofs.Text.Split
import Mathlib.Data.List.Basic
import Mathlib.Data.List.Induction

/-!
# Keys of dissect patterns

A text of literals with groups between them, each group in its marks, is taken apart into the groups
again. A literal may hold any part of the opening mark, and the closing mark as well, since a group
starts only where the whole opening mark stands. A dissect pattern is made of literals with entries
between them, each entry in braces. A literal may hold percent signs and braces as long as it opens
no entry. Whatever decorates a key is taken off, in one order for all entries: arrows, a plus sign,
and what follows a slash. So the keys of a pattern are those of its entries, each once, in the order
in which they first occur.
-/

namespace Esql.Extraction

/-! ## Groups between literals -/

section

/-- A text that starts with a literal; each group in its marks has a literal behind it. -/
def interleave (opening closing : List Char) (lead : List Char) :
    List (List Char × List Char) → List Char
  | [] => lead
  | (group, behind) :: rest =>
      lead ++ opening ++ (group ++ closing ++ interleave opening closing behind rest)

theorem length_le_interleave {opening : List Char} (some : opening ≠ [])
    (closing lead : List Char) (parts : List (List Char × List Char)) :
    parts.length ≤ (interleave opening closing lead parts).length := by
  induction parts generalizing lead with
  | nil => exact Nat.zero_le _
  | cons part parts ih =>
      have behind := ih part.2
      have opens := List.length_pos_iff.mpr some
      simp only [interleave, List.length_append, List.length_cons]
      omega

/-- What a scan takes from inside a group: the group goes on to the next closing mark, and the scan
behind it. -/
def resumed (opening closing taken : List Char) (fuel : Nat) (cs : List Char) :
    List (List Char) :=
  match Text.splitAtFirst? closing cs with
  | none => []
  | some (inside, rest) => (taken ++ inside) :: groupsUpTo opening closing fuel rest

theorem groupsUpTo_opening {opening : List Char} (some : opening ≠ []) (closing : List Char)
    (fuel : Nat) (rest : List Char) :
    groupsUpTo opening closing (fuel + 1) (opening ++ rest) =
      resumed opening closing [] fuel rest := by
  rw [groupsUpTo, Text.splitAtFirst?_here some]
  rfl

section

variable {first last : Char} {others more lead rest opening closing : List Char} {fuel : Nat}

/-- A scan passes over a literal, and takes nothing from it. -/
theorem groupsUpTo_pass (plain : ¬ first :: others <:+: lead)
    (apart : ∀ c ∈ rest.head?, c ∉ others) :
    groupsUpTo (first :: others) closing fuel (lead ++ rest) =
      groupsUpTo (first :: others) closing fuel rest := by
  cases fuel with
  | zero => rfl
  | succ fuel =>
      rw [groupsUpTo, groupsUpTo, Text.splitAtFirst?_pass plain apart]
      cases Text.splitAtFirst? (first :: others) rest <;> rfl

/-- Inside a group everything is taken up to the closing mark. -/
theorem resumed_pass (taken : List Char) (unclosed : ¬ last :: more <:+: lead)
    (apart : ∀ c ∈ rest.head?, c ∉ more) :
    resumed opening (last :: more) taken fuel (lead ++ rest) =
      resumed opening (last :: more) (taken ++ lead) fuel rest := by
  rw [resumed, resumed, Text.splitAtFirst?_pass unclosed apart]
  cases Text.splitAtFirst? (last :: more) rest with
  | none => rfl
  | some parts => exact congrArg (· :: _) (List.append_assoc taken lead parts.1).symm

theorem resumed_closing (taken : List Char) (apart : last ∉ more)
    (unclosed : ¬ last :: more <:+: lead) (rest : List Char) :
    resumed opening (last :: more) taken fuel (lead ++ (last :: more) ++ rest) =
      (taken ++ lead) :: groupsUpTo opening (last :: more) fuel rest := by
  rw [resumed, Text.splitAtFirst?_behind apart unclosed]

/-- A scan takes a group that is closed, and goes on behind it. -/
theorem groupsUpTo_group (apart : last ∉ more) (unclosed : ¬ last :: more <:+: lead)
    (rest : List Char) :
    groupsUpTo (first :: others) (last :: more) (fuel + 1)
        (first :: others ++ (lead ++ (last :: more) ++ rest)) =
      lead :: groupsUpTo (first :: others) (last :: more) fuel rest := by
  rw [groupsUpTo_opening (List.cons_ne_nil _ _), resumed_closing [] apart unclosed]
  rfl

end

variable {first last : Char} {others more lead : List Char} {parts : List (List Char × List Char)}

theorem groupsUpTo_interleave {fuel : Nat} (apart : first ∉ others) (apart' : last ∉ more)
    (plain : ¬ first :: others <:+: lead)
    (literals : ∀ part ∈ parts, ¬ first :: others <:+: part.2)
    (closed : ∀ part ∈ parts, ¬ last :: more <:+: part.1) (enough : parts.length ≤ fuel) :
    groupsUpTo (first :: others) (last :: more) fuel
      (interleave (first :: others) (last :: more) lead parts) = parts.map Prod.fst := by
  induction parts generalizing lead fuel with
  | nil =>
      cases fuel with
      | zero => rfl
      | succ fuel => rw [interleave, groupsUpTo, Text.splitAtFirst?_eq_none plain, List.map_nil]
  | cons part parts ih =>
      obtain ⟨group, behind⟩ := part
      rw [List.forall_mem_cons] at literals closed
      cases fuel with
      | zero => cases enough
      | succ fuel =>
          have next (text : List Char) : ∀ c ∈ (first :: others ++ text).head?, c ∉ others := by
            rintro _ ⟨⟩
            exact apart
          rw [interleave, List.append_assoc, groupsUpTo_pass plain (next _),
            groupsUpTo_group apart' closed.1,
            ih literals.1 literals.2 closed.2 (Nat.le_of_succ_le_succ enough)]
          rfl

/-- Of marks that do not overlap themselves, no group is missed, and none is found within a
literal. -/
theorem groups_interleave {opening closing : String} (opens : opening.toList = first :: others)
    (closes : closing.toList = last :: more) (apart : first ∉ others) (apart' : last ∉ more)
    (plain : ¬ opening.toList <:+: lead)
    (literals : ∀ part ∈ parts, ¬ opening.toList <:+: part.2)
    (closed : ∀ part ∈ parts, ¬ closing.toList <:+: part.1) :
    groups opening closing (String.ofList (interleave opening.toList closing.toList lead parts)) =
      parts.map Prod.fst := by
  rw [opens] at plain literals
  rw [closes] at closed
  rw [groups, String.toList_ofList, opens, closes]
  exact groupsUpTo_interleave apart apart' plain literals closed
    (length_le_interleave (List.cons_ne_nil _ _) _ _ _)

end

/-! ## First occurrences -/

/-- Some items without repetition, in the order in which they first occur. -/
structure Firsts {α : Type} [BEq α] (items listed : List α) : Prop where
  same : ∀ item, item ∈ listed ↔ item ∈ items
  once : listed.Nodup
  ordered : listed.Pairwise fun left right => items.idxOf left < items.idxOf right

section

variable {α : Type} [BEq α] [LawfulBEq α]

theorem eraseDups_append_of_mem {items : List α} {item : α} (known : item ∈ items) :
    (items ++ [item]).eraseDups = items.eraseDups := by
  have nothing : [item].removeAll items = [] := by simp [List.removeAll, known]
  rw [List.eraseDups_append, nothing, List.eraseDups_nil, List.append_nil]

theorem eraseDups_append_of_notMem {items : List α} {item : α} (new : item ∉ items) :
    (items ++ [item]).eraseDups = items.eraseDups ++ [item] := by
  have alone : [item].removeAll items = [item] := by simp [List.removeAll, new]
  rw [List.eraseDups_append, alone]
  rfl

theorem pairwise_eraseDups (items : List α) :
    items.eraseDups.Pairwise fun left right => items.idxOf left < items.idxOf right := by
  induction items using List.reverseRecOn with
  | nil => exact .nil
  | append_singleton items item ih =>
      have ordered : items.eraseDups.Pairwise fun left right =>
          (items ++ [item]).idxOf left < (items ++ [item]).idxOf right := by
        refine ih.imp_of_mem fun first second earlier => ?_
        rwa [List.idxOf_append_of_mem (List.mem_eraseDups.mp first),
          List.idxOf_append_of_mem (List.mem_eraseDups.mp second)]
      by_cases known : item ∈ items
      · rwa [eraseDups_append_of_mem known]
      · rw [eraseDups_append_of_notMem known]
        refine List.pairwise_append.mpr ⟨ordered, List.pairwise_singleton _ _, ?_⟩
        rintro left first _ (_ | ⟨_, ⟨⟩⟩)
        have first := List.mem_eraseDups.mp first
        rw [List.idxOf_append_of_mem first, List.idxOf_append_of_notMem known]
        exact Nat.lt_of_lt_of_le (List.idxOf_lt_length_iff.mpr first) (Nat.le_add_right _ _)

end

theorem firsts_eraseDups {α : Type} [BEq α] [LawfulBEq α] (items : List α) :
    Firsts items items.eraseDups where
  same _ := List.mem_eraseDups
  once := by
    refine (pairwise_eraseDups items).imp ?_
    rintro left _ earlier rfl
    exact Nat.lt_irrefl _ earlier
  ordered := pairwise_eraseDups items

/-! ## Arrows -/

/-- Arrows are dropped up to any character that is not part of one. -/
theorem dropArrows_append {c : Char} (noShaft : c ≠ '-') (noHead : c ≠ '>')
    (front back : List Char) : dropArrows (front ++ c :: back) = dropArrows front ++ c :: back := by
  fun_induction dropArrows front with
  | case1 rest ih => exact ih
  | case2 front other =>
      rw [dropArrows]
      intro rest same
      rcases front with _ | ⟨d, _ | ⟨e, front⟩⟩
      · exact noHead (List.cons.inj same).1
      · exact noShaft (List.cons.inj (List.cons.inj same).2).1
      · simp only [List.cons_append, List.cons.injEq] at same
        exact other front (by rw [same.1, same.2.1])

/-- Without the arrows at the end. -/
def withoutArrows (cs : List Char) : List Char := (dropArrows cs.reverse).reverse

theorem withoutArrows_append {c : Char} (noShaft : c ≠ '-') (noHead : c ≠ '>')
    (front back : List Char) :
    withoutArrows (front ++ c :: back) = front ++ c :: withoutArrows back := by
  have turned : (front ++ c :: back).reverse = back.reverse ++ c :: front.reverse := by simp
  rw [withoutArrows, turned, dropArrows_append noShaft noHead, List.reverse_append,
    List.reverse_cons, List.reverse_reverse, List.append_assoc]
  rfl

theorem withoutArrows_arrow (cs : List Char) :
    withoutArrows (cs ++ ['-', '>']) = withoutArrows cs := by
  rw [withoutArrows, List.reverse_append]
  rfl

theorem withoutArrows_eq {cs : List Char} (none : ¬ ['-', '>'] <:+ cs) :
    withoutArrows cs = cs := by
  rw [withoutArrows]
  unfold dropArrows
  split
  · rename_i rest turned
    refine absurd ⟨rest.reverse, ?_⟩ none
    rw [← List.reverse_reverse cs, turned]
    simp
  · exact List.reverse_reverse cs

theorem dropPlus_cons {c : Char} (other : c ≠ '+') (cs : List Char) :
    dropPlus (c :: cs) = c :: cs := by
  rw [dropPlus]
  intro rest same
  exact other (List.cons.inj same).1

/-! ## Entries -/

/-- Characters that may stand in an entry, which ends at the first closing brace. -/
def Unbraced : Type := { chars : List Char // '\x7d' ∉ chars }

/-- A key as it stands in a pattern, without anything that decorates it. -/
structure DissectKey where
  chars : List Char
  nonempty : chars ≠ []
  noBrace : '\x7d' ∉ chars
  noSlash : '/' ∉ chars
  noArrow : ¬ ['-', '>'] <:+ chars
  front : ∀ c ∈ chars.head?, c ∉ ['+', '?', '*', '&']

namespace DissectKey

variable (key : DissectKey)

/-- The key behind a plus sign, if there is one. -/
def signed : (plus : Bool) → List Char
  | true => '+' :: key.chars
  | false => key.chars

theorem exists_chars : ∃ c cs, key.chars = c :: cs ∧ c ∉ ['+', '?', '*', '&'] := by
  obtain ⟨c, cs, same⟩ := List.exists_cons_of_ne_nil key.nonempty
  exact ⟨c, cs, same, key.front c (by rw [same]; rfl)⟩

theorem withoutArrows_signed (plus : Bool) :
    withoutArrows (key.signed plus) = key.signed plus := by
  apply withoutArrows_eq
  cases plus with
  | false => exact key.noArrow
  | true =>
      rw [signed, List.suffix_cons_iff, not_or]
      exact ⟨fun same => absurd (List.cons.inj same).1 (by decide), key.noArrow⟩

theorem dropPlus_signed (plus : Bool) (rest : List Char) :
    dropPlus (key.signed plus ++ rest) = key.chars ++ rest := by
  cases plus with
  | true => rfl
  | false =>
      obtain ⟨c, cs, same, other⟩ := key.exists_chars
      rw [signed, same, List.cons_append, dropPlus_cons]
      rintro rfl
      exact other (.head _)

/-- A key is read up to the end or to a slash. -/
theorem dissectKey?_eq {group rest : List Char} {plus : Bool}
    (trimmed : withoutArrows group = key.signed plus ++ rest)
    (ends : ∀ c ∈ rest.head?, c = '/') : dissectKey? group = some (String.ofList key.chars) := by
  have word : (key.chars ++ rest).takeWhile (· != '/') = key.chars := by
    have plain : ∀ c ∈ key.chars, (c != '/') = true := fun c inside =>
      bne_iff_ne.mpr fun slash => key.noSlash (slash ▸ inside)
    rw [List.takeWhile_append_of_pos plain]
    cases rest with
    | nil => exact List.append_nil _
    | cons c rest =>
        rw [ends c rfl]
        exact List.append_nil _
  obtain ⟨c, cs, same, other⟩ := key.exists_chars
  rw [dissectKey?, ← withoutArrows, trimmed, dropPlus_signed, word, same]
  exact if_neg fun skips => other (.tail _ (List.contains_iff_mem.mp skips))

end DissectKey

theorem dissectKey?_skipped {c : Char} (skips : c ∈ ['?', '*', '&']) (cs : List Char) :
    dissectKey? (c :: cs) = none := by
  have other {d : Char} (apart : d ∉ ['?', '*', '&']) : c ≠ d := fun same => apart (same ▸ skips)
  have trimmed := withoutArrows_append (other (by decide)) (other (by decide)) [] cs
  rw [List.nil_append, List.nil_append] at trimmed
  rw [dissectKey?, ← withoutArrows, trimmed, dropPlus_cons (other (by decide)),
    List.takeWhile_cons, if_pos (bne_iff_ne.mpr (other (by decide)))]
  exact if_pos (List.contains_iff_mem.mpr skips)

/-- What stands in the braces of a dissect pattern. -/
inductive DissectEntry where
  /-- A key, maybe behind a plus sign. An order may follow behind a slash, which is a number but is
  never looked at, and then an arrow. -/
  | key (plus : Bool) (key : DissectKey) (order : Option Unbraced) (padded : Bool)
  /-- Nothing, or what starts with a mark that has it passed over. -/
  | skipped (text : Unbraced) (front : ∀ c ∈ text.1.head?, c ∈ ['?', '*', '&'])

namespace DissectEntry

def chars : DissectEntry → List Char
  | key plus name order padded =>
      name.signed plus ++
        (order.elim [] (fun text => '/' :: text.1) ++ if padded then ['-', '>'] else [])
  | skipped text _ => text.1

def key? : DissectEntry → Option String
  | key _ name _ _ => some (String.ofList name.chars)
  | skipped _ _ => none

theorem noBrace_chars (entry : DissectEntry) : '\x7d' ∉ entry.chars := by
  cases entry with
  | skipped text front => exact text.2
  | key plus name order padded =>
      have first : '\x7d' ∉ name.signed plus := by
        cases plus with
        | true => exact List.not_mem_cons_of_ne_of_not_mem (by decide) name.noBrace
        | false => exact name.noBrace
      have second : '\x7d' ∉ order.elim [] (fun text => '/' :: text.1) := by
        cases order with
        | none => exact List.not_mem_nil
        | some text => exact List.not_mem_cons_of_ne_of_not_mem (by decide) text.2
      have third : '\x7d' ∉ if padded then ['-', '>'] else [] := by cases padded <;> decide
      simp only [chars, List.mem_append, not_or]
      exact ⟨first, second, third⟩

/-- Whatever decorates it, an entry is read as its key. -/
theorem dissectKey?_chars (entry : DissectEntry) : dissectKey? entry.chars = entry.key? := by
  cases entry with
  | skipped text front =>
      obtain ⟨_ | ⟨c, cs⟩, noBrace⟩ := text
      · rfl
      · exact dissectKey?_skipped (front c rfl) cs
  | key plus name order padded =>
      cases order with
      | some order =>
          refine name.dissectKey?_eq (withoutArrows_append (by decide) (by decide) _ _) ?_
          rintro c ⟨⟩
          rfl
      | none =>
          have trimmed : withoutArrows (chars (key plus name none padded)) =
              name.signed plus ++ [] := by
            rw [List.append_nil, ← name.withoutArrows_signed plus]
            cases padded with
            | false => exact congrArg withoutArrows (List.append_nil _)
            | true => exact withoutArrows_arrow _
          exact name.dissectKey?_eq trimmed nofun

end DissectEntry

/-! ## Patterns -/

/-- A stretch of a dissect pattern that opens no entry. -/
def DissectLiteral : Type := { chars : List Char // ¬ "%\x7b".toList <:+: chars }

/-- A dissect pattern: a literal, and entries in braces with a literal behind each. -/
structure DissectPattern where
  lead : DissectLiteral
  parts : List (DissectEntry × DissectLiteral)

namespace DissectPattern

variable (pattern : DissectPattern)

def text : String :=
  String.ofList (interleave "%\x7b".toList "\x7d".toList pattern.lead.1
    (pattern.parts.map fun part => (part.1.chars, part.2.1)))

/-- The keys of the entries that are not skipped. -/
def keys : List String := pattern.parts.filterMap fun part => part.1.key?

theorem braced_text : braced pattern.text = pattern.parts.map fun part => part.1.chars := by
  have opens : "%\x7b".toList = ['%', '\x7b'] := by decide
  have closes : "\x7d".toList = ['\x7d'] := by decide
  have closed (entry : DissectEntry) : ¬ "\x7d".toList <:+: entry.chars := fun found =>
    entry.noBrace_chars (found.subset (closes ▸ .head _))
  refine (groups_interleave opens closes (by decide) List.not_mem_nil pattern.lead.2
    (List.forall_mem_map.mpr fun part _ => part.2.2)
    (List.forall_mem_map.mpr fun part _ => closed part.1)).trans ?_
  rw [List.map_map]
  rfl

end DissectPattern

/-- A dissect pattern gives exactly the keys of its entries that are not skipped, without repetition
and in the order in which they first occur. -/
theorem dissectKeys_text (pattern : DissectPattern) :
    Firsts pattern.keys (dissectKeys pattern.text) := by
  have keys : (braced pattern.text).filterMap dissectKey? = pattern.keys := by
    rw [pattern.braced_text, List.filterMap_map, DissectPattern.keys]
    exact List.filterMap_congr fun part _ => part.1.dissectKey?_chars
  rw [dissectKeys, keys]
  exact firsts_eraseDups pattern.keys

/-- A key with an arrow, a key with a plus sign and an order, an entry that is passed over, and a
key for the second time. -/
theorem dissectKeys_text_decorated :
    ∃ pattern : DissectPattern,
      pattern.text = "5% %\x7bts->\x7d %\x7b+a/2\x7d\x7d%\x7b?ts\x7d%\x7ba\x7d" ∧
        pattern.keys = ["ts", "a", "a"] ∧ dissectKeys pattern.text = ["ts", "a"] ∧
        Firsts pattern.keys (dissectKeys pattern.text) := by
  let ts : DissectKey :=
    ⟨['t', 's'], by decide, by decide, by decide, by decide, by rintro _ ⟨⟩; decide⟩
  let a : DissectKey := ⟨['a'], by decide, by decide, by decide, by decide, by rintro _ ⟨⟩; decide⟩
  refine ⟨⟨⟨['5', '%', ' '], by decide⟩,
    [(.key false ts none true, ⟨[' '], by decide⟩),
      (.key true a (some ⟨['2'], by decide⟩) false, ⟨['\x7d'], by decide⟩),
      (.skipped ⟨['?', 't', 's'], by decide⟩ (by rintro _ ⟨⟩; decide), ⟨[], by decide⟩),
      (.key false a none false, ⟨[], by decide⟩)]⟩, rfl, rfl, ?_, dissectKeys_text _⟩
  decide +kernel

end Esql.Extraction
