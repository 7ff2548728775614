import Esql.Flow
import Mathlib.Data.List.Nodup
import Mathlib.Tactic.Tauto

/-!
# Looking columns up

What a column set answers about a name after each of the operations on it, and which operations
leave every name listed once. The answers are those of the first field of a name: only a set read
from a schema can list a name twice.
-/

namespace Esql.ColumnSet

variable {set : ColumnSet} {name : String}

theorem mem_names : name ∈ set.names ↔ (set.get? name).isSome = true :=
  (get?_isSome_iff set name).symm

theorem has?_eq_true_iff : set.has? name = some true ↔ name ∈ set.names := by
  rw [mem_names, has?]
  split
  · simp [*]
  · split <;> simp [*]

theorem lacks_iff : set.lacks name = true ↔ set.known = true ∧ name ∉ set.names := by
  rw [mem_names, lacks, has?]
  split
  · simp [*]
  · split <;> simp [*]

theorem type?_eq_none (absent : name ∉ set.names) : set.type? name = none := by
  rw [mem_names, Bool.not_eq_true, Option.isSome_eq_false_iff, Option.isNone_iff_eq_none] at absent
  rw [type?, absent]
  rfl

/-- Before and behind a column of a set of distinct columns there are others. -/
theorem exists_around {field : Field} (distinct : set.names.Nodup) (listed : field ∈ set.fields) :
    ∃ front back, set.fields = front ++ field :: back ∧
      (∀ other ∈ front, other.name ≠ field.name) ∧ ∀ other ∈ back, other.name ≠ field.name := by
  obtain ⟨front, back, split⟩ := List.append_of_mem listed
  rw [names, split, List.map_append, List.map_cons, List.nodup_middle, List.nodup_cons,
    ← List.map_append] at distinct
  have others : ∀ other ∈ front ++ back, other.name ≠ field.name := fun other member same =>
    distinct.1 (same ▸ List.mem_map_of_mem member)
  exact ⟨front, back, split, List.forall_mem_append.mp others⟩

/-- A listed column is the one that is found under its name. -/
theorem get?_of_mem {field : Field} (distinct : set.names.Nodup) (listed : field ∈ set.fields) :
    set.get? field.name = some field := by
  obtain ⟨front, back, split, before, -⟩ := exists_around distinct listed
  have unfound : front.find? (·.name == field.name) = none :=
    List.find?_eq_none.mpr fun other member same => before other member (beq_iff_eq.mp same)
  rw [get?, split, List.find?_append, unfound, List.find?_cons, beq_self_eq_true]
  rfl

/-! ## Adding columns -/

theorem find?_erased (fields : List Field) (erasedName : String) :
    (erased fields erasedName).find? (·.name == name) =
      if name = erasedName then none else fields.find? (·.name == name) := by
  rw [erased, List.find?_filter]
  split
  · subst name
    rw [List.find?_eq_none]
    intro field _
    simp
  · rename_i other
    congr 1
    funext field
    by_cases same : field.name = name <;> simp [same, other]

theorem get?_insert (set : ColumnSet) (field : Field) (name : String) :
    (set.insert field).get? name = if name = field.name then some field else set.get? name := by
  rw [get?, insert, List.find?_append, find?_erased]
  split
  · subst name
    simp
  · rename_i other
    simp [Ne.symm other, get?]

theorem type?_insert (set : ColumnSet) (field : Field) (name : String) :
    (set.insert field).type? name = if name = field.name then field.type? else set.type? name := by
  rw [type?, get?_insert]
  split <;> rfl

theorem mem_names_insert {field : Field} :
    name ∈ (set.insert field).names ↔ name = field.name ∨ name ∈ set.names := by
  rw [mem_names, mem_names, get?_insert]
  split <;> simp [*]

theorem nodup_insert (distinct : set.names.Nodup) (field : Field) :
    (set.insert field).names.Nodup := by
  rw [names_insert, List.nodup_append]
  refine ⟨distinct.filter _, List.nodup_singleton _, ?_⟩
  intro listed member added new
  rw [List.mem_singleton] at new
  rw [List.mem_filter, bne_iff_ne] at member
  exact new ▸ member.2

theorem mem_names_insertAll {fields : List Field} :
    name ∈ (set.insertAll fields).names ↔ name ∈ set.names ∨ name ∈ fields.map (·.name) := by
  induction fields generalizing set with
  | nil => simp [insertAll]
  | cons field rest ih =>
      change name ∈ ((set.insert field).insertAll rest).names ↔ _
      rw [ih, mem_names_insert, List.map_cons, List.mem_cons]
      tauto

theorem nodup_insertAll (distinct : set.names.Nodup) (fields : List Field) :
    (set.insertAll fields).names.Nodup := by
  induction fields generalizing set with
  | nil => exact distinct
  | cons field rest ih => exact ih (nodup_insert distinct field)

/-- The names that a set lists do not depend on anything but names. -/
theorem names_insertAll_congr {other : ColumnSet} {first second : List Field}
    (listed : set.names = other.names) (named : first.map (·.name) = second.map (·.name)) :
    (set.insertAll first).names = (other.insertAll second).names := by
  induction first generalizing set other second with
  | nil =>
      rw [List.map_eq_nil_iff.mp named.symm]
      exact listed
  | cons field rest ih =>
      obtain ⟨twin, others, rfl, same, behind⟩ := List.map_eq_cons_iff.mp named.symm
      change ((set.insert field).insertAll rest).names =
        ((other.insert twin).insertAll others).names
      refine ih ?_ behind.symm
      rw [names_insert, names_insert, listed, same]

theorem nodup_empty : empty.names.Nodup := List.nodup_nil

theorem nodup_unknown : unknown.names.Nodup := List.nodup_nil

theorem nodup_ofFields (fields : List Field) : (ofFields fields).names.Nodup :=
  nodup_insertAll nodup_empty fields

/-! ## Selecting columns -/

theorem get?_drop (set : ColumnSet) (patterns : List String) (name : String) :
    (set.drop patterns).get? name =
      if patterns.any (Text.globMatch · name) then none else set.get? name := by
  rw [get?, drop, List.find?_filter]
  split
  · rename_i matched
    rw [List.find?_eq_none]
    intro field _
    by_cases same : field.name = name <;> simp_all
  · rename_i unmatched
    rw [get?]
    congr 1
    funext field
    by_cases same : field.name = name <;> simp_all

theorem nodup_drop (distinct : set.names.Nodup) (patterns : List String) :
    (set.drop patterns).names.Nodup :=
  distinct.sublist (List.filter_sublist.map _)

/-- Listing fields once keeps the first field of each name. -/
theorem find?_listOnce (kept fields : List Field) (name : String) :
    (fields.foldl listOnce kept).find? (·.name == name) =
      (kept ++ fields).find? (·.name == name) := by
  induction fields generalizing kept with
  | nil => simp
  | cons field rest ih =>
      rw [List.foldl_cons, ih, listOnce]
      split
      · rename_i listed
        rw [List.find?_append, List.find?_append, List.find?_cons]
        split
        · rename_i same
          rw [beq_iff_eq] at same
          rw [same] at listed
          obtain ⟨first, found⟩ := Option.isSome_iff_exists.mp (List.find?_isSome.mpr
            (List.any_eq_true.mp listed))
          rw [found]
          rfl
        · rfl
      · rw [List.append_assoc, List.singleton_append]

theorem nodup_listOnce {kept : List Field} (distinct : (kept.map (·.name)).Nodup)
    (fields : List Field) : ((fields.foldl listOnce kept).map (·.name)).Nodup := by
  induction fields generalizing kept with
  | nil => exact distinct
  | cons field rest ih =>
      rw [List.foldl_cons, listOnce]
      split
      · exact ih distinct
      · rename_i new
        refine ih ?_
        rw [List.map_append, List.map_singleton, List.nodup_append]
        refine ⟨distinct, List.nodup_singleton _, ?_⟩
        intro listed member added last same
        rw [List.mem_singleton] at last
        obtain ⟨known, inside, named⟩ := List.mem_map.mp member
        refine new (List.any_eq_true.mpr ⟨known, inside, ?_⟩)
        rw [named, same, last]
        exact beq_self_eq_true _

/-- Of distinct fields, those with new names are added. -/
theorem foldl_listOnce_of_nodup {kept fields : List Field}
    (distinct : (fields.map (·.name)).Nodup) :
    fields.foldl listOnce kept =
      kept ++ fields.filter fun field => !kept.any fun known => known.name == field.name := by
  induction fields generalizing kept with
  | nil => exact (List.append_nil kept).symm
  | cons field rest ih =>
      rw [List.map_cons, List.nodup_cons] at distinct
      rw [List.foldl_cons, listOnce, ih distinct.2, List.filter_cons]
      cases listed : kept.any fun known => known.name == field.name with
      | true => rfl
      | false =>
          have others : ∀ other ∈ rest,
              (!(kept ++ [field]).any fun known => known.name == other.name) =
                !kept.any fun known => known.name == other.name := by
            intro other member
            have apart : (field.name == other.name) = false :=
              beq_eq_false_iff_ne.mpr fun same =>
                distinct.1 (same ▸ List.mem_map_of_mem member)
            rw [List.any_append, List.any_cons, List.any_nil, apart, Bool.or_false, Bool.or_false]
          rw [if_neg Bool.false_ne_true, List.filter_congr others, List.append_assoc]
          rfl

theorem find?_matching (set : ColumnSet) (pattern name : String) :
    (set.matching pattern).find? (·.name == name) =
      if Text.globMatch pattern name then set.get? name else none := by
  rw [matching, List.find?_filter]
  split
  · rename_i matched
    rw [get?]
    congr 1
    funext field
    by_cases same : field.name = name <;> simp_all
  · rename_i unmatched
    rw [List.find?_eq_none]
    intro field _
    by_cases same : field.name = name <;> simp_all

theorem get?_keep_of_known (known : set.known = true) (patterns : List String) (name : String) :
    (set.keep patterns).get? name =
      if patterns.any (Text.globMatch · name) then set.get? name else none := by
  rw [get?, keep, if_pos known, find?_listOnce, List.nil_append]
  induction patterns with
  | nil => rfl
  | cons pattern rest ih =>
      rw [List.flatMap_cons, List.find?_append, ih, find?_matching, List.any_cons]
      by_cases matched : Text.globMatch pattern name = true
      · simp only [matched, if_true, Bool.true_or]
        split <;> simp
      · simp [matched]

theorem keep_of_not_known (unknown : set.known = false) (patterns : List String) :
    set.keep patterns = set := by
  rw [keep, unknown]
  rfl

@[simp]
theorem known_keep (set : ColumnSet) (patterns : List String) :
    (set.keep patterns).known = set.known := by
  rw [keep]
  split <;> rfl

theorem nodup_keep (distinct : set.names.Nodup) (patterns : List String) :
    (set.keep patterns).names.Nodup := by
  rw [keep]
  split
  · exact @nodup_listOnce [] List.nodup_nil _
  · exact distinct

/-! ## Renaming a column -/

theorem find?_renamedIn {old new : String} (fields : List Field) (notNew : name ≠ new)
    (notOld : name ≠ old) :
    (renamedIn old new fields).find? (·.name == name) = fields.find? (·.name == name) := by
  induction fields with
  | nil => rfl
  | cons field rest ih =>
      rw [renamedIn]
      split
      · rename_i same
        rw [beq_iff_eq] at same
        simp [Ne.symm notNew, same, Ne.symm notOld]
      · simp only [List.find?_cons, ih]

theorem get?_rename_of_ne {old new : String} (set : ColumnSet) (notNew : name ≠ new)
    (notOld : name ≠ old) : (set.rename old new).get? name = set.get? name := by
  rw [rename]
  dsimp only
  split
  · rw [get?, find?_renamedIn _ notNew notOld, find?_erased, if_neg notNew, get?]
  · rw [get?_insert, if_neg notNew, get?, find?_erased, if_neg notNew, get?]

theorem find?_renamedIn_new {old new : String} {fields : List Field} {field : Field}
    (others : ∀ other ∈ fields, other.name ≠ new)
    (found : fields.find? (·.name == old) = some field) :
    (renamedIn old new fields).find? (·.name == new) =
      some { field with name := new, userDefined := true } := by
  induction fields with
  | nil => contradiction
  | cons first rest ih =>
      rw [renamedIn]
      rw [List.find?_cons] at found
      split at found
      · rename_i same
        obtain rfl := Option.some.inj found
        simp [same]
      · rename_i same
        simp only [same, Bool.false_eq_true, if_false]
        have apart : (first.name == new) = false :=
          beq_eq_false_iff_ne.mpr (others first List.mem_cons_self)
        rw [List.find?_cons, apart]
        exact ih (fun other member => others other (List.mem_cons_of_mem _ member)) found

theorem name_ne_of_mem_erased {fields : List Field} {field : Field}
    (member : field ∈ erased fields name) : field.name ≠ name :=
  bne_iff_ne.mp (List.mem_filter.mp member).2

/-- The column under its new name has the type that it had under the old one. -/
theorem type?_rename_new (set : ColumnSet) (old new : String) :
    (set.rename old new).type? new = set.type? old := by
  rw [type?, rename]
  dsimp only
  split
  · rename_i listed
    obtain ⟨field, found⟩ := Option.isSome_iff_exists.mp listed
    rw [get?, find?_erased] at found
    split at found
    · contradiction
    · rename_i other
      rw [get?, find?_renamedIn_new (fun other member => name_ne_of_mem_erased member)
        (by rw [find?_erased, if_neg other]; exact found)]
      rw [type?, get?, found]
      rfl
  · rw [get?_insert, if_pos rfl]
    rfl

theorem mem_names_rename_new (set : ColumnSet) (old new : String) :
    new ∈ (set.rename old new).names := by
  rw [mem_names, rename]
  dsimp only
  split
  · rename_i listed
    obtain ⟨field, found⟩ := Option.isSome_iff_exists.mp listed
    rw [get?, find?_renamedIn_new (fun other member => name_ne_of_mem_erased member) found]
    rfl
  · rw [get?_insert, if_pos rfl]
    rfl

theorem names_renamedIn {old new : String} {fields : List Field}
    (distinct : (fields.map (·.name)).Nodup) :
    (renamedIn old new fields).map (·.name) =
      (fields.map (·.name)).map fun listed => if listed = old then new else listed := by
  induction fields with
  | nil => rfl
  | cons field rest ih =>
      rw [List.map_cons, List.nodup_cons] at distinct
      rw [renamedIn]
      split
      · rename_i same
        rw [beq_iff_eq] at same
        have fixed : (rest.map (·.name)).map (fun listed => if listed = old then new else listed) =
            rest.map (·.name) := by
          conv_rhs => rw [← List.map_id (rest.map (·.name))]
          refine List.map_congr_left fun listed member => ?_
          rw [if_neg (fun equal => distinct.1 (by rw [same, ← equal]; exact member))]
          rfl
        simp only [List.map_cons, same, if_true, fixed]
      · rename_i other
        rw [beq_iff_eq] at other
        simp only [List.map_cons, other, if_false, ih distinct.2]

/-- A set that lists every name once lists the old name no longer. -/
theorem not_mem_names_rename {old new : String} (distinct : set.names.Nodup) (other : old ≠ new) :
    old ∉ (set.rename old new).names := by
  have erasedDistinct : ((erased set.fields new).map (·.name)).Nodup :=
    distinct.sublist (List.filter_sublist.map _)
  rw [rename]
  dsimp only
  split
  · rw [names, names_renamedIn erasedDistinct]
    intro member
    obtain ⟨listed, _, renamed⟩ := List.mem_map.mp member
    split at renamed
    · exact other renamed.symm
    · contradiction
  · rename_i absent
    rw [mem_names_insert]
    rintro (equal | listed)
    · exact other equal
    · exact absent (mem_names.mp listed)

theorem nodup_rename (distinct : set.names.Nodup) (old new : String) :
    (set.rename old new).names.Nodup := by
  have erasedDistinct : ((erased set.fields new).map (·.name)).Nodup :=
    distinct.sublist (List.filter_sublist.map _)
  rw [rename]
  dsimp only
  split
  · rw [names, names_renamedIn erasedDistinct]
    refine erasedDistinct.map_on ?_
    intro first firstMember second secondMember equal
    obtain ⟨firstField, firstInside, rfl⟩ := List.mem_map.mp firstMember
    obtain ⟨secondField, secondInside, rfl⟩ := List.mem_map.mp secondMember
    have firstOther := name_ne_of_mem_erased firstInside
    have secondOther := name_ne_of_mem_erased secondInside
    split at equal <;> split at equal
    · simp [*]
    · exact absurd equal.symm secondOther
    · exact absurd equal firstOther
    · exact equal
  · exact @nodup_insert { set with fields := erased set.fields new } erasedDistinct _

@[simp]
theorem known_rename (set : ColumnSet) (old new : String) :
    (set.rename old new).known = set.known := by
  rw [rename]
  dsimp only
  split <;> rfl

/-! ## Merging branches -/

theorem get?_merge (outputs : List ColumnSet) (name : String) :
    (merge outputs).get? name = outputs.findSome? (·.get? name) := by
  rw [get?, merge, find?_listOnce, List.nil_append, List.find?_flatMap]
  rfl

theorem mem_names_merge {outputs : List ColumnSet} :
    name ∈ (merge outputs).names ↔ ∃ output ∈ outputs, name ∈ output.names := by
  simp only [mem_names, get?_merge, List.findSome?_isSome_iff]

theorem nodup_merge (outputs : List ColumnSet) : (merge outputs).names.Nodup :=
  @nodup_listOnce [] List.nodup_nil _

end Esql.ColumnSet
