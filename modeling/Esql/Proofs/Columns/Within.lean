import Esql.Proofs.Columns.Lookup

/-!
# Column sets of two runs

One run of a pipeline may know less of its input than another one. Whatever the first lists, the
second has to list as well, and where the first set is known so is the second. Every operation on
column sets keeps this, except that a selection by patterns leaves an unknown set as it is and so
has to match all that the set lists.
-/

namespace Esql

/-- Every column of `part` is a column of `whole`. -/
structure ColumnSet.Within (part whole : ColumnSet) : Prop where
  nodup : part.names.Nodup
  listed : part.names ⊆ whole.names
  known : part.known = true → whole.known = true

/-- An operation that adds the same fields to every set, which may hold more after it. -/
inductive ColumnSet.Adds (add : ColumnSet → ColumnSet) : Prop where
  | known (fields : List Field) (adds : ∀ input, add input = input.insertAll fields)
  | unknown (fields : List Field) (adds : ∀ input, add input = (input.insertAll fields).forget)

namespace ColumnSet.Within

variable {part whole : ColumnSet}

theorem refl {set : ColumnSet} (distinct : set.names.Nodup) : set.Within set :=
  ⟨distinct, List.Subset.refl _, id⟩

/-- Nothing is listed in the unknown set. -/
theorem unknown (set : ColumnSet) : ColumnSet.unknown.Within set :=
  ⟨nodup_unknown, List.nil_subset _, nofun⟩

theorem insert (related : part.Within whole) {first second : Field}
    (named : first.name = second.name) : (part.insert first).Within (whole.insert second) := by
  constructor
  · exact nodup_insert related.nodup first
  · intro name member
    rw [mem_names_insert] at member ⊢
    rcases member with rfl | member
    · exact .inl named
    · exact .inr (related.listed member)
  · exact related.known

theorem insertAll (related : part.Within whole) {first second : List Field}
    (named : first.map (·.name) = second.map (·.name)) :
    (part.insertAll first).Within (whole.insertAll second) := by
  constructor
  · exact nodup_insertAll related.nodup first
  · intro name member
    rw [mem_names_insertAll] at member ⊢
    rw [← named]
    exact member.imp_left (related.listed ·)
  · rw [known_insertAll, known_insertAll]
    exact related.known

theorem ofFields {first second : List Field} (named : first.map (·.name) = second.map (·.name)) :
    (ofFields first).Within (ofFields second) :=
  (refl nodup_empty).insertAll named

/-- Fields with the same names, added to both sets. -/
theorem withFields (related : part.Within whole) (fields : List Expr) :
    (part.withFields fields).Within (whole.withFields fields) := by
  induction fields generalizing part whole with
  | nil => exact related
  | cons field rest ih => exact ih (related.insert rfl)

theorem forget (related : part.Within whole) : part.forget.Within whole.forget :=
  ⟨related.nodup, related.listed, nofun⟩

theorem adds (related : part.Within whole) {add : ColumnSet → ColumnSet} (adds : Adds add) :
    (add part).Within (add whole) := by
  cases adds with
  | known fields adds =>
      rw [adds, adds]
      exact related.insertAll rfl
  | unknown fields adds =>
      rw [adds, adds]
      exact (related.insertAll rfl).forget

theorem extend (related : part.Within whole) {first second : ColumnSet}
    (named : first.names = second.names) (known : first.known = second.known) :
    (part.extend first).Within (whole.extend second) := by
  have inserted := related.insertAll named
  refine ⟨inserted.nodup, inserted.listed, ?_⟩
  simp only [ColumnSet.extend, Bool.and_eq_true, known]
  rintro ⟨knownPart, knownSecond⟩
  exact ⟨related.known knownPart, knownSecond⟩

theorem drop (related : part.Within whole) (patterns : List String) :
    (part.drop patterns).Within (whole.drop patterns) := by
  constructor
  · exact nodup_drop related.nodup patterns
  · intro name member
    rw [mem_names, get?_drop] at member ⊢
    split at member
    · contradiction
    · rw [if_neg (by assumption)]
      exact mem_names.mp (related.listed (mem_names.mpr member))
  · exact related.known

/-- A selection keeps the relation if it matches all that an unknown set lists. -/
theorem keep (related : part.Within whole) {patterns : List String}
    (matched : part.known = true ∨
      ∀ name ∈ part.names, patterns.any (Text.globMatch · name) = true) :
    (part.keep patterns).Within (whole.keep patterns) := by
  constructor
  · exact nodup_keep related.nodup patterns
  · intro name member
    have selected : name ∈ part.names ∧ (part.known = true →
        patterns.any (Text.globMatch · name) = true) := by
      cases known : part.known with
      | false =>
          rw [keep_of_not_known known] at member
          exact ⟨member, nofun⟩
      | true =>
          rw [mem_names, get?_keep_of_known known] at member
          split at member
          · exact ⟨mem_names.mpr member, fun _ => by assumption⟩
          · contradiction
    have inside := related.listed selected.1
    cases known : whole.known with
    | false =>
        rw [keep_of_not_known known]
        exact inside
    | true =>
        have covered : patterns.any (Text.globMatch · name) = true :=
          matched.elim selected.2 (· name selected.1)
        rw [mem_names, get?_keep_of_known known, if_pos covered]
        exact mem_names.mp inside
  · rw [known_keep, known_keep]
    exact related.known

theorem rename (related : part.Within whole) (old new : String) :
    (part.rename old new).Within (whole.rename old new) := by
  constructor
  · exact nodup_rename related.nodup old new
  · intro name member
    by_cases isNew : name = new
    · exact isNew ▸ mem_names_rename_new whole old new
    · have notOld : name ≠ old := by
        rintro rfl
        exact not_mem_names_rename related.nodup isNew member
      rw [mem_names, get?_rename_of_ne _ isNew notOld] at member ⊢
      exact mem_names.mp (related.listed (mem_names.mpr member))
  · rw [known_rename, known_rename]
    exact related.known

/-- A column that is there is renamed in both runs, unless it is known to be missing in one. -/
theorem renamed (related : part.Within whole) {columns : Column × Column}
    (present : whole.lacks columns.1.name = false) :
    (part.renamed columns).Within (whole.renamed columns) := by
  rw [ColumnSet.renamed, ColumnSet.renamed, present, if_neg Bool.false_ne_true]
  split
  · rename_i lacks
    rw [lacks_iff] at lacks
    refine ⟨related.nodup, ?_, ?_⟩
    · intro name member
      by_cases isNew : name = columns.2.name
      · exact isNew ▸ mem_names_rename_new whole columns.1.name columns.2.name
      · have notOld : name ≠ columns.1.name := fun same => lacks.2 (same ▸ member)
        rw [mem_names, get?_rename_of_ne _ isNew notOld]
        exact mem_names.mp (related.listed member)
    · rw [known_rename]
      exact related.known
  · exact related.rename columns.1.name columns.2.name

theorem merge {parts wholes : List ColumnSet} (related : List.Forall₂ Within parts wholes) :
    (merge parts).Within (merge wholes) := by
  refine ⟨nodup_merge parts, ?_, ?_⟩
  · intro name member
    rw [mem_names_merge] at member ⊢
    induction related with
    | nil => exact member
    | cons first _ ih =>
        obtain ⟨output, inside, lists⟩ := member
        rcases List.mem_cons.mp inside with rfl | inside
        · exact ⟨_, List.mem_cons_self, first.listed lists⟩
        · obtain ⟨other, otherInside, otherLists⟩ := ih ⟨output, inside, lists⟩
          exact ⟨other, List.mem_cons_of_mem _ otherInside, otherLists⟩
  · intro known
    induction related with
    | nil => rfl
    | cons first _ ih =>
        simp only [ColumnSet.merge, List.all_cons, Bool.and_eq_true] at known ih ⊢
        exact ⟨first.known known.1, ih known.2⟩

theorem forked (related : part.Within whole) {parts wholes : List ColumnSet}
    (branches : List.Forall₂ Within parts wholes) :
    (part.forked parts).Within (whole.forked wholes) := by
  cases branches with
  | nil => exact related
  | cons first rest => exact (merge (.cons first rest)).insert rfl

end ColumnSet.Within

end Esql
