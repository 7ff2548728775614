import Esql.Proofs.Callable.Vague
import Esql.Proofs.Columns.Within

/-!
# Column sets with vaguer types

A set is below another one if it lists no more columns, with vaguer types, and both list the same
columns where the first is known. Every operation on column sets keeps this, under the condition on
selections and one on branches: of a name that several branches list, the type is that of the first
of them, so a branch that may hold more columns has to list those of the branches after it.
-/

namespace Esql

/-- Less is known of the columns in `part` than in `whole`. -/
structure ColumnSet.Below (part whole : ColumnSet) : Prop extends part.Within whole where
  complete : part.known = true → whole.names ⊆ part.names
  distinct : part.known = true → whole.names.Nodup
  typed : ∀ name, Vaguer (part.type? name) (whole.type? name)

/-- Two fields of one name, the first with a vaguer type. -/
structure Field.Vaguer (vague exact : Field) : Prop where
  name : vague.name = exact.name
  typed : Esql.Vaguer vague.type? exact.type?

theorem Field.Vaguer.refl (field : Field) : field.Vaguer field := ⟨rfl, .refl _⟩

theorem Field.Vaguer.refl_all (fields : List Field) : List.Forall₂ Field.Vaguer fields fields :=
  List.forall₂_same.mpr fun field _ => .refl field

/-- The same columns are replaced by ones of the same name. -/
theorem Field.Vaguer.insertAll {part whole : ColumnSet} {vagues exacts : List Field}
    (vaguer : List.Forall₂ Field.Vaguer vagues exacts)
    (related : List.Forall₂ Field.Vaguer part.fields whole.fields) :
    List.Forall₂ Field.Vaguer (part.insertAll vagues).fields (whole.insertAll exacts).fields := by
  induction vaguer generalizing part whole with
  | nil => exact related
  | cons head _ ih =>
      refine ih (List.rel_append ?_ (.cons head .nil))
      refine List.rel_filter (fun vague exact here => ?_) related
      dsimp only
      rw [here.name, head.name]

theorem Field.Vaguer.map_name {vagues exacts : List Field}
    (vaguer : List.Forall₂ Field.Vaguer vagues exacts) :
    vagues.map (·.name) = exacts.map (·.name) := by
  induction vaguer with
  | nil => rfl
  | cons head _ ih => rw [List.map_cons, List.map_cons, head.name, ih]

namespace ColumnSet

/-- Each output that may hold more columns lists those of the outputs behind it. -/
def aligned : List ColumnSet → Bool
  | [] => true
  | output :: rest =>
      (output.known || rest.all fun later => later.names.all output.names.contains) && aligned rest

variable {set : ColumnSet} {name : String}

theorem type?_drop (set : ColumnSet) (patterns : List String) (name : String) :
    (set.drop patterns).type? name =
      if patterns.any (Text.globMatch · name) then none else set.type? name := by
  rw [type?, get?_drop]
  split <;> rfl

theorem type?_keep_of_known (known : set.known = true) (patterns : List String) (name : String) :
    (set.keep patterns).type? name =
      if patterns.any (Text.globMatch · name) then set.type? name else none := by
  rw [type?, get?_keep_of_known known]
  split <;> rfl

theorem type?_rename_of_ne {old new : String} (set : ColumnSet) (notNew : name ≠ new)
    (notOld : name ≠ old) : (set.rename old new).type? name = set.type? name := by
  rw [type?, get?_rename_of_ne set notNew notOld, type?]

/-- The type of a merged column is that in the first branch that lists it. -/
theorem type?_merge_cons (output : ColumnSet) (rest : List ColumnSet) (name : String) :
    (merge (output :: rest)).type? name =
      if name ∈ output.names then output.type? name else (merge rest).type? name := by
  rw [type?, get?_merge, List.findSome?_cons, type?, type?, get?_merge]
  split
  · rename_i field found
    rw [if_pos (mem_names.mpr (found ▸ rfl)), found]
  · rename_i absent
    rw [if_neg (fun listed => by rw [mem_names, absent] at listed; contradiction)]

namespace Below

variable {part whole : ColumnSet}

theorem refl {set : ColumnSet} (distinct : set.names.Nodup) : set.Below set :=
  ⟨.refl distinct, fun _ => List.Subset.refl _, fun _ => distinct, fun _ => .refl _⟩

theorem unknown (set : ColumnSet) : ColumnSet.unknown.Below set :=
  ⟨.unknown set, nofun, nofun, fun _ => .none _⟩

/-- A column is missing for certain only if it is missing. -/
theorem lacks (related : part.Below whole) {name : String} (missing : part.lacks name = true) :
    whole.lacks name = true := by
  rw [lacks_iff] at missing ⊢
  exact ⟨related.known missing.1, fun listed => missing.2 (related.complete missing.1 listed)⟩

theorem lacks_eq_false (related : part.Below whole) {name : String}
    (present : whole.lacks name = false) : part.lacks name = false := by
  rw [Bool.eq_false_iff] at present ⊢
  exact fun missing => present (related.lacks missing)

theorem insert (related : part.Below whole) {vague exact : Field} (vaguer : vague.Vaguer exact) :
    (part.insert vague).Below (whole.insert exact) := by
  refine ⟨related.toWithin.insert vaguer.name, ?_, ?_, ?_⟩
  · intro known name listed
    rw [mem_names_insert] at listed ⊢
    rcases listed with rfl | listed
    · exact .inl vaguer.name.symm
    · exact .inr (related.complete known listed)
  · exact fun known => nodup_insert (related.distinct known) exact
  · intro name
    rw [type?_insert, type?_insert, vaguer.name]
    split
    · exact vaguer.typed
    · exact related.typed name

theorem insertAll (related : part.Below whole) {vagues exacts : List Field}
    (vaguer : List.Forall₂ Field.Vaguer vagues exacts) :
    (part.insertAll vagues).Below (whole.insertAll exacts) := by
  induction vaguer generalizing part whole with
  | nil => exact related
  | cons head _ ih => exact ih (related.insert head)

theorem insertSame (related : part.Below whole) (fields : List Field) :
    (part.insertAll fields).Below (whole.insertAll fields) :=
  related.insertAll (Field.Vaguer.refl_all fields)

theorem ofFields {vagues exacts : List Field} (vaguer : List.Forall₂ Field.Vaguer vagues exacts) :
    (ColumnSet.ofFields vagues).Below (ColumnSet.ofFields exacts) :=
  (refl nodup_empty).insertAll vaguer

theorem forget (related : part.Below whole) : part.forget.Below whole.forget :=
  ⟨related.toWithin.forget, nofun, nofun, related.typed⟩

theorem adds (related : part.Below whole) {add : ColumnSet → ColumnSet} (adds : Adds add) :
    (add part).Below (add whole) := by
  cases adds with
  | known fields adds =>
      rw [adds, adds]
      exact related.insertSame fields
  | unknown fields adds =>
      rw [adds, adds]
      exact (related.insertSame fields).forget

/-- Adding the columns of two sets that are known or not alike. -/
theorem extend (related : part.Below whole) {first second : ColumnSet}
    (vaguer : List.Forall₂ Field.Vaguer first.fields second.fields)
    (known : first.known = second.known) : (part.extend first).Below (whole.extend second) := by
  have inserted := related.insertAll vaguer
  refine ⟨related.toWithin.extend (Field.Vaguer.map_name vaguer) known, ?_, ?_, inserted.typed⟩
  · intro all
    rw [ColumnSet.extend, Bool.and_eq_true] at all
    exact inserted.complete ((known_insertAll _ _).trans all.1)
  · intro all
    rw [ColumnSet.extend, Bool.and_eq_true] at all
    exact inserted.distinct ((known_insertAll _ _).trans all.1)

theorem drop (related : part.Below whole) (patterns : List String) :
    (part.drop patterns).Below (whole.drop patterns) := by
  refine ⟨related.toWithin.drop patterns, ?_, ?_, ?_⟩
  · intro known name listed
    rw [mem_names, get?_drop] at listed ⊢
    split at listed
    · contradiction
    · rw [if_neg (by assumption)]
      exact mem_names.mp (related.complete known (mem_names.mpr listed))
  · exact fun known => nodup_drop (related.distinct known) patterns
  · intro name
    rw [type?_drop, type?_drop]
    split
    · exact .none _
    · exact related.typed name

/-- A selection keeps the relation if it matches all that an unknown set lists. -/
theorem keep (related : part.Below whole) {patterns : List String}
    (matched : part.known = true ∨
      ∀ name ∈ part.names, patterns.any (Text.globMatch · name) = true) :
    (part.keep patterns).Below (whole.keep patterns) := by
  refine ⟨related.toWithin.keep matched, ?_, ?_, ?_⟩
  · intro known name listed
    rw [known_keep] at known
    rw [mem_names, get?_keep_of_known (related.known known)] at listed
    rw [mem_names, get?_keep_of_known known]
    split at listed
    · rw [if_pos (by assumption)]
      exact mem_names.mp (related.complete known (mem_names.mpr listed))
    · contradiction
  · intro known
    rw [known_keep] at known
    exact nodup_keep (related.distinct known) patterns
  · intro name
    cases wholeKnown : whole.known with
    | false =>
        have partKnown : part.known = false :=
          Bool.eq_false_iff.mpr fun known => Bool.eq_false_iff.mp wholeKnown (related.known known)
        rw [keep_of_not_known partKnown, keep_of_not_known wholeKnown]
        exact related.typed name
    | true =>
        rw [type?_keep_of_known wholeKnown]
        cases partKnown : part.known with
        | true =>
            rw [type?_keep_of_known partKnown]
            split
            · exact related.typed name
            · exact .none _
        | false =>
            rw [keep_of_not_known partKnown]
            split
            · exact related.typed name
            · rename_i unmatched
              have absent : name ∉ part.names := fun listed =>
                unmatched (matched.elim (fun known => by rw [known] at partKnown; contradiction)
                  (· name listed))
              rw [type?_eq_none absent]
              exact .none _

/-- Renaming a column, which may be hidden in an unknown set. -/
theorem rename (related : part.Below whole) (old new : String) :
    (part.rename old new).Below (whole.rename old new) := by
  refine ⟨related.toWithin.rename old new, ?_, ?_, ?_⟩
  · intro known name listed
    rw [known_rename] at known
    by_cases isNew : name = new
    · exact isNew ▸ mem_names_rename_new part old new
    · have notOld : name ≠ old := by
        rintro rfl
        exact not_mem_names_rename (related.distinct known) isNew listed
      rw [mem_names, get?_rename_of_ne _ isNew notOld] at listed ⊢
      exact mem_names.mp (related.complete known (mem_names.mpr listed))
  · intro known
    rw [known_rename] at known
    exact nodup_rename (related.distinct known) old new
  · intro name
    by_cases isNew : name = new
    · subst isNew
      rw [type?_rename_new, type?_rename_new]
      exact related.typed old
    · by_cases isOld : name = old
      · subst isOld
        rw [type?_eq_none (not_mem_names_rename related.nodup isNew)]
        exact .none _
      · rw [type?_rename_of_ne part isNew isOld, type?_rename_of_ne whole isNew isOld]
        exact related.typed name

theorem renamed (related : part.Below whole) {columns : Column × Column}
    (present : whole.lacks columns.1.name = false) :
    (part.renamed columns).Below (whole.renamed columns) := by
  rw [ColumnSet.renamed, ColumnSet.renamed, present, related.lacks_eq_false present]
  exact related.rename _ _

/-! ## Merging branches -/

/-- What comes behind a branch that does not list a column, but may hold it, does not list it. -/
theorem not_mem_names_behind (related : part.Below whole) {parts : List ColumnSet}
    (alike : aligned (part :: parts) = true) {name : String} (absent : name ∉ part.names)
    (listed : name ∈ whole.names) : name ∉ (ColumnSet.merge parts).names := by
  rw [aligned, Bool.and_eq_true, Bool.or_eq_true] at alike
  rcases alike.1 with known | covered
  · exact absurd (related.complete known listed) absent
  · intro behind
    obtain ⟨later, member, lists⟩ := mem_names_merge.mp behind
    rw [List.all_eq_true] at covered
    exact absent (List.contains_iff_mem.mp
      (List.all_eq_true.mp (covered later member) name lists))

theorem merge {parts wholes : List ColumnSet} (related : List.Forall₂ Below parts wholes)
    (alike : aligned parts = true) :
    (ColumnSet.merge parts).Below (ColumnSet.merge wholes) := by
  refine ⟨.merge (related.imp fun _ _ below => below.toWithin), ?_, fun _ => nodup_merge wholes, ?_⟩
  · intro known name listed
    rw [mem_names_merge] at listed ⊢
    induction related with
    | nil => exact listed
    | cons head _ ih =>
        rw [aligned, Bool.and_eq_true] at alike
        simp only [ColumnSet.merge, List.all_cons, Bool.and_eq_true] at known
        obtain ⟨output, inside, lists⟩ := listed
        rcases List.mem_cons.mp inside with rfl | inside
        · exact ⟨_, List.mem_cons_self, head.complete known.1 lists⟩
        · obtain ⟨other, otherInside, otherLists⟩ := ih alike.2 known.2 ⟨output, inside, lists⟩
          exact ⟨other, List.mem_cons_of_mem _ otherInside, otherLists⟩
  · intro name
    induction related with
    | nil => exact .refl _
    | cons head _ ih =>
        have behind := @not_mem_names_behind _ _ head _ alike name
        rw [aligned, Bool.and_eq_true] at alike
        rw [type?_merge_cons, type?_merge_cons]
        split
        · rw [if_pos (head.listed (by assumption))]
          exact head.typed name
        · split
          · rw [type?_eq_none (behind (by assumption) (by assumption))]
            exact .none _
          · exact ih alike.2

theorem forked (related : part.Below whole) {parts wholes : List ColumnSet}
    (branches : List.Forall₂ Below parts wholes) (alike : aligned parts = true) :
    (part.forked parts).Below (whole.forked wholes) := by
  cases branches with
  | nil => exact related
  | cons first rest => exact (merge (.cons first rest) alike).insert (.refl _)

end Below

end ColumnSet

end Esql
