import Esql.Proofs.Columns.Lookup
import Mathlib.Data.List.Sort

/-!
# The order of columns

Kept columns are listed in the order of the first pattern that matches each, and those with the same
first pattern in the order in which they stood. So keeping them again changes nothing. A column that
gets another name stays at its place, and only a column that is given its own name once more moves
to the end, as one that is defined again does.
-/

namespace Esql

namespace ColumnSet

variable {set : ColumnSet} {fields : List Field} {field : Field}

/-! ## Keeping columns -/

/-- The number of patterns before the first one that matches a name. -/
def firstMatch (patterns : List String) (name : String) : Nat :=
  patterns.findIdx (Text.globMatch · name)

/-- The column is matched by an earlier pattern than the other one, or both are first matched by the
same pattern and it stands before the other one. -/
def Precedes (set : ColumnSet) (patterns : List String) (first second : Field) : Prop :=
  firstMatch patterns first.name < firstMatch patterns second.name ∨
    firstMatch patterns first.name = firstMatch patterns second.name ∧
      set.names.idxOf first.name < set.names.idxOf second.name

/-- The fields that the first pattern matches, then those of the others that the second one matches,
and so on. -/
def selected : List String → List Field → List Field
  | [], _ => []
  | pattern :: rest, fields =>
      (fields.filter fun field => Text.globMatch pattern field.name) ++
        selected rest (fields.filter fun field => !Text.globMatch pattern field.name)

/-- Each pattern adds the columns that it matches and that are not listed yet. -/
theorem foldl_listOnce_flatMap (distinct : (fields.map (·.name)).Nodup) (patterns : List String)
    (kept : List Field) :
    (patterns.flatMap fun pattern =>
        fields.filter fun field => Text.globMatch pattern field.name).foldl listOnce kept =
      kept ++ selected patterns
        (fields.filter fun field => !kept.any fun known => known.name == field.name) := by
  induction patterns generalizing kept with
  | nil => exact (List.append_nil kept).symm
  | cons pattern rest ih =>
      have matched : ((fields.filter fun field =>
          Text.globMatch pattern field.name).map (·.name)).Nodup :=
        distinct.sublist (List.filter_sublist.map _)
      rw [List.flatMap_cons, List.foldl_append, foldl_listOnce_of_nodup matched, ih, selected,
        List.append_assoc, List.filter_filter, List.filter_filter, List.filter_filter]
      congr 2
      · exact List.filter_congr fun _ _ => Bool.and_comm _ _
      · congr 1
        refine List.filter_congr fun field member => ?_
        -- A field is listed now if it was before or if this pattern matches it.
        have added : (fields.filter fun other =>
            !(kept.any fun known => known.name == other.name) &&
              Text.globMatch pattern other.name).any (fun known => known.name == field.name) =
            (!(kept.any fun known => known.name == field.name) &&
              Text.globMatch pattern field.name) := by
          rw [Bool.eq_iff_iff, List.any_eq_true]
          constructor
          · rintro ⟨other, inside, same⟩
            exact beq_iff_eq.mp same ▸ (List.mem_filter.mp inside).2
          · exact fun new => ⟨field, List.mem_filter.mpr ⟨member, new⟩, beq_self_eq_true _⟩
        rw [List.any_append, added]
        cases kept.any fun known => known.name == field.name <;>
          cases Text.globMatch pattern field.name <;> rfl

theorem fields_keep (known : set.known = true) (distinct : set.names.Nodup)
    (patterns : List String) : (set.keep patterns).fields = selected patterns set.fields := by
  rw [keep, if_pos known]
  refine (foldl_listOnce_flatMap distinct patterns []).trans ?_
  rw [List.nil_append]
  exact congrArg (selected patterns) (List.filter_eq_self.mpr fun _ _ => rfl)

/-- What is selected are the fields that some pattern matches. -/
theorem perm_selected (patterns : List String) (fields : List Field) :
    (selected patterns fields).Perm
      (fields.filter fun field => patterns.any (Text.globMatch · field.name)) := by
  induction patterns generalizing fields with
  | nil => exact .of_eq (List.filter_eq_nil_iff.mpr fun _ _ => Bool.false_ne_true).symm
  | cons pattern rest ih =>
      let wanted := fields.filter fun field => (pattern :: rest).any (Text.globMatch · field.name)
      have here : (wanted.filter fun field => Text.globMatch pattern field.name) =
          fields.filter fun field => Text.globMatch pattern field.name := by
        rw [List.filter_filter]
        refine List.filter_congr fun field _ => ?_
        rw [List.any_cons]
        cases Text.globMatch pattern field.name <;> rfl
      have behind : (wanted.filter fun field => !Text.globMatch pattern field.name) =
          (fields.filter fun field => !Text.globMatch pattern field.name).filter
            fun field => rest.any (Text.globMatch · field.name) := by
        rw [List.filter_filter, List.filter_filter]
        refine List.filter_congr fun field _ => ?_
        rw [List.any_cons]
        cases Text.globMatch pattern field.name with
        | true => exact (Bool.and_false _).symm
        | false => exact (Bool.true_and _).trans (Bool.and_true _).symm
      rw [selected]
      refine ((ih _).append_left _).trans ?_
      rw [← here, ← behind]
      exact List.filter_append_perm _ wanted

/-- What is selected is in the order of the first matches, and among the columns of one pattern in
any order that there was before. -/
theorem pairwise_selected {before : Field → Field → Prop} (patterns : List String)
    (ordered : fields.Pairwise before) :
    (selected patterns fields).Pairwise fun first second =>
      firstMatch patterns first.name < firstMatch patterns second.name ∨
        firstMatch patterns first.name = firstMatch patterns second.name ∧ before first second := by
  induction patterns generalizing fields with
  | nil => exact List.Pairwise.nil
  | cons pattern rest ih =>
      have now {field : Field} (matched : Text.globMatch pattern field.name = true) :
          firstMatch (pattern :: rest) field.name = 0 := by
        rw [firstMatch, List.findIdx_cons, matched]
        rfl
      have later {field : Field} (unmatched : (!Text.globMatch pattern field.name) = true) :
          firstMatch (pattern :: rest) field.name = firstMatch rest field.name + 1 := by
        rw [Bool.not_eq_true'] at unmatched
        rw [firstMatch, List.findIdx_cons, unmatched]
        rfl
      have missed : ∀ field ∈ selected rest
          (fields.filter fun field => !Text.globMatch pattern field.name),
          (!Text.globMatch pattern field.name) = true := by
        intro field member
        have inside := (List.mem_filter.mp ((perm_selected rest _).mem_iff.mp member)).1
        exact (List.mem_filter.mp inside).2
      rw [selected, List.pairwise_append]
      refine ⟨?_, ?_, ?_⟩
      · refine (ordered.filter _).imp_of_mem fun {first second} here there before => .inr ?_
        exact ⟨(now (List.mem_filter.mp here).2).trans (now (List.mem_filter.mp there).2).symm,
          before⟩
      · refine (ih (ordered.filter _)).imp_of_mem fun {first second} here there order => ?_
        rw [later (missed first here), later (missed second there)]
        exact order.imp Nat.succ_lt_succ (And.imp_left (congrArg Nat.succ))
      · intro first here second there
        rw [now (List.mem_filter.mp here).2, later (missed second there)]
        exact .inl (Nat.succ_pos _)

/-- The columns of a set stand in the order of their positions. -/
theorem pairwise_idxOf (distinct : set.names.Nodup) :
    set.fields.Pairwise fun first second =>
      set.names.idxOf first.name < set.names.idxOf second.name := by
  have positions : set.names.Pairwise fun first second =>
      set.names.idxOf first < set.names.idxOf second := by
    rw [List.pairwise_iff_getElem]
    intro i j first second before
    rwa [distinct.idxOf_getElem, distinct.idxOf_getElem]
  exact List.Pairwise.of_map (·.name) (fun _ _ before => before) positions

/-- The same fields in the same order are the same list. -/
theorem eq_of_perm_of_precedes {patterns : List String} {others : List Field}
    (same : fields.Perm others) (ordered : fields.Pairwise (set.Precedes patterns))
    (alike : others.Pairwise (set.Precedes patterns)) : fields = others := by
  refine same.eq_of_pairwise (fun first second _ _ here there => ?_) ordered alike
  unfold Precedes at here there
  omega

/-- A known set of distinct columns keeps the columns that some pattern matches, each once and as it
is. They come in the order of the first pattern that matches each, and those with the same first
pattern in the order in which they stood. Keeping them again changes nothing. -/
theorem sorted_keep (known : set.known = true) (distinct : set.names.Nodup)
    (patterns : List String) :
    (set.keep patterns).fields.Perm
        (set.fields.filter fun field => patterns.any (Text.globMatch · field.name)) ∧
      (set.keep patterns).fields.Pairwise (set.Precedes patterns) ∧
      (set.keep patterns).keep patterns = set.keep patterns := by
  have kept := fields_keep known distinct patterns
  have still : (set.keep patterns).known = true := (known_keep set patterns).trans known
  have distinctStill := nodup_keep distinct patterns
  have again := fields_keep still distinctStill patterns
  have ordered := pairwise_selected patterns (pairwise_idxOf distinct)
  have chosen := perm_selected patterns set.fields
  rw [← kept] at ordered chosen
  refine ⟨chosen, ordered, ?_⟩
  have all : ∀ field ∈ (set.keep patterns).fields,
      patterns.any (Text.globMatch · field.name) = true :=
    fun field member => (List.mem_filter.mp (chosen.mem_iff.mp member)).2
  have same : ((set.keep patterns).keep patterns).fields.Perm (set.keep patterns).fields := by
    rw [again]
    refine (perm_selected patterns _).trans ?_
    rw [List.filter_eq_self.mpr all]
  have first : (set.keep patterns).fields.Pairwise ((set.keep patterns).Precedes patterns) :=
    (ordered.and (pairwise_idxOf distinctStill)).imp fun ⟨rank, position⟩ =>
      rank.imp id fun equal => ⟨equal.1, position⟩
  have second : ((set.keep patterns).keep patterns).fields.Pairwise
      ((set.keep patterns).Precedes patterns) :=
    again ▸ pairwise_selected patterns (pairwise_idxOf distinctStill)
  have listed := eq_of_perm_of_precedes same second first
  exact congrArg₂ ColumnSet.mk listed (known_keep (set.keep patterns) patterns)

/-- Two patterns that match some of the same columns. -/
theorem sorted_keep_overlapping :
    let set : ColumnSet := ⟨[⟨"ab", some .long, false⟩, ⟨"c", none, true⟩, ⟨"a", none, false⟩,
      ⟨"b", some .keyword, true⟩], true⟩
    set.known = true ∧ set.names.Nodup ∧ (set.keep ["*b", "a*", "ab"]).names = ["ab", "b", "a"] ∧
      (set.keep ["*b", "a*", "ab"]).fields.Perm (set.fields.filter fun field =>
        ["*b", "a*", "ab"].any (Text.globMatch · field.name)) ∧
      (set.keep ["*b", "a*", "ab"]).fields.Pairwise (set.Precedes ["*b", "a*", "ab"]) ∧
      (set.keep ["*b", "a*", "ab"]).keep ["*b", "a*", "ab"] = set.keep ["*b", "a*", "ab"] := by
  intro set
  have distinct : set.names.Nodup := by decide
  have names : (set.keep ["*b", "a*", "ab"]).names = ["ab", "b", "a"] := by decide +kernel
  exact ⟨rfl, distinct, names, sorted_keep rfl distinct ["*b", "a*", "ab"]⟩

end ColumnSet

/-! ## Renaming columns -/

/-- The field under another name, which the query gives it. -/
def Field.renamed (field : Field) (new : String) : Field :=
  { field with name := new, userDefined := true }

/-- What becomes of a field where a column is renamed: the column has its new name, any other column
of that name is gone, and the rest stays. -/
def Field.behindRenaming? (old new : String) (field : Field) : Option Field :=
  if field.name = old then some (field.renamed new)
  else if field.name = new then none
  else some field

namespace ColumnSet

variable {set : ColumnSet} {fields : List Field} {field : Field} {old new : String}

/-- The set with a column under another name, every column at its place. -/
def renamedInPlace (set : ColumnSet) (old new : String) : ColumnSet :=
  { set with fields := set.fields.filterMap (Field.behindRenaming? old new) }

theorem erased_cons (field : Field) (rest : List Field) (name : String) :
    erased (field :: rest) name =
      if field.name = name then erased rest name else field :: erased rest name := by
  rw [erased, List.filter_cons]
  by_cases same : field.name = name
  · rw [if_pos same, if_neg fun differs => bne_iff_ne.mp differs same]
    rfl
  · rw [if_neg same, if_pos (bne_iff_ne.mpr same)]
    rfl

/-- Where the renamed column is not listed, only a column of the new name is affected. -/
theorem filterMap_behindRenaming? (absent : ∀ field ∈ fields, field.name ≠ old) :
    fields.filterMap (Field.behindRenaming? old new) = erased fields new := by
  induction fields with
  | nil => rfl
  | cons field rest ih =>
      obtain ⟨other, absent⟩ := List.forall_mem_cons.mp absent
      rw [List.filterMap_cons, Field.behindRenaming?, if_neg other, ih absent, erased_cons]
      by_cases same : field.name = new
      · rw [if_pos same, if_pos same]
      · rw [if_neg same, if_neg same]

/-- Under two different names, taking the new one away and giving it to the column is renaming the
column at its place. -/
theorem renamedIn_erased (distinct : (fields.map (·.name)).Nodup) (other : old ≠ new) :
    renamedIn old new (erased fields new) =
      fields.filterMap (Field.behindRenaming? old new) := by
  induction fields with
  | nil => rfl
  | cons field rest ih =>
      rw [List.map_cons, List.nodup_cons] at distinct
      rw [List.filterMap_cons, Field.behindRenaming?, erased_cons]
      by_cases here : field.name = old
      · have absent : ∀ later ∈ rest, later.name ≠ old := fun later member same =>
          distinct.1 (here.trans same.symm ▸ List.mem_map_of_mem member)
        rw [if_pos here, if_neg (here ▸ other), renamedIn, if_pos (beq_iff_eq.mpr here),
          filterMap_behindRenaming? absent]
        rfl
      · rw [if_neg here]
        split
        · exact ih distinct.2
        · rw [renamedIn, if_neg (here ∘ beq_iff_eq.mp), ih distinct.2]

theorem rename_of_ne (distinct : set.names.Nodup) (listed : field ∈ set.fields)
    (other : new ≠ field.name) : set.rename field.name new = set.renamedInPlace field.name new := by
  have found : (erased set.fields new).find? (·.name == field.name) = some field := by
    rw [find?_erased, if_neg (Ne.symm other)]
    exact get?_of_mem distinct listed
  rw [rename, renamedInPlace]
  dsimp only
  rw [get?, found, if_pos Option.isSome_some, renamedIn_erased distinct (Ne.symm other)]

/-- A column that is given its own name is defined again. -/
theorem rename_self (distinct : set.names.Nodup) (listed : field ∈ set.fields) :
    set.rename field.name field.name = set.insert (field.renamed field.name) := by
  have gone (name : String) : (erased (erased set.fields name) name) = erased set.fields name := by
    rw [erased, erased, List.filter_filter]
    exact List.filter_congr fun _ _ => Bool.and_self _
  rw [rename]
  dsimp only
  rw [get?, find?_erased, if_pos rfl, type?, get?_of_mem distinct listed]
  exact congrArg (fun fields => ColumnSet.mk (fields ++ [_]) set.known) (gone field.name)

/-- A column that is given its own name stays at its place only if it is the last one. -/
theorem insert_renamed_iff (distinct : set.names.Nodup) (listed : field ∈ set.fields) :
    set.insert (field.renamed field.name) = set.renamedInPlace field.name field.name ↔
      set.fields.getLast? = some field := by
  obtain ⟨front, back, split, before, behind⟩ := exists_around distinct listed
  have kept {fields : List Field} (absent : ∀ other ∈ fields, other.name ≠ field.name) :
      erased fields field.name = fields :=
    List.filter_eq_self.mpr fun other member => bne_iff_ne.mpr (absent other member)
  have added : (set.insert (field.renamed field.name)).fields =
      front ++ (back ++ [field.renamed field.name]) := by
    change erased set.fields field.name ++ [_] = _
    rw [split, ← List.append_assoc, erased, List.filter_append, ← erased, ← erased, erased_cons,
      if_pos rfl, kept before, kept behind]
  have inPlace : (set.renamedInPlace field.name field.name).fields =
      front ++ (field.renamed field.name :: back) := by
    rw [renamedInPlace, split, List.filterMap_append, List.filterMap_cons,
      Field.behindRenaming?, if_pos rfl, filterMap_behindRenaming? before,
      filterMap_behindRenaming? behind, kept before, kept behind]
  have same : set.insert (field.renamed field.name) = set.renamedInPlace field.name field.name ↔
      back ++ [field.renamed field.name] = field.renamed field.name :: back := by
    rw [← List.append_right_inj front, ← added, ← inPlace]
    exact ⟨congrArg fields, fun equal => congrArg (ColumnSet.mk · set.known) equal⟩
  rw [same, split, List.getLast?_append_cons]
  cases back with
  | nil => exact iff_of_true rfl rfl
  | cons next rest =>
      refine iff_of_false (fun moved => ?_) (fun last => ?_)
      · exact behind next (.head _) (by rw [(List.cons.inj moved).1, Field.renamed])
      · rw [List.getLast?_cons_cons] at last
        exact behind field (List.mem_of_getLast? last) rfl

/-- For every set of distinct columns, every column of it and every name: the column has the name at
its place afterwards, with its type and as one that the query introduces, any other column of that
name is gone, and all else is as it was, unless the name is the one that the column has and it is
not the last column. For a column that is given its own name is defined again, and moves to the
end. -/
theorem rename_eq_renamedInPlace_iff (distinct : set.names.Nodup) (listed : field ∈ set.fields)
    (new : String) :
    (set.rename field.name new = set.renamedInPlace field.name new ↔
      (new = field.name → set.fields.getLast? = some field)) ∧
    set.rename field.name field.name = set.insert (field.renamed field.name) := by
  refine ⟨?_, rename_self distinct listed⟩
  by_cases same : new = field.name
  · subst same
    rw [rename_self distinct listed, insert_renamed_iff distinct listed]
    exact ⟨fun last _ => last, fun last => last rfl⟩
  · exact iff_of_true (rename_of_ne distinct listed same) fun equal => absurd equal same

/-- A column that takes the name of one before it. -/
theorem rename_eq_renamedInPlace_taken :
    let set : ColumnSet := ⟨[⟨"z", some .long, false⟩, ⟨"a", some .keyword, false⟩,
      ⟨"b", none, false⟩], true⟩
    set.names.Nodup ∧ ⟨"a", some .keyword, false⟩ ∈ set.fields ∧
      set.rename "a" "z" = set.renamedInPlace "a" "z" ∧
      set.rename "a" "z" = ⟨[⟨"z", some .keyword, true⟩, ⟨"b", none, false⟩], true⟩ := by
  intro set
  have distinct : set.names.Nodup := by decide
  have listed : ⟨"a", some .keyword, false⟩ ∈ set.fields := .tail _ (.head _)
  obtain ⟨inPlace, -⟩ := rename_eq_renamedInPlace_iff distinct listed "z"
  exact ⟨distinct, listed, inPlace.mpr fun same => absurd same (by decide), by decide⟩

/-- A column that is given its own name does not stay before the others. -/
theorem not_rename_eq_renamedInPlace :
    ¬ ∀ set : ColumnSet, set.names.Nodup → ∀ old ∈ set.names, ∀ new,
      set.rename old new = set.renamedInPlace old new := by
  intro inPlace
  have same := inPlace ⟨[⟨"a", some .long, false⟩, ⟨"b", some .keyword, false⟩], true⟩ (by decide)
    "a" (by decide) "a"
  exact absurd same (by decide)

end ColumnSet

end Esql
