import Esql.Callable.Catalog
import Mathlib.Data.List.Nodup

/-!
# The index of callables

The index is filled callable by callable, and place by place for each of them. What it lists for a
place is what a scan of all callables finds there, in the order of the scan, as many times as a
callable has the place; what it holds for a name is the last callable with it.
-/

namespace Esql.Callable

namespace PlaceIndex

@[simp]
theorem listedAt_nil (place : Place) : listedAt [] place = [] := rfl

/-- A position is added behind those of its place, and other places keep theirs. -/
theorem listedAt_add (position : Nat) (index : PlaceIndex) (place other : Place) :
    (add position index place).listedAt other =
      index.listedAt other ++ if place = other then [position] else [] := by
  induction index with
  | nil =>
      by_cases same : place = other
      · subst same
        simp [add, listedAt]
      · have apart : (other == place) = false := by simpa using Ne.symm same
        simp [add, listedAt, List.lookup_cons, same, apart]
  | cons entry rest ih =>
      obtain ⟨key, listed⟩ := entry
      have lookup (positions : List Nat) (more : PlaceIndex) :
          listedAt ((key, positions) :: more) other =
            if other = key then positions else listedAt more other := by
        by_cases found : other = key
        · subst found
          simp [listedAt]
        · have apart : (other == key) = false := by simpa using found
          simp [listedAt, List.lookup_cons, apart, found]
      unfold add
      split
      · rename_i same
        obtain rfl : key = place := beq_iff_eq.mp same
        rw [lookup, lookup]
        by_cases found : other = key
        · rw [if_pos found, if_pos found, if_pos found.symm]
        · rw [if_neg found, if_neg found, if_neg (Ne.symm found), List.append_nil]
      · rename_i apart
        have apart : key ≠ place := by simpa using apart
        rw [lookup, lookup, ih]
        by_cases found : other = key
        · subst found
          rw [if_pos rfl, if_pos rfl, if_neg apart.symm, List.append_nil]
        · rw [if_neg found, if_neg found]

/-- A position is added once for each time that a place is among those given. -/
theorem listedAt_foldl_add (position : Nat) (places : List Place) (index : PlaceIndex)
    (place : Place) :
    (places.foldl (add position) index).listedAt place =
      index.listedAt place ++ List.replicate (places.count place) position := by
  induction places generalizing index with
  | nil => simp
  | cons first places ih =>
      rw [List.foldl_cons, ih, listedAt_add, List.count_cons, List.append_assoc]
      by_cases same : first = place
      · simp [same, List.replicate_succ]
      · simp [same]

end PlaceIndex

namespace Positions

/-- The entries by name are those of the callables, the latest first. -/
theorem byName_foldl_add (entries : List (Callable × Nat)) (positions : Positions) :
    (entries.foldl add positions).byName =
      entries.reverse.map (fun entry => (entry.1.name, entry.2)) ++ positions.byName := by
  induction entries generalizing positions with
  | nil => rfl
  | cons entry entries ih => simp [ih, add]

/-- The positions of a place are those of the callables, in order. -/
theorem listedAt_foldl_add (entries : List (Callable × Nat)) (positions : Positions)
    (place : Place) :
    (entries.foldl add positions).byPlace.listedAt place =
      positions.byPlace.listedAt place ++
        entries.flatMap fun entry => List.replicate (entry.1.places.count place) entry.2 := by
  induction entries generalizing positions with
  | nil => simp
  | cons entry entries ih =>
      rw [List.foldl_cons, ih, add, PlaceIndex.listedAt_foldl_add, List.flatMap_cons,
        List.append_assoc]

end Positions

/-- The first entry of a name is that of the first callable with the name. -/
theorem lookup_names (entries : List (Callable × Nat)) (name : String) :
    (entries.map fun entry => (entry.1.name, entry.2)).lookup name =
      (entries.find? fun entry => entry.1.name == name).map (·.2) := by
  induction entries with
  | nil => rfl
  | cons entry entries ih =>
      rw [List.map_cons, List.lookup_cons, List.find?_cons, Bool.beq_comm (a := name), ih]
      cases entry.1.name == name <;> rfl

namespace Registry

variable {callables : List Callable} {entries : List (Callable × Nat)}

theorem getElem?_of_mem_zipIdx :
    ∀ entry ∈ callables.zipIdx, callables[entry.2]? = some entry.1 :=
  fun _ member => List.mem_zipIdx_iff_getElem?.mp member

/-- The callable at the position of the first entry that is looked for. -/
theorem getElem?_find? (stand : ∀ entry ∈ entries, callables[entry.2]? = some entry.1)
    (sought : Callable → Bool) :
    ((entries.find? fun entry => sought entry.1).map (·.2)).bind (callables[·]?) =
      (entries.map (·.1)).find? sought := by
  rw [List.find?_map]
  cases found : entries.find? fun entry => sought entry.1 with
  | none => exact (congrArg (Option.map _) found).symm
  | some entry =>
      exact (stand entry (List.mem_of_find?_eq_some found)).trans
        (congrArg (Option.map _) found).symm

/-- The callables at the positions of some entries. -/
theorem filterMap_positions (stand : ∀ entry ∈ entries, callables[entry.2]? = some entry.1)
    (times : Callable → Nat) :
    (entries.flatMap fun entry => List.replicate (times entry.1) entry.2).filterMap
        (callables[·]?) =
      (entries.map (·.1)).flatMap fun callable => List.replicate (times callable) callable := by
  induction entries with
  | nil => rfl
  | cons entry entries ih =>
      obtain ⟨here, behind⟩ := List.forall_mem_cons.mp stand
      rw [List.flatMap_cons, List.filterMap_append, ih behind, List.map_cons, List.flatMap_cons,
        List.filterMap_replicate_of_some here]

/-- A callable is found by its name; of several with one name it is the last one. -/
theorem find?_ofList (callables : List Callable) (name : String) :
    (ofList callables).find? name = callables.reverse.find? fun callable => callable.name == name := by
  have stand : ∀ entry ∈ callables.zipIdx.reverse, callables[entry.2]? = some entry.1 :=
    fun entry member => getElem?_of_mem_zipIdx entry (List.mem_reverse.mp member)
  have names := Positions.byName_foldl_add callables.zipIdx .empty
  rw [find?, ofList, Positions.ofList, names, Positions.empty, List.append_nil, lookup_names,
    getElem?_find? stand fun callable => callable.name == name, List.map_reverse,
    List.zipIdx_map_fst]

/-- A place lists the callables that have it, in their order and as often as they have it. -/
theorem listedAt_ofList (callables : List Callable) (place : Place) :
    (ofList callables).listedAt place =
      callables.flatMap fun callable => List.replicate (callable.places.count place) callable := by
  have positions := Positions.listedAt_foldl_add callables.zipIdx .empty place
  rw [Positions.empty, PlaceIndex.listedAt_nil, List.nil_append] at positions
  rw [listedAt, ofList, Positions.ofList, Positions.empty, positions,
    filterMap_positions getElem?_of_mem_zipIdx fun callable => callable.places.count place,
    List.zipIdx_map_fst]

theorem mem_of_find?_ofList {name : String} {callable : Callable}
    (found : (ofList callables).find? name = some callable) :
    callable ∈ callables ∧ callable.name = name := by
  rw [find?_ofList] at found
  have same := List.find?_some found
  exact ⟨List.mem_reverse.mp (List.mem_of_find?_eq_some found), beq_iff_eq.mp same⟩

/-- Where names are distinct, every callable is the one found by its name. -/
theorem find?_ofList_of_nodup (distinct : (callables.map (·.name)).Nodup) {callable : Callable}
    (member : callable ∈ callables) : (ofList callables).find? callable.name = some callable := by
  cases found : (ofList callables).find? callable.name with
  | none =>
      rw [find?_ofList, List.find?_eq_none] at found
      exact absurd (beq_self_eq_true _) (found callable (List.mem_reverse.mpr member))
  | some other =>
      obtain ⟨inside, same⟩ := mem_of_find?_ofList found
      rw [List.inj_on_of_nodup_map distinct inside member same]

/-- Where no callable has a place twice, a place lists the callables that have it. -/
theorem listedAt_ofList_of_nodup (once : ∀ callable ∈ callables, callable.places.Nodup)
    (place : Place) :
    (ofList callables).listedAt place = callables.filter fun callable => place ∈ callable.places := by
  rw [listedAt_ofList]
  induction callables with
  | nil => rfl
  | cons callable callables ih =>
      obtain ⟨here, behind⟩ := List.forall_mem_cons.mp once
      rw [List.flatMap_cons, ih behind, List.filter_cons, here.count]
      by_cases listed : place ∈ callable.places
      · simp [listed]
      · simp [listed]

/-- The index answers as a scan of the callables does: for a place it gives those that have it, are
of a category asked for and may return what is wanted, in order and each once, and for a name the
callable with it. -/
theorem usableAt_ofList (callables : List Callable)
    (distinct : (callables.map (·.name)).Nodup)
    (once : ∀ callable ∈ callables, callable.places.Nodup) :
    (∀ place wanted categories,
      (ofList callables).usableAt place wanted categories =
          (callables.filter fun callable => place ∈ callable.places ∧
            callable.category ∈ categories ∧
            ∃ signature ∈ callable.signatures, signature.possibleReturn.intersects wanted) ∧
        ((ofList callables).usableAt place wanted categories).Nodup) ∧
      ∀ name callable, (ofList callables).find? name = some callable ↔
        callable ∈ callables ∧ callable.name = name := by
  refine ⟨fun place wanted categories => ?_, fun name callable => ⟨mem_of_find?_ofList, ?_⟩⟩
  · have scanned : (ofList callables).usableAt place wanted categories =
        callables.filter fun callable => place ∈ callable.places ∧
          callable.category ∈ categories ∧
          ∃ signature ∈ callable.signatures, signature.possibleReturn.intersects wanted := by
      rw [usableAt, listedAt_ofList_of_nodup once, List.filter_filter]
      refine List.filter_congr fun callable _ => ?_
      rw [Bool.eq_iff_iff]
      simp [fits, and_comm]
    refine ⟨scanned, ?_⟩
    rw [scanned]
    exact distinct.of_map.filter _
  · rintro ⟨member, rfl⟩
    exact find?_ofList_of_nodup distinct member

/-- The callables of the language have distinct names and no place twice. -/
theorem usableAt_ofList_catalog :
    (catalog.map (·.name)).Nodup ∧ (∀ callable ∈ catalog, callable.places.Nodup) ∧
      (registry.usableAt .statsBy .any [.grouping]).map (·.name) = ["bucket", "categorize"] := by
  have distinct : (catalog.map (·.name)).Nodup := by decide +kernel
  have once : ∀ callable ∈ catalog, callable.places.Nodup := by decide +kernel
  refine ⟨distinct, once, ?_⟩
  rw [registry, ((usableAt_ofList catalog distinct once).1 .statsBy .any [.grouping]).1]
  decide +kernel

end Registry

/-- What is found by a name is in the catalog under this name. -/
theorem mem_catalog_of_named? {name : String} {callable : Callable}
    (named : named? name = some callable) : callable ∈ catalog ∧ callable.name = name :=
  Registry.mem_of_find?_ofList named

end Esql.Callable
