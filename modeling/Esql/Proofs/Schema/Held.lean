import Esql.Schema.Basic
import Mathlib.Data.List.Nodup

/-!
# Columns held for sources

A schema answers a query with the columns that it holds for the sources, one source after the other.
What several sources share is listed for each of them, and a source that is named twice lists its
columns twice. Whether any source has columns of its own is judged by what all of them together
list, so entries without columns count only beside one that has some.
-/

namespace Esql.Schema

variable (schema : Schema)

/-- The entry of a source, if it has one. -/
def entry? (source : Source) : Option (List FieldMapping) :=
  schema.indexColumns.lookup source.name

/-- The entries of the sources of a command, in the order in which these are named. -/
def entries (command : Command) : List (List FieldMapping) :=
  command.sources.filterMap schema.entry?

/-- Some source of the command has an entry. -/
def hasEntry (command : Command) : Bool :=
  command.sources.any fun source => (schema.entry? source).isSome

/-- What the sources of a command provide: the columns of their entries, one entry after the other,
or the columns of every source if none has an entry. -/
def provided (command : Command) : Option (List FieldMapping) :=
  if schema.hasEntry command then some (schema.entries command).flatten else schema.columns?

theorem entries_eq_nil {command : Command} (none : schema.hasEntry command = false) :
    schema.entries command = [] := by
  refine List.filterMap_eq_nil_iff.mpr fun source member => ?_
  have absent := List.any_eq_false.mp none source member
  rwa [Option.not_isSome_iff_eq_none] at absent

theorem flatMap_heldFor (command : Command) :
    command.sources.flatMap schema.heldFor = (schema.entries command).flatten := by
  rw [entries]
  induction command.sources with
  | nil => rfl
  | cons source rest ih =>
      rw [List.flatMap_cons, List.filterMap_cons, heldFor, ih, entry?]
      cases schema.indexColumns.lookup source.name <;> rfl

/-! ## Narrowing -/

theorem narrow_of_free {commands : List Command}
    (free : ∀ command ∈ commands, command.name ≠ "keep") (columns : List FieldMapping) :
    narrow commands columns = columns := by
  have none : commands.find? (fun command => command.name == "keep") = none :=
    List.find?_eq_none.mpr fun command member same => free command member (beq_iff_eq.mp same)
  rw [narrow, none]

/-- A selection by names does not look at more than one column at a time. -/
theorem exists_narrow_eq_filter (commands : List Command) :
    ∃ keeps : FieldMapping → Bool, narrow commands = List.filter keeps := by
  cases found : commands.find? fun command => command.name == "keep" with
  | none => exact ⟨fun _ => true, by funext columns; rw [narrow, found, List.filter_true]⟩
  | some keep =>
      exact ⟨fun column => keep.columns.any fun kept => kept.name == column.name, by
        funext columns; rw [narrow, found]⟩

theorem nodup_narrow {columns : List FieldMapping} (distinct : (columns.map (·.name)).Nodup)
    (commands : List Command) : ((narrow commands columns).map (·.name)).Nodup := by
  obtain ⟨keeps, same⟩ := exists_narrow_eq_filter commands
  rw [same]
  exact distinct.sublist (List.filter_sublist.map _)

theorem narrow_flatten (commands : List Command) (lists : List (List FieldMapping)) :
    narrow commands lists.flatten = (lists.map (narrow commands)).flatten := by
  obtain ⟨keeps, same⟩ := exists_narrow_eq_filter commands
  rw [same, List.filter_flatten]

/-! ## Answers -/

section

variable {schema} {query : String} {first : Command} {rest : List Command}
  (commands : (parse query).pipeline.commands = first :: rest)

include commands

theorem columnsFor_eq :
    schema.columnsFor query =
      (if (schema.entries first).flatten = [] then schema.columns?
        else some (schema.entries first).flatten).map (narrow rest) := by
  rw [columnsFor, commands]
  dsimp only
  rw [flatMap_heldFor]
  simp only [List.isEmpty_iff]

/-- Where no entry of a source lists a column, the columns of every source are the answer, although
some source may have an entry. -/
theorem columnsFor_of_empty (free : ∀ command ∈ rest, command.name ≠ "keep")
    (empty : (schema.entries first).flatten = []) :
    schema.columnsFor query = schema.columns? := by
  rw [columnsFor_eq commands, if_pos empty]
  cases schema.columns? with
  | none => rfl
  | some columns => exact congrArg some (narrow_of_free free columns)

theorem columnsFor_of_listed (free : ∀ command ∈ rest, command.name ≠ "keep")
    (listed : (schema.entries first).flatten ≠ []) :
    schema.columnsFor query = some (schema.entries first).flatten := by
  rw [columnsFor_eq commands, if_neg listed]
  exact congrArg some (narrow_of_free free _)

/-- A query that selects no columns is answered with what its sources provide, unless some source
has an entry and no entry of any of them lists a column. Then the answer is not the empty list, but
the columns of every source. -/
theorem columnsFor_eq_provided_iff (free : ∀ command ∈ rest, command.name ≠ "keep") :
    (schema.columnsFor query = schema.provided first ↔
      (schema.hasEntry first = true → (∀ columns ∈ schema.entries first, columns = []) →
        schema.columns? = some [])) ∧
      ((∀ columns ∈ schema.entries first, columns = []) →
        schema.columnsFor query = schema.columns?) := by
  rw [← List.flatten_eq_nil_iff]
  refine ⟨?_, columnsFor_of_empty commands free⟩
  rw [provided]
  cases has : schema.hasEntry first with
  | false =>
      have empty : (schema.entries first).flatten = [] := by rw [schema.entries_eq_nil has]; rfl
      exact iff_of_true (columnsFor_of_empty commands free empty) nofun
  | true =>
      rw [if_pos rfl]
      by_cases empty : (schema.entries first).flatten = []
      · rw [columnsFor_of_empty commands free empty, empty]
        exact ⟨fun same _ _ => same, fun same => same rfl rfl⟩
      · exact iff_of_true (columnsFor_of_listed commands free empty) fun _ all => absurd all empty

end

/-- The names of the commands of a query, each with those of its sources. -/
def sourced (query : String) : List (String × List String) :=
  (parse query).pipeline.commands.map fun command => (command.name, command.sources.map (·.name))

/-- What a command provides depends on the names of its sources only. -/
theorem exists_of_sourced {query name : String} {sources : List String}
    {others : List (String × List String)} (read : sourced query = (name, sources) :: others) :
    ∃ first rest, (parse query).pipeline.commands = first :: rest ∧
      schema.entries first = sources.filterMap (schema.indexColumns.lookup ·) ∧
      schema.hasEntry first = sources.any (schema.indexColumns.lookup · |>.isSome) ∧
      ((∀ other ∈ others, other.1 ≠ "keep") → ∀ command ∈ rest, command.name ≠ "keep") := by
  obtain ⟨first, rest, commands, given, later⟩ := List.map_eq_cons_iff.mp read
  rw [Prod.mk.injEq] at given
  refine ⟨first, rest, commands, ?_, ?_, fun free command member => ?_⟩
  · rw [← given.2, List.filterMap_map]
    rfl
  · rw [← given.2, List.any_map]
    rfl
  · exact free (command.name, _) (later ▸ List.mem_map_of_mem member)

/-- Of two entries one has no columns, and a third source has no entry. -/
theorem columnsFor_eq_provided_mixed :
    let schema : Schema :=
      { columns? := some [⟨"x", "long"⟩], indexColumns := [("a", []), ("b", [⟨"y", "ip"⟩])] }
    ∃ first rest, (parse "FROM a, c, b | LIMIT 1").pipeline.commands = first :: rest ∧
      (∀ command ∈ rest, command.name ≠ "keep") ∧ schema.entries first = [[], [⟨"y", "ip"⟩]] ∧
      schema.columnsFor "FROM a, c, b | LIMIT 1" = schema.provided first := by
  intro schema
  have read : sourced "FROM a, c, b | LIMIT 1" = [("from", ["a", "c", "b"]), ("limit", [])] := by
    decide +kernel
  obtain ⟨first, rest, commands, entries, -, free⟩ := schema.exists_of_sourced read
  have free := free (by decide)
  have lists : schema.entries first = [[], [⟨"y", "ip"⟩]] := entries
  refine ⟨first, rest, commands, free, lists, ?_⟩
  refine (columnsFor_eq_provided_iff commands free).1.mpr fun _ empty => ?_
  rw [lists] at empty
  exact absurd (empty _ (.tail _ (.head _))) (by decide)

/-- A source with an entry that lists no column is answered with the columns of every source. -/
theorem not_columnsFor_eq_provided :
    ¬ ∀ (schema : Schema) (query : String) (first : Command) (rest : List Command),
      (parse query).pipeline.commands = first :: rest →
        (∀ command ∈ rest, command.name ≠ "keep") →
          schema.columnsFor query = schema.provided first := by
  intro all
  let schema : Schema := { columns? := some [⟨"x", "long"⟩], indexColumns := [("a", [])] }
  have read : sourced "FROM a" = [("from", ["a"])] := by decide +kernel
  have answer : schema.columnsFor "FROM a" = some [⟨"x", "long"⟩] := by decide +kernel
  obtain ⟨first, rest, commands, entries, has, free⟩ := schema.exists_of_sourced read
  have same := all schema "FROM a" first rest commands (free nofun)
  rw [answer, provided, has, entries] at same
  exact absurd same (by decide)

/-! ## Names in an answer -/

/-- What each source of a query adds to the answer. -/
def contributions (query : String) : List (List FieldMapping) :=
  match (parse query).pipeline.commands with
  | [] => []
  | first :: rest => first.sources.map fun source => narrow rest (schema.heldFor source)

theorem nodup_heldFor {schema : Schema}
    (distinct : ∀ entry ∈ schema.indexColumns, (entry.2.map (·.name)).Nodup) (source : Source) :
    ((schema.heldFor source).map (·.name)).Nodup := by
  rw [heldFor]
  cases found : schema.indexColumns.lookup source.name with
  | none => exact List.nodup_nil
  | some columns =>
      obtain ⟨before, behind, split, -⟩ := List.lookup_eq_some_iff.mp found
      exact distinct (source.name, columns) (split ▸ List.mem_append_right _ (.head _))

/-- If neither the columns of every source nor an entry list a name twice, then no name is listed
twice in the answer to a query if and only if no two of its sources, nor a source that is named
twice, add columns of one name. -/
theorem nodup_columnsFor_iff {schema : Schema}
    (listed : ∀ columns ∈ schema.columns?, (columns.map (·.name)).Nodup)
    (entries : ∀ entry ∈ schema.indexColumns, (entry.2.map (·.name)).Nodup) (query : String) :
    (∀ columns ∈ schema.columnsFor query, (columns.map (·.name)).Nodup) ↔
      (schema.contributions query).Pairwise fun left right =>
        (left.map (·.name)).Disjoint (right.map (·.name)) := by
  rw [columnsFor, contributions]
  cases (parse query).pipeline.commands with
  | nil => exact iff_of_true nofun .nil
  | cons first rest =>
      dsimp only
      split
      · rename_i none
        rw [List.isEmpty_iff, List.flatMap_eq_nil_iff] at none
        refine iff_of_true (fun columns answer => ?_) ?_
        · obtain ⟨held, given, rfl⟩ := Option.map_eq_some_iff.mp answer
          exact nodup_narrow (listed held given) rest
        · refine List.pairwise_map.mpr (List.pairwise_of_forall_mem_list fun left member _ _ => ?_)
          obtain ⟨keeps, same⟩ := exists_narrow_eq_filter rest
          rw [none left member, same]
          exact List.disjoint_nil_left _
      · have split : narrow rest (first.sources.flatMap schema.heldFor) =
            (first.sources.map fun source => narrow rest (schema.heldFor source)).flatten := by
          rw [List.flatMap_def, narrow_flatten, List.map_map]
          rfl
        have each (source : Source) : ((narrow rest (schema.heldFor source)).map (·.name)).Nodup :=
          nodup_narrow (nodup_heldFor entries source) rest
        rw [Option.map_some, split]
        simp only [Option.mem_some_iff, forall_eq']
        rw [List.map_flatten, List.nodup_flatten, List.pairwise_map]
        refine and_iff_right fun names member => ?_
        obtain ⟨added, given, rfl⟩ := List.mem_map.mp member
        obtain ⟨source, -, rfl⟩ := List.mem_map.mp given
        exact each source

/-- Two sources share a column that the query does not select. -/
theorem nodup_columnsFor_iff_selected :
    let schema : Schema :=
      { indexColumns := [("a", [⟨"x", "long"⟩, ⟨"y", "ip"⟩]), ("b", [⟨"x", "long"⟩, ⟨"z", "ip"⟩])] }
    (∀ columns ∈ schema.columns?, (columns.map (·.name)).Nodup) ∧
      (∀ entry ∈ schema.indexColumns, (entry.2.map (·.name)).Nodup) ∧
      schema.contributions "FROM a, b | KEEP y, z" = [[⟨"y", "ip"⟩], [⟨"z", "ip"⟩]] ∧
      schema.columnsFor "FROM a, b | KEEP y, z" = some [⟨"y", "ip"⟩, ⟨"z", "ip"⟩] ∧
      ∀ columns ∈ schema.columnsFor "FROM a, b | KEEP y, z", (columns.map (·.name)).Nodup := by
  intro schema
  have listed : ∀ columns ∈ schema.columns?, (columns.map (·.name)).Nodup := nofun
  have entries : ∀ entry ∈ schema.indexColumns, (entry.2.map (·.name)).Nodup := by decide
  have added : schema.contributions "FROM a, b | KEEP y, z" =
      [[⟨"y", "ip"⟩], [⟨"z", "ip"⟩]] := by decide +kernel
  have answer : schema.columnsFor "FROM a, b | KEEP y, z" =
      some [⟨"y", "ip"⟩, ⟨"z", "ip"⟩] := by decide +kernel
  refine ⟨listed, entries, added, answer, (nodup_columnsFor_iff listed entries _).mpr ?_⟩
  rw [added]
  simp

/-- A source that is named twice lists its columns twice. -/
theorem not_nodup_columnsFor :
    ¬ ∀ schema : Schema, (∀ columns ∈ schema.columns?, (columns.map (·.name)).Nodup) →
      (∀ entry ∈ schema.indexColumns, (entry.2.map (·.name)).Nodup) →
        ∀ (query : String), ∀ columns ∈ schema.columnsFor query, (columns.map (·.name)).Nodup := by
  intro all
  let schema : Schema := { indexColumns := [("a", [⟨"x", "long"⟩])] }
  have answer : schema.columnsFor "FROM a, a" = some [⟨"x", "long"⟩, ⟨"x", "long"⟩] := by
    decide +kernel
  have distinct := all schema nofun (by decide) "FROM a, a" _ answer
  exact absurd distinct (by decide)

end Esql.Schema
