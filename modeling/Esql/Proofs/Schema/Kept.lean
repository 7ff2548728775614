import Esql.Proofs.Grammar.Moved
import Esql.Schema.Cache
import Mathlib.Control.Traversable.Instances
import Mathlib.Data.List.Basic

/-!
# What a cache keeps

A cache in front of a schema gives the answers of the schema, in whatever order the queries are
asked, as long as the blanks around a query mean nothing. They do mean something behind a string or
a quoted name that is not closed: there two queries with different answers share an entry.
-/

namespace Esql

namespace Schema

theorem narrow_relocate (move : Relocation) (commands : List Command) :
    narrow (commands.map (Command.relocate move)) = narrow commands := by
  funext columns
  have keep : (commands.map (Command.relocate move)).find? (·.name == "keep") =
      (commands.find? (·.name == "keep")).map (Command.relocate move) := by
    rw [List.find?_map]
    congr 2
    funext command
    exact congrArg (· == "keep") (command.relocate_name move)
  rw [narrow, narrow, keep]
  cases commands.find? (·.name == "keep") with
  | none => rfl
  | some command =>
      simp [Command.relocate_columns, Column.relocate, List.any_map, Function.comp_def]

/-- The answer to a query does not depend on the blanks around it. -/
theorem columnsFor_trim (schema : Schema) {query : String}
    (closed : Token.Closed (Token.scan query)) :
    schema.columnsFor (Text.trim query) = schema.columnsFor query := by
  obtain ⟨distance, moved⟩ := Token.scan_trim closed
  rw [columnsFor, columnsFor, commands_of_moved moved]
  cases (parse (Text.trim query)).pipeline.commands with
  | nil => rfl
  | cons source rest =>
      rw [List.map_cons]
      dsimp only
      rw [narrow_relocate, Command.relocate_sources, List.flatMap_map]
      rfl

end Schema

namespace Cache

/-- The cache with an answer under a key. -/
def keepColumns (cache : Cache) (key : String) (answer : Option (List FieldMapping)) : Cache :=
  { cache with columns := (key, answer) :: cache.columns }

/-- Queries with the same key have the same answer. -/
def Alike (schema : Schema) (queries : List String) : Prop :=
  ∀ query ∈ queries, ∀ other ∈ queries, Text.trim query = Text.trim other →
    schema.columnsFor query = schema.columnsFor other

/-- Every entry for columns holds the answer to all of these queries that have its key. -/
def Keeps (schema : Schema) (queries : List String) (cache : Cache) : Prop :=
  ∀ key answer, cache.columns.lookup key = some answer →
    ∀ query ∈ queries, Text.trim query = key → answer = schema.columnsFor query

section Run

variable {m : Type → Type} [Monad m] [LawfulMonad m] {schema : Schema} {queries : List String}
  {cache : Cache}

theorem keeps_empty (schema : Schema) (queries : List String) : Keeps schema queries empty := by
  intro key answer found
  cases found

theorem Keeps.keepColumns (keeps : Keeps schema queries cache) (alike : Alike schema queries)
    {query : String} (asked : query ∈ queries) :
    Keeps schema queries (cache.keepColumns (Text.trim query) (schema.columnsFor query)) := by
  intro key answer found other member named
  rw [Cache.keepColumns, List.lookup_cons] at found
  split at found
  · rename_i same
    cases found
    exact alike query asked other member ((beq_iff_eq.mp same).symm.trans named.symm)
  · exact keeps key answer found other member named

/-- A question about columns is answered as by the schema, and the cache goes on to keep right
answers. -/
theorem run_columnsFor (keeps : Keeps schema queries cache) (alike : Alike schema queries)
    {query : String} (asked : query ∈ queries) :
    ∃ next, Keeps schema queries next ∧
      ((inFrontOf (m := m) schema.collaborator).columnsFor query).run cache =
        pure (.ok (schema.columnsFor query), next) := by
  cases found : cache.columns.lookup (Text.trim query) with
  | some answer =>
      have right := keeps _ _ found query asked rfl
      refine ⟨cache, keeps, ?_⟩
      simp [inFrontOf, remembered, found, right]
  | none =>
      refine ⟨cache.keepColumns (Text.trim query) (schema.columnsFor query),
        keeps.keepColumns alike asked, ?_⟩
      simp [inFrontOf, remembered, found, Schema.collaborator, Collaborator.withoutJoins,
        keepColumns]

/-- Asking for the columns of some of the queries, one after the other, gives the answers of the
schema. -/
theorem run_mapM_columnsFor (keeps : Keeps schema queries cache) (alike : Alike schema queries)
    {asked : List String} (known : asked ⊆ queries) :
    ∃ next, Keeps schema queries next ∧
      (asked.mapM (inFrontOf (m := m) schema.collaborator).columnsFor).run cache =
        pure (asked.map fun query => .ok (schema.columnsFor query), next) := by
  induction asked generalizing cache with
  | nil => exact ⟨cache, keeps, rfl⟩
  | cons query rest ih =>
      obtain ⟨next, kept, first⟩ := run_columnsFor (m := m) keeps alike (known List.mem_cons_self)
      obtain ⟨last, later, others⟩ := ih kept fun other member =>
        known (List.mem_cons_of_mem _ member)
      refine ⟨last, later, ?_⟩
      simp [first, others]

end Run

/-- A cache that starts empty is not noticed: whoever asks gets the answer of the schema to the
query as it was asked, if no query that differs from another one in the blanks around it has a
token with such a blank. -/
theorem mapM_columnsFor {m : Type → Type} [Monad m] [LawfulMonad m] (schema : Schema)
    {queries : List String}
    (closed : ∀ query ∈ queries, ∀ other ∈ queries, Text.trim query = Text.trim other →
      query ≠ other → Token.Closed (Token.scan query)) :
    (queries.mapM (inFrontOf (m := m) schema.collaborator).columnsFor).run' empty =
      pure (queries.map fun query => .ok (schema.columnsFor query)) := by
  have alike : Alike schema queries := by
    intro query asked other member same
    by_cases equal : query = other
    · rw [equal]
    · rw [← schema.columnsFor_trim (closed query asked other member same equal), same,
        schema.columnsFor_trim (closed other member query asked same.symm (Ne.symm equal))]
  obtain ⟨last, _, answered⟩ :=
    run_mapM_columnsFor (m := m) (keeps_empty schema queries) alike (List.Subset.refl queries)
  rw [StateT.run'_eq, answered, map_pure]

/-- Blanks around a query and behind a comment, and a string that is not closed asked about once. -/
theorem mapM_columnsFor_blanks :
    (∀ query ∈ ["FROM a", " FROM a\t", "FROM a // b \n", "FROM \x22a "],
        ∀ other ∈ ["FROM a", " FROM a\t", "FROM a // b \n", "FROM \x22a "],
          Text.trim query = Text.trim other → query ≠ other →
            Token.Closed (Token.scan query)) ∧
      (["FROM a", " FROM a\t", "FROM a // b \n", "FROM \x22a "].mapM
          (inFrontOf (m := Id) (Schema.collaborator
            { indexColumns := [("a", [⟨"y", "long"⟩])] })).columnsFor).run' empty =
        pure (["FROM a", " FROM a\t", "FROM a // b \n", "FROM \x22a "].map fun query =>
          .ok (Schema.columnsFor { indexColumns := [("a", [⟨"y", "long"⟩])] } query)) := by
  have closed : ∀ query ∈ ["FROM a", " FROM a\t", "FROM a // b \n", "FROM \x22a "],
      ∀ other ∈ ["FROM a", " FROM a\t", "FROM a // b \n", "FROM \x22a "],
        Text.trim query = Text.trim other → query ≠ other →
          Token.Closed (Token.scan query) := by
    decide +kernel
  exact ⟨closed, mapM_columnsFor _ closed⟩

/-- Behind a name that is not closed a blank belongs to the name, but not to the key. -/
theorem mapM_columnsFor_open :
    let schema : Schema :=
      { columns? := some [⟨"x", "long"⟩], indexColumns := [("a", [⟨"y", "long"⟩])] }
    (((["FROM \x22a", "FROM \x22a "].mapM
        (inFrontOf (m := Id) schema.collaborator).columnsFor).run' empty).run.map Reply.answer? =
      [some [⟨"y", "long"⟩], some [⟨"y", "long"⟩]]) ∧
      ["FROM \x22a", "FROM \x22a "].map schema.columnsFor =
        [some [⟨"y", "long"⟩], some [⟨"x", "long"⟩]] := by
  decide +kernel

end Cache

end Esql
