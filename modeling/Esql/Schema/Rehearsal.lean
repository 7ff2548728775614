import Esql.Schema.Collaborator

/-!
# Rehearsed collaborators

A collaborator for trials. It answers from a schema, fails where it is told to, and writes every
question into a journal, oldest first.
-/

namespace Esql

structure Rehearsal where
  schema : Schema := {}
  /-- The reasons of failures, by the kind of a question or by the query that is asked about. A
  reason for the kind comes before one for the query. -/
  failing : List (String × String) := []
  /-- An answer about joins of its own, instead of the lookup indices. -/
  joinIndices? : Option (Option (List Index)) := none

namespace Rehearsal

/-- Writes a question down, and fails with the first reason given for one of its keys. -/
def perform {α : Type} (rehearsal : Rehearsal) (entry : String) (keys : List String)
    (answer : Option α) : StateM (List String) (Reply α) := do
  modify (· ++ [entry])
  match keys.findSome? fun key => rehearsal.failing.lookup key with
  | some reason => pure (.error ⟨reason⟩)
  | none => pure (.ok answer)

def collaborator (rehearsal : Rehearsal) : Collaborator (StateM (List String)) :=
  let plain := Collaborator.withoutJoins
    (fun query =>
      rehearsal.perform ("columns:" ++ query) ["columns", query]
        (rehearsal.schema.columnsFor query))
    (rehearsal.perform "sources" ["sources"] rehearsal.schema.indices?)
    (rehearsal.perform "policies" ["policies"] rehearsal.schema.policies?)
  match rehearsal.joinIndices? with
  | none => plain
  | some answer =>
      { plain with joinIndices := rehearsal.perform "join_indices" ["join_indices"] answer }

/-- The rehearsal with one more reason to fail, or one less. -/
def failAt (rehearsal : Rehearsal) (key : String) (reason? : Option String) : Rehearsal :=
  let others := rehearsal.failing.filter fun failing => failing.1 != key
  { rehearsal with failing := (reason?.map fun reason => (key, reason)).toList ++ others }

end Rehearsal

end Esql
