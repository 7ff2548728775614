import Esql.Schema.Collaborator

/-!
# Caching a collaborator

A cache in front of a collaborator keeps every answer that was given, an absent one too, and lets
no failure in. Columns are kept under the text of the query without the blanks around it; a query
that is not kept yet is asked for as it was written.
-/

namespace Esql

structure Cache where
  columns : List (String × Option (List FieldMapping)) := []
  indices? : Option (Option (List Index)) := none
  policies? : Option (Option (List EnrichPolicy)) := none
  joinIndices? : Option (Option (List Index)) := none
deriving Repr, BEq, DecidableEq

namespace Cache

/-- Nothing is kept. -/
def empty : Cache := {}

/-- A failure as it comes out of a cache, told as the reason of another one. -/
def relayed (failure : Failure) : Failure := ⟨failure.message⟩

section InFrontOf

variable {m : Type → Type} [Monad m]

/-- The kept answer, or that of the collaborator, which is kept unless it is a failure. -/
def remembered {α : Type} (kept? : Cache → Option (Option α)) (keep : Option α → Cache → Cache)
    (ask : m (Reply α)) : StateT Cache m (Reply α) := do
  match kept? (← get) with
  | some answer => pure (.ok answer)
  | none =>
      match ← ask with
      | .ok answer =>
          modify (keep answer)
          pure (.ok answer)
      | .error failure => pure (.error (relayed failure))

/-- A collaborator behind a cache. -/
def inFrontOf (inner : Collaborator m) : Collaborator (StateT Cache m) where
  columnsFor query :=
    let key := Text.trim query
    remembered (fun cache => cache.columns.lookup key)
      (fun answer cache => { cache with columns := (key, answer) :: cache.columns })
      (inner.columnsFor query)
  indices :=
    remembered (·.indices?) (fun answer cache => { cache with indices? := some answer })
      inner.indices
  policies :=
    remembered (·.policies?) (fun answer cache => { cache with policies? := some answer })
      inner.policies
  joinIndices :=
    remembered (·.joinIndices?) (fun answer cache => { cache with joinIndices? := some answer })
      inner.joinIndices

end InFrontOf

end Cache

end Esql
