import Esql.Schema.Basic

/-!
# Collaborators

A collaborator answers questions about live schema data. Asking may have effects, so answers come
in a monad. An answer may fail, or be absent because the data is not available to the caller.
-/

namespace Esql

/-- Why a collaborator could not answer. -/
structure Failure where
  reason : String
deriving Repr, BEq, DecidableEq

def Failure.message (failure : Failure) : String := "Callback error: " ++ failure.reason

abbrev Reply (α : Type) := Except Failure (Option α)

namespace Reply

/-- What was answered; a failure answers nothing. -/
def answer? {α : Type} : Reply α → Option α
  | .ok answer => answer
  | .error _ => none

def failure? {α : Type} : Reply α → Option Failure
  | .ok _ => none
  | .error failure => some failure

end Reply

structure Collaborator (m : Type → Type) where
  /-- The columns that a query produces. -/
  columnsFor : String → m (Reply (List FieldMapping))
  indices : m (Reply (List Index))
  policies : m (Reply (List EnrichPolicy))
  /-- The indices that rows can be joined with. -/
  joinIndices : m (Reply (List Index))

namespace Collaborator

/-- The lookup indices of an answer about indices. -/
def lookupOnly (reply : Reply (List Index)) : Reply (List Index) :=
  reply.map fun indices? => indices?.map fun indices => indices.filter Index.isLookup

/-- A collaborator without an answer of its own about joins, which takes the lookup indices. -/
def withoutJoins {m : Type → Type} [Monad m] (columnsFor : String → m (Reply (List FieldMapping)))
    (indices : m (Reply (List Index))) (policies : m (Reply (List EnrichPolicy))) :
    Collaborator m :=
  ⟨columnsFor, indices, policies, do pure (lookupOnly (← indices))⟩

end Collaborator

/-- A schema in memory as a collaborator, which never fails. -/
def Schema.collaborator {m : Type → Type} [Monad m] (schema : Schema) : Collaborator m :=
  .withoutJoins (fun query => pure (.ok (schema.columnsFor query)))
    (pure (.ok schema.indices?)) (pure (.ok schema.policies?))

end Esql
