import Esql.Completion.Query
import Esql.Proofs.Check.Agreement
import Esql.Schema.Rehearsal
import Mathlib.Control.Monad.Basic

/-!
# Collaborators that fail

A collaborator is made lenient by noting its failures apart and answering nothing in their place;
what it does otherwise, and in what order it is asked, stays the same. The snapshot that is
collected from a lenient collaborator differs in nothing but the list of failures, and only the
warning about the whole query looks at that list.
-/

namespace Esql

section Lenient

variable {m : Type → Type} [Monad m] {α β : Type}

namespace Reply

@[simp]
theorem answer?_ok (answer : Option α) : answer? (.ok answer) = answer := rfl

@[simp]
theorem failure?_ok (answer : Option α) : failure? (.ok answer) = none := rfl

/-- The message of a reply that is a failure, as a list. -/
def messages (reply : Reply α) : List String := reply.failure?.toList.map Failure.message

@[simp]
theorem messages_ok (answer : Option α) : messages (.ok answer) = [] := rfl

end Reply

namespace Collaborator

/-- A question that notes the message of its failure and answers nothing then. -/
def noted (question : m (Reply α)) : StateT (List String) m (Reply α) := do
  let reply ← question
  modify (· ++ reply.messages)
  pure (.ok reply.answer?)

/-- The collaborator with every failure noted and answered by nothing. -/
def lenient (collaborator : Collaborator m) : Collaborator (StateT (List String) m) where
  columnsFor query := noted (collaborator.columnsFor query)
  indices := noted collaborator.indices
  policies := noted collaborator.policies
  joinIndices := noted collaborator.joinIndices

section

variable (collaborator : Collaborator m)

@[simp]
theorem lenient_columnsFor (query : String) :
    collaborator.lenient.columnsFor query = noted (collaborator.columnsFor query) := rfl

@[simp]
theorem lenient_indices : collaborator.lenient.indices = noted collaborator.indices := rfl

@[simp]
theorem lenient_policies : collaborator.lenient.policies = noted collaborator.policies := rfl

@[simp]
theorem lenient_joinIndices :
    collaborator.lenient.joinIndices = noted collaborator.joinIndices := rfl

end

variable [LawfulMonad m]

@[simp]
theorem run_noted (question : m (Reply α)) (log : List String) :
    (noted question).run log =
      question >>= fun reply => pure (.ok reply.answer?, log ++ reply.messages) := by
  simp [noted]

end Collaborator

namespace Snapshot

open Collaborator

variable [LawfulMonad m] (collaborator : Collaborator m)

/-- The snapshot as a collaborator that never fails would have filled it. -/
def blind (snapshot : Snapshot) : Snapshot := { snapshot with failures := [] }

theorem run_firstColumns_lenient (text : String) (query : Pipeline) (log : List String) :
    (firstColumns collaborator.lenient text query).run log =
      firstColumns collaborator text query >>= fun reply =>
        pure (.ok reply.answer?, log ++ reply.messages) := by
  unfold firstColumns
  split
  · simp
  · split
    · exact run_noted _ _
    · simp

theorem run_askIf_noted (needed : Bool) (question : m (Reply α)) (log : List String) :
    (askIf needed (noted question)).run log =
      askIf needed question >>= fun reply =>
        pure (.ok reply.answer?, log ++ reply.messages) := by
  cases needed with
  | true => exact run_noted question log
  | false => simp [askIf]

/-- A named reply with its failure taken for an absent answer. -/
def excused (reply : String × Reply α) : String × Reply α := (reply.1, .ok reply.2.answer?)

/-- Questions about several names are lenient if the question about each name is. -/
theorem run_mapM_excused {strict : String → m (String × Reply α)}
    {lenient : String → StateT (List String) m (String × Reply α)}
    (each : ∀ name log, (lenient name).run log = strict name >>= fun reply =>
      pure (excused reply, log ++ reply.2.messages)) (names : List String) (log : List String) :
    (names.mapM lenient).run log =
      names.mapM strict >>= fun replies =>
        pure (replies.map excused, log ++ replies.flatMap (·.2.messages)) := by
  induction names generalizing log with
  | nil => simp
  | cons name rest ih => simp [each, ih]

theorem run_joinedColumns_lenient (index : String) (log : List String) :
    (joinedColumns collaborator.lenient index).run log =
      joinedColumns collaborator index >>= fun reply =>
        pure (excused reply, log ++ reply.2.messages) := by
  simp [joinedColumns, excused]

theorem run_enrichColumns_lenient (policies : Reply (List EnrichPolicy)) (name : String)
    (log : List String) :
    (enrichColumns collaborator.lenient (.ok policies.answer?) name).run log =
      enrichColumns collaborator policies name >>= fun reply =>
        pure (excused reply, log ++ reply.2.messages) := by
  rw [enrichColumns, enrichColumns, Reply.answer?_ok]
  split
  · simp [excused]
  · split
    · simp [excused]
    · simp [excused]

theorem answered_excused (replies : List (String × Reply (List FieldMapping))) :
    answered (replies.map excused) = answered replies := by
  rw [answered, List.filterMap_map]
  rfl

theorem failures_excused (replies : List (String × Reply α)) :
    (replies.map excused).filterMap (·.2.failure?) = [] := by
  rw [List.filterMap_map]
  exact List.filterMap_eq_nil_iff.mpr fun _ _ => rfl

theorem flatMap_messages (replies : List (String × Reply α)) :
    replies.flatMap (·.2.messages) = (replies.filterMap (·.2.failure?)).map Failure.message := by
  induction replies with
  | nil => rfl
  | cons reply rest ih =>
      rw [List.flatMap_cons, ih, List.filterMap_cons, Reply.messages]
      cases reply.2.failure? <;> rfl

/-- A lenient collaborator gives the same snapshot, with the failures apart. -/
theorem run_collect_lenient (text : String) (query : Pipeline) (log : List String) :
    (collect collaborator.lenient text query).run log =
      collect collaborator text query >>= fun snapshot =>
        pure (snapshot.blind, log ++ snapshot.failures) := by
  have joins := run_mapM_excused (run_joinedColumns_lenient collaborator)
  have enriched (policies : Reply (List EnrichPolicy)) :=
    run_mapM_excused (run_enrichColumns_lenient collaborator policies)
  unfold collect
  simp only [StateT.run_bind, run_firstColumns_lenient, lenient_indices, lenient_joinIndices, joins,
    lenient_policies, enriched, run_noted, run_askIf_noted, bind_assoc, pure_bind, StateT.run_pure]
  apply bind_congr
  intro columns
  apply bind_congr
  intro sources
  apply bind_congr
  intro lookups
  apply bind_congr
  intro joined
  apply bind_congr
  intro listed
  apply bind_congr
  intro added
  rw [answered_excused, answered_excused, failures_excused, failures_excused, flatMap_messages,
    flatMap_messages]
  simp [blind, Reply.messages]

/-- Commands find the same in a snapshot without its failures. -/
theorem agreeOn_blind (snapshot : Snapshot) (commands : List Command) :
    snapshot.AgreeOn snapshot.blind commands := by
  intro command _
  constructor <;> intros <;> rfl

end Snapshot

end Lenient

/-- Failures add one warning to what is wrong with a query. -/
theorem Pipeline.check_eq_blind (query : Pipeline) (snapshot : Snapshot)
    (license? : Option License) :
    query.check snapshot license? =
      query.check snapshot.blind license? ++ (snapshot.warning? query.span).toList := by
  rw [check, check, Command.checkAll_congr license? query.commands
    (snapshot.agreeOn_blind (Command.visitedIn query.commands))]
  exact (congrArg (· ++ _) (List.append_nil _)).symm

namespace Draft

/-- The draft with a snapshot without its failures. -/
def blind (draft : Draft) : Draft := { draft with snapshot := draft.snapshot.blind }

/-- What may stand in a command does not depend on failures. -/
theorem suggestions_blind (draft : Draft) (verb : Verb) :
    draft.blind.suggestions verb = draft.suggestions verb := by
  cases verb <;> rfl

end Draft

namespace Completion

theorem columnsBefore_blind (query : Pipeline) (command : Command) (snapshot : Snapshot) :
    query.columnsBefore command snapshot.blind = query.columnsBefore command snapshot := by
  have same (commands : List Command) (input : ColumnSet) :=
    Command.outputOfAll_congr commands (snapshot.agreeOn_blind (Command.visitedIn commands)) input
  simp only [Pipeline.columnsBefore, same]

theorem draft?_blind (text : String) (tokens : List Token) (query : Pipeline)
    (snapshot : Snapshot) :
    draft? text tokens query snapshot.blind =
      (draft? text tokens query snapshot).map fun found => (found.1.blind, found.2) := by
  simp only [draft?, columnsBefore_blind]
  cases query.commandAt? (Text.byteLength text) with
  | none => rfl
  | some command =>
      cases named : Verb.ofName? command.name <;> simp [named, Draft.blind]

theorem atEnd_blind (text : String) (query : Pipeline) (snapshot : Snapshot) :
    atEnd text query snapshot.blind = atEnd text query snapshot := by
  simp only [atEnd, draft?_blind]
  cases draft? text (Token.scan text) query snapshot with
  | none => rfl
  | some found =>
      simp only [Option.map_some, Draft.suggestions_blind]

end Completion

section Degraded

variable {m : Type → Type} [Monad m] [LawfulMonad m]

theorem run_validate_lenient (collaborator : Collaborator m) (license? : Option License)
    (text : String) (log : List String) :
    (validate collaborator.lenient license? text).run log =
      Snapshot.collect collaborator text (parse text).pipeline >>= fun snapshot =>
        pure ((parse text).diagnostics ++ (parse text).pipeline.check snapshot.blind license?,
          log ++ snapshot.failures) := by
  simp [validate, Snapshot.run_collect_lenient]

theorem run_suggest_lenient (collaborator : Collaborator m) (text : String) (offset : Nat)
    (log : List String) :
    (suggest collaborator.lenient text offset).run log =
      Snapshot.collect collaborator (Text.before text offset)
          (parse (Text.before text offset)).pipeline >>= fun snapshot =>
        pure ((Completion.atEnd (Text.before text offset)
            (parse (Text.before text offset)).pipeline snapshot).foldl Completion.listOnce [],
          log ++ snapshot.failures) := by
  simp [suggest, Snapshot.run_collect_lenient, Completion.atEnd_blind]

/-- A collaborator that fails is as good as one that answers nothing where it fails: a query is
found to be wrong in the same way, with one warning behind the rest if anything failed at all, and
the same may stand at any offset. -/
theorem validate_suggest_lenient (collaborator : Collaborator m) (license? : Option License)
    (text : String) (offset : Nat) :
    (validate collaborator license? text = do
        let (found, failures) ← (validate collaborator.lenient license? text).run []
        let warning? := failures.head?.map fun reason =>
          (Finding.schemaUnavailable reason).about (parse text).pipeline.span
        return found ++ warning?.toList) ∧
      (suggest collaborator text offset = do
        let (offered, _) ← (suggest collaborator.lenient text offset).run []
        return offered) := by
  constructor
  · rw [run_validate_lenient, validate]
    simp only [bind_assoc, pure_bind, List.nil_append]
    apply bind_congr
    intro snapshot
    rw [Pipeline.check_eq_blind, List.append_assoc]
    rfl
  · rw [run_suggest_lenient, suggest]
    simp only [bind_assoc, pure_bind]

end Degraded

/-- Nothing is told of the indices, for which a join asks again. -/
theorem validate_suggest_lenient_join :
    let collaborator := Rehearsal.collaborator { failing := [("sources", "down")] }
    let outcome := (validate collaborator.lenient none "FROM a | LOOKUP JOIN b ON k").run []
    (outcome.run []).1.2 = ["Callback error: down", "Callback error: down"] ∧
      ((validate collaborator none "FROM a | LOOKUP JOIN b ON k").run []).1 =
        (outcome.run []).1.1 ++
          [(Finding.schemaUnavailable "Callback error: down").about ⟨0, 27⟩] := by
  intro collaborator outcome
  have span : (parse "FROM a | LOOKUP JOIN b ON k").pipeline.span = ⟨0, 27⟩ := by decide +kernel
  have failures : (outcome.run []).1.2 = ["Callback error: down", "Callback error: down"] := by
    decide +kernel
  have same := (validate_suggest_lenient collaborator none "FROM a | LOOKUP JOIN b ON k" 21).1
  rw [same, span]
  change _ ∧ ((outcome >>= fun _ => _).run []).1 = _
  clear_value outcome
  constructor
  · exact failures
  · change (outcome.run []).1.1 ++ ((outcome.run []).1.2.head?.map fun reason =>
      (Finding.schemaUnavailable reason).about ⟨0, 27⟩).toList = _
    rw [failures]
    rfl

end Esql
