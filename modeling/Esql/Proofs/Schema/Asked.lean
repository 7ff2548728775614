import Esql.Proofs.Schema.Kept

/-!
# What a cache asks

A cache asks the collaborator behind it about columns only where it has to: no earlier request with
the same key was answered. What it answers without asking is the answer that was given to the one
call for that key. Failures are told on and forgotten, so the next request with the key asks again.
-/

namespace Esql

/-- A question about columns and the reply to it. -/
abbrev Call := String × Reply (List FieldMapping)

/-- A collaborator that writes down every question about columns that reaches it. -/
def Collaborator.logged {m : Type → Type} [Monad m] (inner : Collaborator m) :
    Collaborator (StateT (List Call) m) where
  columnsFor query := do
    let reply ← inner.columnsFor query
    modify (· ++ [(query, reply)])
    pure reply
  indices := StateT.lift inner.indices
  policies := StateT.lift inner.policies
  joinIndices := StateT.lift inner.joinIndices

/-- A request for columns to a cache, the calls that it led to, and the reply that it got. -/
structure Exchange where
  query : String
  calls : List Call
  reply : Reply (List FieldMapping)

namespace Exchange

/-- The key under which the cache looks for the answer. -/
def key (exchange : Exchange) : String := Text.trim exchange.query

/-- The request was answered, if only by saying that there are no columns to tell. -/
def Succeeded (exchange : Exchange) : Prop := ∃ answer, exchange.reply = .ok answer

/-- What holds of a request to a cache, given the requests before it. -/
structure Lawful (past : List Exchange) (exchange : Exchange) : Prop where
  /-- The collaborator is called if no earlier request with the key succeeded, and only then. -/
  asked : exchange.calls ≠ [] ↔
    ∀ earlier ∈ past, earlier.key = exchange.key → ¬ earlier.Succeeded
  /-- It is called once, with the query as it is written, and its reply is told on. -/
  told : exchange.calls ≠ [] → ∃ reply, exchange.calls = [(exchange.query, reply)] ∧
    exchange.reply = reply.mapError Cache.relayed
  /-- Without a call the reply is the answer of the successful call for the key. -/
  served : exchange.calls = [] → ∃ earlier ∈ past, earlier.key = exchange.key ∧
    ∃ answer, earlier.calls = [(earlier.query, .ok answer)] ∧ exchange.reply = .ok answer

/-- Every request is lawful after those before it. -/
inductive AllLawful : (past : List Exchange) → List Exchange → Prop where
  | nil {past : List Exchange} : AllLawful past []
  | cons {past rest : List Exchange} {exchange : Exchange} (here : exchange.Lawful past)
      (behind : AllLawful (past ++ [exchange]) rest) : AllLawful past (exchange :: rest)

end Exchange

namespace Cache

/-- The cache behind a call, which an answer is added to. -/
def keepReply (cache : Cache) (key : String) : Reply (List FieldMapping) → Cache
  | .ok answer => cache.keepColumns key answer
  | .error _ => cache

section

variable {m : Type → Type} [Monad m]

/-- One request for columns, with the calls that the cache makes because of it. -/
def exchange (inner : Collaborator m) (query : String) : StateT Cache m Exchange := fun cache => do
  let ((reply, next), calls) ← (((inFrontOf inner.logged).columnsFor query).run cache).run []
  pure (⟨query, calls, reply⟩, next)

/-- Requests for columns to a cache that starts empty, one after the other. -/
def exchanges (inner : Collaborator m) (queries : List String) : m (List Exchange) :=
  (queries.mapM (exchange inner)).run' empty

variable [LawfulMonad m] {inner : Collaborator m} {query : String} {cache : Cache}

theorem run_columnsFor_kept {answer : Option (List FieldMapping)}
    (found : cache.columns.lookup (Text.trim query) = some answer) :
    ((inFrontOf inner).columnsFor query).run cache = pure (.ok answer, cache) := by
  simp [inFrontOf, remembered, found]

theorem run_columnsFor_missed (missed : cache.columns.lookup (Text.trim query) = none) :
    ((inFrontOf inner).columnsFor query).run cache = (do
      let reply ← inner.columnsFor query
      pure (reply.mapError relayed, cache.keepReply (Text.trim query) reply)) := by
  simp only [inFrontOf, remembered, StateT.run_bind, StateT.run_get, pure_bind, missed,
    StateT.run_monadLift, bind_assoc]
  refine bind_congr (m := m) fun reply => ?_
  cases reply with
  | ok answer => simp [keepReply, keepColumns, Except.mapError]
  | error failure => simp [keepReply, Except.mapError]

/-- A kept answer is given without a call. -/
theorem run_exchange_kept {answer : Option (List FieldMapping)}
    (found : cache.columns.lookup (Text.trim query) = some answer) :
    (exchange inner query).run cache = pure (⟨query, [], .ok answer⟩, cache) := by
  rw [StateT.run, exchange, run_columnsFor_kept found]
  simp

/-- Where nothing is kept the collaborator is called. -/
theorem run_exchange_missed (missed : cache.columns.lookup (Text.trim query) = none) :
    (exchange inner query).run cache = (do
      let reply ← inner.columnsFor query
      pure (⟨query, [(query, reply)], reply.mapError relayed⟩,
        cache.keepReply (Text.trim query) reply)) := by
  rw [StateT.run, exchange, run_columnsFor_missed missed]
  simp [Collaborator.logged]

/-- Watching the calls changes no reply. -/
theorem run_exchange_reply (inner : Collaborator m) (query : String) (cache : Cache) :
    (fun result => (result.1.reply, result.2)) <$> (exchange inner query).run cache =
      ((inFrontOf inner).columnsFor query).run cache := by
  cases found : cache.columns.lookup (Text.trim query) with
  | some answer => simp [run_exchange_kept found, run_columnsFor_kept found]
  | none => simp [run_exchange_missed found, run_columnsFor_missed found]

/-- Whoever asks gets the replies that the requests are said to get. -/
theorem run_mapM_exchange_reply (inner : Collaborator m) (queries : List String) (cache : Cache) :
    (fun result => (result.1.map (·.reply), result.2)) <$>
        (queries.mapM (exchange inner)).run cache =
      (queries.mapM (inFrontOf inner).columnsFor).run cache := by
  induction queries generalizing cache with
  | nil => simp
  | cons query rest ih =>
      simp only [List.mapM_cons, StateT.run_bind, StateT.run_pure, map_bind, map_pure,
        ← run_exchange_reply, bind_map_left, ← ih, List.map_cons]

end

/-- The entries for columns are the answers of the successful calls among the requests so far. -/
structure Recalls (past : List Exchange) (cache : Cache) : Prop where
  kept : ∀ key answer, cache.columns.lookup key = some answer →
    ∃ earlier ∈ past, earlier.key = key ∧ earlier.calls = [(earlier.query, .ok answer)] ∧
      earlier.reply = .ok answer
  missed : ∀ key, cache.columns.lookup key = none →
    ∀ earlier ∈ past, earlier.key = key → ¬ earlier.Succeeded

namespace Recalls

variable {past : List Exchange} {cache : Cache} {query : String}

theorem empty : Recalls [] Cache.empty where
  kept := by
    intro key answer found
    cases found
  missed := by simp

/-- A request that is answered without a call changes nothing. -/
theorem served (recalls : Recalls past cache) {answer : Option (List FieldMapping)}
    (found : cache.columns.lookup (Text.trim query) = some answer) :
    Recalls (past ++ [⟨query, [], .ok answer⟩]) cache where
  kept key answer found := by
    obtain ⟨earlier, member, same⟩ := recalls.kept key answer found
    exact ⟨earlier, List.mem_append_left _ member, same⟩
  missed key missed earlier member same := by
    rcases List.mem_append.mp member with before | now
    · exact recalls.missed key missed earlier before same
    · -- The request itself has a key that is kept.
      rw [List.mem_singleton.mp now] at same
      rw [← same] at missed
      exact absurd (found.symm.trans missed) (by simp)

/-- A success is kept under its key, a failure leaves no trace. -/
theorem called (recalls : Recalls past cache) (reply : Reply (List FieldMapping)) :
    Recalls (past ++ [⟨query, [(query, reply)], reply.mapError relayed⟩])
      (cache.keepReply (Text.trim query) reply) := by
  cases reply with
  | error failure =>
      constructor
      · intro key answer found
        obtain ⟨earlier, member, same⟩ := recalls.kept key answer found
        exact ⟨earlier, List.mem_append_left _ member, same⟩
      · intro key missed earlier member same
        rcases List.mem_append.mp member with before | now
        · exact recalls.missed key missed earlier before same
        · rw [List.mem_singleton.mp now]
          rintro ⟨answer, told⟩
          cases told
  | ok answer =>
      constructor
      · intro key other found
        rw [keepReply, keepColumns, List.lookup_cons] at found
        split at found
        · rename_i same
          cases found
          exact ⟨_, List.mem_append_right _ (List.mem_singleton_self _),
            (beq_iff_eq.mp same).symm, rfl, rfl⟩
        · obtain ⟨earlier, member, same⟩ := recalls.kept key other found
          exact ⟨earlier, List.mem_append_left _ member, same⟩
      · intro key absent earlier member same
        rw [keepReply, keepColumns, List.lookup_cons] at absent
        split at absent
        · cases absent
        · rename_i other
          rcases List.mem_append.mp member with before | now
          · exact recalls.missed key absent earlier before same
          · rw [List.mem_singleton.mp now] at same
            exact Bool.noConfusion (other.symm.trans (beq_iff_eq.mpr same.symm))

/-- Nothing kept under a key is nothing that succeeded before. -/
theorem lawful_called (recalls : Recalls past cache)
    (missed : cache.columns.lookup (Text.trim query) = none) (reply : Reply (List FieldMapping)) :
    Exchange.Lawful past ⟨query, [(query, reply)], reply.mapError relayed⟩ where
  asked := by simpa using recalls.missed (Exchange.key ⟨query, _, _⟩) missed
  told _ := ⟨reply, rfl, rfl⟩
  served none := by cases none

theorem lawful_served (recalls : Recalls past cache) {answer : Option (List FieldMapping)}
    (found : cache.columns.lookup (Text.trim query) = some answer) :
    Exchange.Lawful past ⟨query, [], .ok answer⟩ := by
  obtain ⟨earlier, member, same, call, reply⟩ := recalls.kept _ answer found
  exact {
    asked := by simpa using ⟨earlier, member, same, answer, reply⟩
    told := by simp
    served := fun _ => ⟨earlier, member, same, answer, call, rfl⟩ }

end Recalls

section Run

variable {σ : Type} (inner : Collaborator (StateM σ))

/-- One request, whatever the collaborator behind the cache says in its present state. -/
theorem exchange_lawful {past : List Exchange} {cache : Cache} (recalls : Recalls past cache)
    (query : String) (world : σ) :
    let ran := (((exchange inner query).run cache).run world).1
    ran.1.query = query ∧ ran.1.Lawful past ∧ Recalls (past ++ [ran.1]) ran.2 := by
  cases found : cache.columns.lookup (Text.trim query) with
  | some answer =>
      rw [run_exchange_kept found]
      exact ⟨rfl, recalls.lawful_served found, recalls.served found⟩
  | none =>
      rw [run_exchange_missed found]
      exact ⟨rfl, recalls.lawful_called found _, recalls.called _⟩

/-- A run of requests is one lawful request after the other. -/
theorem mapM_exchange_lawful {past : List Exchange} {cache : Cache} (recalls : Recalls past cache)
    (queries : List String) (world : σ) :
    let ran := (((queries.mapM (exchange inner)).run cache).run world).1
    ran.1.map (·.query) = queries ∧ Exchange.AllLawful past ran.1 := by
  induction queries generalizing past cache world with
  | nil => exact ⟨rfl, .nil⟩
  | cons query rest ih =>
      obtain ⟨asked, lawful, recalls⟩ := exchange_lawful inner recalls query world
      have behind := ih recalls (((exchange inner query).run cache).run world).2
      rw [List.mapM_cons]
      exact ⟨congrArg₂ List.cons asked behind.1, .cons lawful behind.2⟩

end Run

/-- A collaborator that succeeds and fails as it likes is called for a request exactly if no earlier
request with the same key succeeded, and what is answered without a call is the answer of the
successful call for that key. Whoever asks gets the replies that are told here. -/
theorem exchanges_lawful {σ : Type} (inner : Collaborator (StateM σ)) (world : σ)
    (queries : List String) :
    let ran := ((exchanges inner queries).run world).1
    ran.map (·.query) = queries ∧
      ran.map (·.reply) =
        (((queries.mapM (inFrontOf inner).columnsFor).run' empty).run world).1 ∧
      Exchange.AllLawful [] ran := by
  obtain ⟨asked, lawful⟩ := mapM_exchange_lawful inner .empty queries world
  have replies := run_mapM_exchange_reply inner queries empty
  refine ⟨asked, ?_, lawful⟩
  rw [StateT.run'_eq, ← replies]
  rfl

end Cache

end Esql
