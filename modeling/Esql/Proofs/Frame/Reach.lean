import Esql.Proofs.Frame.Pipeline

/-!
# How far a stage is read

Whether a command reads past its stage does not depend on what stands there. What stays before a
pipe in one larger text stays within the stage in every other one, so two texts that go on
differently behind a pipe are read alike up to that pipe, or past it both.
-/

namespace Esql.Grammar

variable {φ ψ : Frame}

section

variable {α β γ δ ε : Type} {f : α → β} {f' : α → γ} {large : Rule β} {other : Rule γ}
  {small : Rule α} {largeNext : β → Rule δ} {otherNext : γ → Rule ε} {s : Reading}
  {post : α → Reading → Prop}

/-- What is the same in the larger text stays within the stage. -/
theorem Mirrors.stays (same : Mirrors φ f large small s) : Stays φ large s := by
  unfold Mirrors at same
  unfold Stays
  rw [same]
  change φ.beyond.length ≤ ((small.run s).2.rest.map φ.token ++ φ.beyond).length
  rw [List.length_append]
  exact Nat.le_add_left _ _

/-- Behind a rule that is the same in two texts, it is the next rule that has to stay within the
stage in the second text if it does in the first. -/
theorem Stays.carry (stays : Stays φ (large >>= largeNext) s) (first : Mirrors φ f large small s)
    (second : Mirrors ψ f' other small s) (known : Ensures small s post)
    (further : ∀ x t, post x t → Stays φ (largeNext (f x)) t → Stays ψ (otherNext (f' x)) t) :
    Stays ψ (other >>= otherNext) s := by
  have inside := further _ _ known (stays.second first)
  unfold Mirrors at second
  unfold Stays at inside ⊢
  rw [StateT.run_bind, second]
  exact inside

theorem stays_pure (x : β) (s : Reading) : Stays φ (pure x) s := by
  have same : Mirrors φ id (pure x) (pure x) s := .pure rfl
  exact same.stays

theorem Stays.map (stays : Stays φ large s) (h : β → δ) :
    Stays φ (large >>= fun x => pure (h x)) s := stays

end

theorem Frame.isAtEnd_embed_cons (φ : Frame) {s : Reading} {token : Token} {rest : List Token}
    (front : s.rest = token :: rest) (nested : Bool) :
    (φ.embed s).isAtEnd nested = s.isAtEnd nested := by
  unfold Reading.isAtEnd
  rw [φ.isAt_embed_cons front]
  simp [Frame.embed, front]

/-- At the end of the stage the pipe behind it is next. -/
theorem Frame.front_of_nil (φ : Frame) (piped : φ.beyond ≠ []) {s : Reading} (ended : s.rest = [])
    (nested : Bool) :
    (φ.embed s).isAt .pipe = true ∧ (φ.embed s).isAtEnd nested = false := by
  obtain ⟨pipe, rest, behind, found⟩ := φ.beyond_cases.resolve_left piped
  simp [Reading.isAtEnd, Reading.isAt, Frame.embed, ended, behind, found]

section

variable (piped : φ.beyond ≠ [])

include piped

/-- A pipeline that stays before a pipe has something to read there. -/
theorem Stays.exists_cons {bound : Nat} {nested : Bool} {stages : Stages} {s : Reading}
    (stays : Stays φ (stagesFrom (bound + 1) nested stages) s) :
    ∃ token rest, s.rest = token :: rest := by
  refine List.exists_cons_of_ne_nil fun ended => ?_
  have same := stays.isAtEnd_embed
  rw [(φ.front_of_nil piped ended nested).2] at same
  simp [Reading.isAtEnd, ended] at same

theorem recoveryLength_within {nested : Bool} {depth : Nat} {tokens : List Token}
    (inside : recoveryLength nested depth (tokens.map φ.token ++ φ.beyond) ≤ tokens.length) :
    recoveryLength nested depth (tokens.map ψ.token ++ ψ.beyond) ≤ tokens.length := by
  induction tokens generalizing depth with
  | nil =>
      obtain ⟨pipe, rest, behind, found⟩ := φ.beyond_cases.resolve_left piped
      rw [List.map_nil, List.nil_append, behind, recoveryLength, found] at inside
      cases depth with
      | succ depth =>
          change 1 + recoveryLength nested (depth + 1) rest ≤ 0 at inside
          omega
      | zero =>
          rcases ψ.beyond_cases with none | ⟨pipe, rest, behind, found⟩
          · rw [none]
            exact Nat.le_refl _
          · rw [List.map_nil, List.nil_append, behind, recoveryLength, found]
            exact Nat.le_refl _
  | cons token tokens ih =>
      rw [List.map_cons, List.cons_append] at inside ⊢
      unfold recoveryLength at inside ⊢
      rw [Frame.token_kind] at inside ⊢
      rw [List.length_cons] at inside ⊢
      have further {depth : Nat}
          (passed : 1 + recoveryLength nested depth (tokens.map φ.token ++ φ.beyond) ≤
            tokens.length + 1) :
          1 + recoveryLength nested depth (tokens.map ψ.token ++ ψ.beyond) ≤
            tokens.length + 1 := by
        have shorter : recoveryLength nested depth (tokens.map ψ.token ++ ψ.beyond) ≤
            tokens.length := ih (by omega)
        omega
      split at inside
      · split at inside
        · rename_i ended
          rw [if_pos ended]
          exact Nat.zero_le _
        · rename_i opened
          rw [if_neg opened]
          exact further inside
      · split at inside
        · rename_i ended
          rw [if_pos ended]
          exact Nat.zero_le _
        · rename_i opened
          rw [if_neg opened]
          exact further inside
      · exact further inside
      · exact further inside

theorem recover_stays {nested : Bool} {s : Reading} (stays : Stays φ (recover nested) s) :
    Stays ψ (recover nested) s := by
  rw [stays_recover_iff] at stays ⊢
  exact recoveryLength_within piped stays

theorem ending_stays (name : CommandName) {nested : Bool} (stop : Nat) (read : Parts Argument)
    {s : Reading}
    (stays : Stays φ (do
      recover nested
      finishCommand (name.relocate φ.move) (stop + φ.offset)
        (read.relocate (Argument.relocate φ.move))) s) :
    Stays ψ (do
      recover nested
      finishCommand (name.relocate ψ.move) (stop + ψ.offset)
        (read.relocate (Argument.relocate ψ.move))) s := by
  have recovers := stays.first fun _ => Forward.finishCommand _ _ _
  have known : Ensures (recover nested) s fun _ _ => True := trivial
  refine stays.carry (recover_mirrors φ recovers) (recover_mirrors ψ (recover_stays piped recovers))
    known ?_
  intro _ t _ _
  exact (finishCommand_mirrors ψ name stop read t).stays

theorem unknownCommand_stays {name : CommandName} {nested : Bool} {s : Reading}
    (stays : Stays φ (unknownCommand (name.relocate φ.move) nested) s) :
    Stays ψ (unknownCommand (name.relocate ψ.move) nested) s := by
  have known : Ensures (record (.unknownCommand name.display) name.span) s fun _ _ => True :=
    trivial
  refine stays.carry (record_mirrors φ rfl s) (record_mirrors ψ rfl s) known ?_
  intro _ t _ inside
  exact ending_stays piped name name.span.stop .halted inside

theorem commandBody_stays {name : CommandName} {nested : Bool} {s : Reading}
    {large other small : Rule (Parts Argument)}
    (stays : Stays φ (commandBody (name.relocate φ.move) large nested) s)
    (args : Stays φ large s →
      Mirrors φ (Parts.relocate (Argument.relocate φ.move)) large small s ∧
        Mirrors ψ (Parts.relocate (Argument.relocate ψ.move)) other small s) :
    Stays ψ (commandBody (name.relocate ψ.move) other nested) s := by
  obtain ⟨first, second⟩ := args stays.commandBody
  have known : Ensures small s fun _ _ => True := trivial
  refine stays.carry first second known ?_
  intro read t _ inside
  change Stays φ (if read.complete then _ else _) t at inside
  change Stays ψ (if read.complete then _ else _) t
  cases complete : read.complete with
  | true =>
      rw [complete] at inside
      have known : Ensures (checkBoundary name.display nested) t fun _ _ => True := trivial
      refine inside.carry (checkBoundary_mirrors φ name.display nested t)
        (checkBoundary_mirrors ψ name.display nested t) known ?_
      intro _ u _ inside
      exact ending_stays piped name t.lastStop read inside
  | false =>
      rw [complete] at inside
      exact ending_stays piped name t.lastStop read inside

theorem knownCommand_stays {name : CommandName} {verb : Verb} {first nested : Bool} {s : Reading}
    {large other small : Rule (Parts Argument)}
    (stays : Stays φ (knownCommand (name.relocate φ.move) verb large first nested) s)
    (args : ∀ t, t.rest = s.rest → Stays φ large t →
      Mirrors φ (Parts.relocate (Argument.relocate φ.move)) large small t ∧
        Mirrors ψ (Parts.relocate (Argument.relocate ψ.move)) other small t) :
    Stays ψ (knownCommand (name.relocate ψ.move) verb other first nested) s := by
  rw [knownCommand_eq, CommandName.display_relocate] at stays ⊢
  cases misplaced : misplaced? verb name.display first nested with
  | none =>
      rw [misplaced] at stays
      exact commandBody_stays piped stays (args s rfl)
  | some fault =>
      rw [misplaced] at stays
      have known : Ensures (record fault name.span) s fun _ t => t.rest = s.rest := rfl
      refine stays.carry (record_mirrors φ (φ.error_misplaced misplaced name.span) s)
        (record_mirrors ψ (ψ.error_misplaced misplaced name.span) s) known ?_
      intro _ t same inside
      exact commandBody_stays piped inside (args t same)

end

theorem andThen_stays {α : Type} {f f' : α → α} {s : Reading} {post : Parts α → Reading → Prop}
    {large largeNext other otherNext small : Rule (Parts α)}
    (stays : Stays φ (andThen large largeNext) s) (forward : Forward largeNext)
    (front : Stays φ large s →
      Mirrors φ (Parts.relocate f) large small s ∧ Mirrors ψ (Parts.relocate f') other small s)
    (known : Ensures small s post)
    (back : ∀ read t, post read t → Stays φ largeNext t → Stays ψ otherNext t) :
    Stays ψ (andThen other otherNext) s := by
  have ending (read : Parts α) : Forward (do
      if read.complete then pure (read.append (← largeNext)) else pure read) := by
    split
    · exact forward.bind fun _ => .pure _
    · exact .pure _
  obtain ⟨first, second⟩ := front (stays.first ending)
  refine stays.carry first second known ?_
  intro read t holds inside
  change Stays φ (if read.complete then _ else _) t at inside
  change Stays ψ (if read.complete then _ else _) t
  split
  · rename_i complete
    rw [if_pos complete] at inside
    exact (back read t holds (inside.first fun _ => .pure _)).map _
  · exact stays_pure _ t

/-- The rules for pipelines under one bound, in two texts that go on differently. -/
structure PipelineStays (φ ψ : Frame) (n : Nat) : Prop where
  stagesFrom : ∀ m nested (stages : Stages) s, Covers 2 n s → Covers 2 m s →
    Stays φ (stagesFrom n nested (stages.relocate φ.move)) s →
    Stays ψ (stagesFrom m nested (stages.relocate ψ.move)) s
  command? : ∀ m first nested s, s.rest ≠ [] → Covers 1 n s → Covers 1 m s →
    Stays φ (command? n first nested) s → Stays ψ (command? m first nested) s
  branches : ∀ m s, Covers 1 n s → Covers 1 m s →
    Stays φ (branches n) s → Stays ψ (branches m) s
  branchFrom : ∀ m opening s, Covers 4 n s → Covers 4 m s →
    Stays φ (branchFrom n (φ.token opening)) s → Stays ψ (branchFrom m (ψ.token opening)) s
  branch : ∀ m start s, Covers 3 n s → Covers 3 m s →
    Stays φ (pipeline n true >>= closeBranch (start + φ.offset)) s →
    Stays ψ (pipeline m true >>= closeBranch (start + ψ.offset)) s

namespace PipelineStays

variable {n : Nat} (inner : PipelineStays φ ψ n)

include inner

theorem branch_succ (m start : Nat) (s : Reading) (small : Covers 3 (n + 1) s)
    (large : Covers 3 m s)
    (stays : Stays φ (pipeline (n + 1) true >>= closeBranch (start + φ.offset)) s) :
    Stays ψ (pipeline m true >>= closeBranch (start + ψ.offset)) s := by
  obtain ⟨m, rfl⟩ := large.exists_succ
  let nothing : Stages := ⟨[], false⟩
  change Stays φ (Grammar.stagesFrom n true (nothing.relocate φ.move) >>= fun stages =>
    closeBranch (start + φ.offset) (stages.finish 0)) s at stays
  change Stays ψ (Grammar.stagesFrom m true (nothing.relocate ψ.move) >>= fun stages =>
    closeBranch (start + ψ.offset) (stages.finish 0)) s
  have within := stays.first fun _ => .closeBranch _ _
  have other := inner.stagesFrom m true nothing s small.pred large.pred within
  have known : Ensures (Grammar.stagesFrom n true nothing) s fun _ _ => True := trivial
  refine stays.carry
    ((pipelineMirrors φ n).stagesFrom n true nothing s small.pred small.pred within)
    ((pipelineMirrors ψ n).stagesFrom m true nothing s small.pred large.pred other) known ?_
  intro stages t _ _
  exact (closeBranch_mirrors ψ start stages t).stays

theorem branchFrom_succ (m : Nat) (opening : Token) (s : Reading) (small : Covers 4 (n + 1) s)
    (large : Covers 4 m s) (stays : Stays φ (Grammar.branchFrom (n + 1) (φ.token opening)) s) :
    Stays ψ (Grammar.branchFrom m (ψ.token opening)) s := by
  obtain ⟨m, rfl⟩ := large.exists_succ
  let result (branch : Pipeline) : Rule (Parts Argument) :=
    pure (.one (.branch branch) branch.incomplete)
  change Stays φ (pipeline n true >>= closeBranch (opening.span.start + φ.offset) >>= result) s
    at stays
  change Stays ψ (pipeline m true >>= closeBranch (opening.span.start + ψ.offset) >>= result) s
  have within := stays.first fun _ => .pure _
  exact (inner.branch m opening.span.start s small.pred large.pred within).map _

theorem branches_succ (m : Nat) (s : Reading) (small : Covers 1 (n + 1) s) (large : Covers 1 m s)
    (stays : Stays φ (Grammar.branches (n + 1)) s) : Stays ψ (Grammar.branches m) s := by
  obtain ⟨m, rfl⟩ := large.exists_succ
  unfold Grammar.branches at stays ⊢
  refine stays.carry (accept?_mirrors φ TokenKind.noConfusion s)
    (accept?_mirrors ψ TokenKind.noConfusion s) (ensures_accept?_front _ s) ?_
  rintro _ _ (⟨rfl, rfl, -⟩ | ⟨opening, rest, front, rfl, rfl⟩) inside
  · exact (halt_mirrors ψ (f := id) .branch).stays
  · have less : s.advance.rest.length + 1 ≤ s.rest.length := by
      rw [Reading.advance_rest front, front]
      exact Nat.le_refl _
    have smaller : Covers 5 (n + 1) s.advance := small.less less (by decide)
    have larger : Covers 5 (m + 1) s.advance := large.less less (by decide)
    have more (bound : Nat) : Forward (do
        if (← get).isAt .openParen then Grammar.branches bound else pure .none) :=
      Forward.get fun t => by
        split
        · exact .branches bound
        · exact .pure _
    have read (within : Stays φ (Grammar.branchFrom n (φ.token opening)) s.advance) :
        Mirrors φ (Parts.relocate (Argument.relocate φ.move))
            (Grammar.branchFrom n (φ.token opening)) (Grammar.branchFrom n opening) s.advance ∧
          Mirrors ψ (Parts.relocate (Argument.relocate ψ.move))
            (Grammar.branchFrom m (ψ.token opening)) (Grammar.branchFrom n opening) s.advance := by
      have other := inner.branchFrom m opening _ smaller.pred larger.pred within
      exact ⟨(pipelineMirrors φ n).branchFrom n opening _ smaller.pred smaller.pred within,
        (pipelineMirrors ψ n).branchFrom m opening _ smaller.pred larger.pred other⟩
    refine andThen_stays inside (more n) read (Forward.branchFrom n opening s.advance) ?_
    intro _ t passed inside
    have shorter := passed.length_le
    change Stays φ (if (φ.embed t).isAt .openParen then _ else _) t at inside
    change Stays ψ (if (ψ.embed t).isAt .openParen then _ else _) t
    rw [Frame.isAt_embed _ t TokenKind.noConfusion] at inside ⊢
    split
    · rename_i next
      rw [if_pos next] at inside
      exact inner.branches m t (small.pred.less (by omega) (by decide))
        (large.pred.less (by omega) (by decide)) inside
    · exact stays_pure _ t

variable (piped : φ.beyond ≠ [])

include piped

theorem namedCommand_stays (m : Nat) (first nested : Bool) (name : CommandName) {s t : Reading}
    (less : t.rest.length + 1 ≤ s.rest.length) (small : Covers 1 (n + 1) s)
    (large : Covers 1 (m + 1) s)
    (stays : Stays φ (Grammar.namedCommand n first nested (name.relocate φ.move)) t) :
    Stays ψ (Grammar.namedCommand m first nested (name.relocate ψ.move)) t := by
  have written (move : Relocation) : (name.relocate move).name = name.name := rfl
  unfold Grammar.namedCommand at stays ⊢
  rw [written] at stays ⊢
  revert stays
  cases Verb.ofName? name.name with
  | none =>
      intro stays
      exact (unknownCommand_stays piped (stays.first fun _ => .pure _)).map _
  | some verb =>
      intro stays
      have args (u : Reading) (same : u.rest = t.rest)
          (within : Stays φ (arguments (Grammar.branches n) nested verb) u) :
          Mirrors φ (Parts.relocate (Argument.relocate φ.move))
              (arguments (Grammar.branches n) nested verb)
              (arguments (Grammar.branches n) nested verb) u ∧
            Mirrors ψ (Parts.relocate (Argument.relocate ψ.move))
              (arguments (Grammar.branches m) nested verb)
              (arguments (Grammar.branches n) nested verb) u := by
        rw [← same] at less
        have smaller : Covers 1 n u := small.pred.less less (by decide)
        have larger : Covers 1 m u := large.pred.less less (by decide)
        refine ⟨arguments_mirrors φ nested verb ?_, arguments_mirrors ψ nested verb ?_⟩
        · rintro rfl
          exact (pipelineMirrors φ n).branches n u smaller smaller within
        · rintro rfl
          have other := inner.branches m u smaller larger within
          exact (pipelineMirrors ψ n).branches m u smaller larger other
      exact (knownCommand_stays piped (stays.first fun _ => .pure _) args).map _

theorem command?_succ (m : Nat) (first nested : Bool) (s : Reading) (present : s.rest ≠ [])
    (small : Covers 1 (n + 1) s) (large : Covers 1 m s)
    (stays : Stays φ (Grammar.command? (n + 1) first nested) s) :
    Stays ψ (Grammar.command? m first nested) s := by
  obtain ⟨m, rfl⟩ := large.exists_succ
  obtain ⟨token, rest, front⟩ := List.exists_cons_of_ne_nil present
  unfold Stays at stays ⊢
  rw [run_command? _ first nested (Frame.embed_rest_cons _ front)] at stays ⊢
  change Stays φ (commandAt n first nested (φ.token token)) s at stays
  change Stays ψ (commandAt m first nested (ψ.token token)) s
  have same (χ : Frame) : startsCommand (χ.token token) = startsCommand token := rfl
  unfold commandAt at stays ⊢
  rw [same] at stays ⊢
  cases starts : startsCommand token with
  | false =>
      rw [starts, if_neg Bool.false_ne_true] at stays
      rw [if_neg Bool.false_ne_true]
      have recorded (χ : Frame) : Mirrors χ id (expected .commandName) (expected .commandName) s :=
        (mirrors_expected _ pure pure).mpr (.pure rfl)
      have known : Ensures (expected .commandName) s fun _ _ => True := trivial
      refine stays.carry (recorded φ) (recorded ψ) known ?_
      intro _ t _ inside
      exact (recover_stays piped (inside.first fun _ => .pure _)).map _
  | true =>
      rw [starts, if_pos rfl] at stays
      rw [if_pos rfl]
      refine stays.carry (commandName_mirrors φ front) (commandName_mirrors ψ front)
        (commandName_follows token s) ?_
      intro name t passed inside
      have shorter := passed.length_le
      rw [Reading.advance_rest front] at shorter
      have less : t.rest.length + 1 ≤ s.rest.length := by
        rw [front]
        exact Nat.succ_le_succ shorter
      exact inner.namedCommand_stays piped m first nested name less small large inside

/-- What comes behind a command of the stage, under bounds for the tokens before the command. -/
theorem afterCommand_stays (m : Nat) (nested : Bool) (stages : Stages) {s u : Reading}
    (shorter : u.rest.length ≤ s.rest.length) (small : Covers 2 (n + 1) s)
    (large : Covers 2 (m + 1) s)
    (stays : Stays φ (Grammar.afterCommand n nested (stages.relocate φ.move)) u) :
    Stays ψ (Grammar.afterCommand m nested (stages.relocate ψ.move)) u := by
  have next := Forward.stagesFrom n nested (stages.relocate φ.move)
  obtain ⟨token, rest, front⟩ : ∃ token rest, u.rest = token :: rest := by
    refine List.exists_cons_of_ne_nil fun ended => ?_
    have same := stays.isAt_embed (Forward.afterPipe next)
    rw [(φ.front_of_nil piped ended nested).1] at same
    simp [Reading.isAt, ended] at same
  refine stays.carry (accept_mirrors_of_isAt (φ.isAt_embed_cons front _))
    (accept_mirrors_of_isAt (ψ.isAt_embed_cons front _)) (ensures_accept_front .pipe u) ?_
  rintro _ t (⟨rfl, rfl⟩ | ⟨rfl, -⟩) inside
  · have less : u.advance.rest.length + 1 ≤ s.rest.length := by
      rw [front] at shorter
      rwa [Reading.advance_rest front]
    have smaller : Covers 2 n u.advance := small.pred.less less (by decide)
    have larger : Covers 2 m u.advance := large.pred.less less (by decide)
    change Stays φ (if (φ.embed u.advance).isAtEnd nested then _ else _) u.advance at inside
    change Stays ψ (if (ψ.embed u.advance).isAtEnd nested then _ else _) u.advance
    obtain ⟨bound, rfl⟩ := smaller.exists_succ
    obtain ⟨next, others, behind⟩ : ∃ next others, u.advance.rest = next :: others := by
      refine List.exists_cons_of_ne_nil fun ended => ?_
      rw [(φ.front_of_nil piped ended nested).2, if_neg Bool.false_ne_true] at inside
      obtain ⟨next, others, behind⟩ := inside.exists_cons piped
      rw [ended] at behind
      cases behind
    rw [Frame.isAtEnd_embed_cons _ behind] at inside ⊢
    split
    · exact (unfinished_mirrors ψ stages .commandAfterPipe _).stays
    · rename_i more
      rw [if_neg more] at inside
      exact inner.stagesFrom m nested stages _ smaller larger inside
  · exact stays_pure _ t

theorem stagesFrom_succ (m : Nat) (nested : Bool) (stages : Stages) (s : Reading)
    (small : Covers 2 (n + 1) s) (large : Covers 2 m s)
    (stays : Stays φ (Grammar.stagesFrom (n + 1) nested (stages.relocate φ.move)) s) :
    Stays ψ (Grammar.stagesFrom m nested (stages.relocate ψ.move)) s := by
  obtain ⟨m, rfl⟩ := large.exists_succ
  obtain ⟨token, rest, front⟩ := stays.exists_cons piped
  have present : s.rest ≠ [] := by
    rw [front]
    exact List.cons_ne_nil _ _
  unfold Grammar.stagesFrom at stays ⊢
  change Stays φ (if (φ.embed s).isAtEnd nested then _ else _) s at stays
  change Stays ψ (if (ψ.embed s).isAtEnd nested then _ else _) s
  rw [Frame.isAtEnd_embed_cons _ front] at stays ⊢
  cases ended : s.isAtEnd nested with
  | true =>
      rw [if_pos rfl, Stages.isEmpty_relocate]
      split
      · exact (unfinished_mirrors ψ stages .command s).stays
      · exact stays_pure _ s
  | false =>
      rw [ended, if_neg Bool.false_ne_true] at stays
      rw [if_neg Bool.false_ne_true]
      refine stays.carry (accept?_mirrors_front φ front .pipe) (accept?_mirrors_front ψ front .pipe)
        (ensures_accept?_front _ s) ?_
      rintro _ t (⟨rfl, rfl, -⟩ | ⟨pipe, rest, front, rfl, rfl⟩) inside
      · change Stays φ (Grammar.command? n ((stages.relocate φ.move).commands.isEmpty && !nested)
          nested >>= _) t at inside
        change Stays ψ (Grammar.command? m ((stages.relocate ψ.move).commands.isEmpty && !nested)
          nested >>= _) t
        rw [Stages.isEmpty_relocate] at inside ⊢
        have further (stages : Stages) : Forward (Grammar.afterCommand n nested stages) :=
          .afterCommand (.stagesFrom n nested stages)
        have within := inside.first fun x => further _
        have other := inner.command? m _ nested t present small.pred large.pred within
        refine inside.carry
          ((pipelineMirrors φ n).command? n _ nested t present small.pred small.pred within)
          ((pipelineMirrors ψ n).command? m _ nested t present small.pred large.pred other)
          (Forward.command? n _ nested t) ?_
        intro x u passed inside
        rw [Stages.relocate_add] at inside ⊢
        exact inner.afterCommand_stays piped m nested _ passed.length_le small large inside
      · have less : s.advance.rest.length + 1 ≤ s.rest.length := by
          rw [Reading.advance_rest front, front]
          exact Nat.le_refl _
        have known : Ensures (record .pipeWithoutCommand pipe.span) s.advance fun _ t =>
            t.rest = s.advance.rest := rfl
        refine inside.carry (record_mirrors φ rfl s.advance) (record_mirrors ψ rfl s.advance)
          known ?_
        intro _ t same inside
        rw [← same] at less
        exact inner.stagesFrom m nested stages t (small.pred.less less (by decide))
          (large.pred.less less (by decide)) inside

end PipelineStays

/-- What stays before a pipe under a bound that covers it stays within the stage under every such
bound, whatever stands behind the stage. -/
theorem pipelineStays (piped : φ.beyond ≠ []) (n : Nat) : PipelineStays φ ψ n := by
  induction n with
  | zero =>
      constructor
      · intro m nested stages s small
        cases small
      · intro m first nested s present small
        cases small
      · intro m s small
        cases small
      · intro m opening s small
        cases small
      · intro m start s small
        cases small
  | succ n inner =>
      exact {
        stagesFrom := inner.stagesFrom_succ piped
        command? := inner.command?_succ piped
        branches := inner.branches_succ
        branchFrom := inner.branchFrom_succ
        branch := inner.branch_succ }

end Esql.Grammar
