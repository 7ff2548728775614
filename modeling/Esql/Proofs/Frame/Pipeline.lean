import Esql.Proofs.Frame.Arguments
import Esql.Proofs.Grammar.Stages

/-!
# Commands within a larger text

A command is read alike within its stage and within a larger text, with the branches of a fork in
it, provided that the larger text is not read past the stage. Only the recovery from an error can
do that, where parentheses are left open.
-/

namespace Esql.Grammar

variable (φ : Frame)

/-- The rule does not read what is beyond the stage. -/
def Stays {α : Type} (rule : Rule α) (s : Reading) : Prop :=
  φ.beyond.length ≤ (rule.run (φ.embed s)).2.rest.length

section

variable {φ} {α β γ δ : Type} {f : α → β} {g : γ → δ} {large : Rule β} {small : Rule α}
  {largeNext : β → Rule δ} {smallNext : α → Rule γ} {s : Reading} {post : α → Reading → Prop}

theorem Stays.first (stays : Stays φ (large >>= largeNext) s)
    (forward : ∀ y, Forward (largeNext y)) : Stays φ large s := by
  have later := forward (large.run (φ.embed s)).1 (large.run (φ.embed s)).2
  exact Nat.le_trans stays (Follows.length_le later)

theorem Stays.second (stays : Stays φ (large >>= largeNext) s)
    (first : Mirrors φ f large small s) :
    Stays φ (largeNext (f (small.run s).1)) (small.run s).2 := by
  unfold Mirrors at first
  unfold Stays at stays ⊢
  rw [StateT.run_bind, first] at stays
  exact stays

/-- Two rules in a row that stay within the stage are the same within the larger text. -/
theorem Mirrors.stay (first : Mirrors φ f large small s)
    (stays : Stays φ (large >>= largeNext) s) (known : Ensures small s post)
    (second : ∀ x t, post x t → Stays φ (largeNext (f x)) t →
      Mirrors φ g (largeNext (f x)) (smallNext x) t) :
    Mirrors φ g (large >>= largeNext) (small >>= smallNext) s := by
  have both : Ensures small s fun x t => post x t ∧ Stays φ (largeNext (f x)) t :=
    ⟨known, stays.second first⟩
  refine first.bind both ?_
  rintro x t ⟨holds, inside⟩
  exact second x t holds inside

/-- What reads a pipe beyond the stage does not stay within it. -/
theorem Stays.beyond_eq_nil {rule : Rule α} (stays : Stays φ rule s) (ended : s.rest = [])
    (reads : ∀ pipe rest, φ.beyond = pipe :: rest → pipe.kind = .pipe →
      Ensures rule (φ.embed s) fun _ t => Follows (φ.embed s).advance t) : φ.beyond = [] := by
  rcases φ.beyond_cases with none | ⟨pipe, rest, some, found⟩
  · exact none
  · have shorter := Follows.length_le (reads pipe rest some found)
    have front : (φ.embed s).rest = pipe :: rest := (φ.embed_rest_nil ended).trans some
    unfold Stays at stays
    rw [Reading.advance_rest front] at shorter
    rw [some, List.length_cons] at stays
    omega

/-- A kind of token that is accepted within the stage stands at its front. -/
theorem Stays.isAt_embed {kind : TokenKind} {large : Bool → Rule β}
    (stays : Stays φ (accept kind >>= large) s) (forward : ∀ found, Forward (large found)) :
    (φ.embed s).isAt kind = s.isAt kind := by
  cases front : s.rest with
  | cons token rest => exact φ.isAt_embed_cons front kind
  | nil =>
      cases accepted : (φ.embed s).isAt kind with
      | false => simp [Reading.isAt, front]
      | true =>
          have none : φ.beyond = [] := by
            refine stays.beyond_eq_nil front ?_
            intro pipe rest some kind'
            have read : Ensures (Grammar.accept kind) (φ.embed s) fun x t =>
                x = true ∧ t = (φ.embed s).advance := by
              unfold Ensures
              rw [run_accept, accepted]
              exact ⟨rfl, rfl⟩
            refine read.bind ?_
            rintro x t ⟨rfl, rfl⟩
            exact forward true _
          simp [Reading.isAt, Frame.embed, front, none] at accepted

/-- A kind of token is accepted alike where what is accepted lies within the stage. -/
theorem Stays.accept {kind : TokenKind} {large : Bool → Rule β} {small : Bool → Rule α}
    (stays : Stays φ (accept kind >>= large) s) (forward : ∀ found, Forward (large found))
    (found : ∀ token rest, s.rest = token :: rest → token.kind = kind →
      Stays φ (large true) s.advance → Mirrors φ f (large true) (small true) s.advance)
    (absent : Stays φ (large false) s → Mirrors φ f (large false) (small false) s) :
    Mirrors φ f (Grammar.accept kind >>= large) (Grammar.accept kind >>= small) s := by
  have same := stays.isAt_embed forward
  have later := stays.second (accept_mirrors_of_isAt same)
  rw [run_accept] at later
  refine mirrors_accept_of_isAt same ?_ ?_
  · intro token rest front kind'
    have here : s.isAt kind = true := by simp [Reading.isAt, front, kind']
    rw [here] at later
    exact found token rest front kind' later
  · intro none
    rw [none] at later
    exact absent later

end

theorem accept?_mirrors {kind : TokenKind} (noPipe : kind ≠ .pipe) (s : Reading) :
    Mirrors φ (Option.map φ.token) (accept? kind) (accept? kind) s := by
  have read : Mirrors φ (Option.map φ.token) (accept? kind >>= pure) (accept? kind >>= pure) s :=
    mirrors_accept? noPipe (fun _ _ _ _ => .pure rfl) (.pure rfl)
  exact read

theorem accept?_mirrors_front {s : Reading} {token : Token} {rest : List Token}
    (front : s.rest = token :: rest) (kind : TokenKind) :
    Mirrors φ (Option.map φ.token) (accept? kind) (accept? kind) s := by
  have read : Mirrors φ (Option.map φ.token) (accept? kind >>= pure) (accept? kind >>= pure) s :=
    mirrors_accept?_of_isAt (φ.isAt_embed_cons front kind) (fun _ _ _ _ => .pure rfl) (.pure rfl)
  exact read

theorem ensures_accept_front (kind : TokenKind) (s : Reading) :
    Ensures (accept kind) s fun x t =>
      (x = true ∧ t = s.advance) ∨ (x = false ∧ t = s ∧ s.isAt kind = false) := by
  unfold Ensures
  rw [run_accept]
  split
  · exact .inl ⟨rfl, rfl⟩
  · rename_i other
    exact .inr ⟨rfl, rfl, Bool.eq_false_iff.mpr other⟩

/-- What is accepted is the next token, and it is accepted if it is of the kind. -/
theorem ensures_accept?_front (kind : TokenKind) (s : Reading) :
    Ensures (accept? kind) s fun x t => (x = none ∧ t = s ∧ s.isAt kind = false) ∨
      ∃ token rest, s.rest = token :: rest ∧ x = some token ∧ t = s.advance := by
  unfold Ensures
  rw [run_accept?]
  split
  · rename_i next
    obtain ⟨token, rest, front, _⟩ := Reading.exists_of_isAt next
    exact .inr ⟨token, rest, front, by rw [front]; rfl, rfl⟩
  · rename_i other
    exact .inl ⟨rfl, rfl, Bool.eq_false_iff.mpr other⟩

theorem recoveryLength_le (nested : Bool) (depth : Nat) (tokens : List Token) :
    recoveryLength nested depth tokens ≤ tokens.length := by
  induction tokens generalizing depth with
  | nil => exact Nat.le_refl 0
  | cons token tokens ih =>
      have some (depth : Nat) : 1 + recoveryLength nested depth tokens ≤ tokens.length + 1 := by
        have inner := ih depth
        omega
      unfold recoveryLength
      rw [List.length_cons]
      split
      · split
        · exact Nat.zero_le _
        · exact some _
      · split
        · exact Nat.zero_le _
        · exact some _
      · exact some _
      · exact some _

/-- A recovery that ends within the stage passes over the same tokens without what is beyond. -/
theorem Frame.recoveryLength_token {nested : Bool} {depth : Nat} {tokens : List Token}
    (inside : recoveryLength nested depth (tokens.map φ.token ++ φ.beyond) ≤ tokens.length) :
    recoveryLength nested depth (tokens.map φ.token ++ φ.beyond) =
      recoveryLength nested depth tokens := by
  induction tokens generalizing depth with
  | nil => exact Nat.le_zero.mp inside
  | cons token tokens ih =>
      rw [List.map_cons, List.cons_append] at inside ⊢
      unfold recoveryLength at inside ⊢
      rw [φ.token_kind] at inside ⊢
      rw [List.length_cons] at inside
      split at inside
      · split at inside
        · rename_i ended
          rw [if_pos ended, if_pos ended]
        · rw [ih (by omega)]
      · split at inside
        · rename_i ended
          rw [if_pos ended, if_pos ended]
        · rw [ih (by omega)]
      · rw [ih (by omega)]
      · rw [ih (by omega)]

theorem stays_recover_iff (nested : Bool) (s : Reading) :
    Stays φ (recover nested) s ↔
      recoveryLength nested 0 (s.rest.map φ.token ++ φ.beyond) ≤ s.rest.length := by
  have most := recoveryLength_le nested 0 (φ.embed s).rest
  have length : (φ.embed s).rest.length = s.rest.length + φ.beyond.length := by
    simp [Frame.embed]
  change φ.beyond.length ≤
    ((φ.embed s).skip (recoveryLength nested 0 (φ.embed s).rest)).rest.length ↔
      recoveryLength nested 0 (φ.embed s).rest ≤ s.rest.length
  rw [Reading.rest_skip, List.length_drop]
  omega

theorem recover_mirrors {nested : Bool} {s : Reading} (stays : Stays φ (recover nested) s) :
    Mirrors φ id (recover nested) (recover nested) s := by
  have inside := (stays_recover_iff φ nested s).mp stays
  have same := φ.recoveryLength_token inside
  change ((), (φ.embed s).skip (recoveryLength nested 0 (s.rest.map φ.token ++ φ.beyond))) =
    ((), φ.embed (s.skip (recoveryLength nested 0 s.rest)))
  rw [same] at inside ⊢
  rw [φ.skip_embed inside]

theorem record_mirrors {fault : SyntaxFault} {span moved : Span}
    (same : φ.error ⟨fault, span⟩ = ⟨fault, moved⟩) (s : Reading) :
    Mirrors φ id (record fault moved) (record fault span) s :=
  (mirrors_record same pure pure).mpr (.pure rfl)

/-- The name of a command, moved. -/
def CommandName.relocate (move : Relocation) (name : CommandName) : CommandName :=
  { name with span := move.span name.span }

@[simp]
theorem CommandName.display_relocate (move : Relocation) (name : CommandName) :
    (name.relocate move).display = name.display := rfl

theorem Frame.join_token (first next : Token) :
    (φ.token first).span.join (φ.token next).span = φ.move.span (first.span.join next.span) := by
  simp [Span.join, Frame.move, Relocation.into, Span.shift, Nat.add_min_add_right,
    Nat.add_max_add_right]

theorem commandName_mirrors {s : Reading} {first : Token} {rest : List Token}
    (front : s.rest = first :: rest) :
    Mirrors φ (CommandName.relocate φ.move) (commandName (φ.token first)) (commandName first)
      s := by
  unfold commandName
  refine (mirrors_advance front _ _).mpr ?_
  have single : Mirrors φ (CommandName.relocate φ.move)
      (pure ⟨(φ.token first).lower, none, (φ.token first).span⟩)
      (pure ⟨first.lower, none, first.span⟩) s.advance := .pure rfl
  refine mirrors_next φ ?_ single ?_
  · intro next others after
    rw [φ.token_isWord, φ.token_lower]
    split
    · refine (mirrors_advance after _ _).mpr (.pure ?_)
      rw [φ.join_token]
      rfl
    · exact single
  · intro pipe rest kind
    simp only [Token.isWord, kind]
    rfl

theorem checkBoundary_mirrors (display : String) (nested : Bool) (s : Reading) :
    Mirrors φ id (checkBoundary display nested) (checkBoundary display nested) s := by
  unfold checkBoundary
  refine (mirrors_get _ _).mpr ?_
  rw [φ.isAtBoundary_embed]
  cases boundary : s.isAtBoundary nested with
  | true => exact .pure rfl
  | false =>
      have present : s.rest ≠ [] := by
        intro none
        simp [Reading.isAtBoundary, Reading.isAtEnd, none] at boundary
      obtain ⟨token, rest, front⟩ := List.exists_cons_of_ne_nil present
      simp only [Frame.embed, front]
      exact (mirrors_record rfl pure pure).mpr (.pure rfl)

theorem finishCommand_mirrors (name : CommandName) (stop : Nat) (read : Parts Argument)
    (s : Reading) :
    Mirrors φ (Command.relocate φ.move)
      (finishCommand (name.relocate φ.move) (stop + φ.offset)
        (read.relocate (Argument.relocate φ.move)))
      (finishCommand name stop read) s := by
  unfold finishCommand
  refine (mirrors_get _ _).mpr (.pure ?_)
  have span : (⟨name.span.start + φ.offset, max (stop + φ.offset) (name.span.stop + φ.offset)⟩ :
      Span) = φ.move.span ⟨name.span.start, max stop name.span.stop⟩ := by
    simp [Frame.move, Relocation.into, Span.shift, Nat.add_max_add_right]
  have text : φ.move.text ⟨name.span.start, max stop name.span.stop⟩
      ((Span.mk name.span.start (max stop name.span.stop)).slice s.source) =
      (Span.mk (name.span.start + φ.offset)
        (max (stop + φ.offset) (name.span.stop + φ.offset))).slice φ.source := by
    rw [span]
    rfl
  rw [Command.relocate, Argument.relocateAll_eq_map, text, ← span]
  rfl

/-- What comes behind the arguments of a command. -/
theorem ending_mirrors (name : CommandName) {nested : Bool} (stop : Nat) (read : Parts Argument)
    {s : Reading}
    (stays : Stays φ (do
      recover nested
      finishCommand (name.relocate φ.move) (stop + φ.offset)
        (read.relocate (Argument.relocate φ.move))) s) :
    Mirrors φ (Command.relocate φ.move)
      (do
        recover nested
        finishCommand (name.relocate φ.move) (stop + φ.offset)
          (read.relocate (Argument.relocate φ.move)))
      (do
        recover nested
        finishCommand name stop read) s := by
  have passed := recover_mirrors φ (stays.first fun _ => Forward.finishCommand _ _ _)
  exact passed.seq fun _ t => finishCommand_mirrors φ name stop read t

theorem unknownCommand_mirrors {name : CommandName} {nested : Bool} {s : Reading}
    (stays : Stays φ (unknownCommand (name.relocate φ.move) nested) s) :
    Mirrors φ (Command.relocate φ.move) (unknownCommand (name.relocate φ.move) nested)
      (unknownCommand name nested) s := by
  have known : Ensures (record (.unknownCommand name.display) name.span) s fun _ _ => True :=
    trivial
  refine (record_mirrors φ rfl s).stay stays known ?_
  intro _ t _ inside
  exact ending_mirrors φ name name.span.stop .halted inside

/-- A misplaced command is reported where its name stands. -/
theorem Frame.error_misplaced {verb : Verb} {display : String} {first nested : Bool}
    {fault : SyntaxFault} (misplaced : misplaced? verb display first nested = some fault)
    (span : Span) : φ.error ⟨fault, span⟩ = ⟨fault, φ.move.span span⟩ := by
  unfold misplaced? at misplaced
  split at misplaced
  · cases misplaced
    rfl
  split at misplaced
  · cases misplaced
    rfl
  split at misplaced
  · cases misplaced
    rfl
  · cases misplaced

/-- The arguments of a command that stays within the stage stay within it. -/
theorem Stays.commandBody {φ : Frame} {name : CommandName} {args : Rule (Parts Argument)}
    {nested : Bool} {s : Reading} (stays : Stays φ (commandBody name args nested) s) :
    Stays φ args s := by
  have behind (read : Parts Argument) (stop : Nat) : Forward (do
      recover nested
      finishCommand name stop read) :=
    (Forward.recover nested).bind fun _ => .finishCommand _ _ _
  refine stays.first fun read => Forward.get fun s => ?_
  split
  · exact (Forward.checkBoundary _ _).bind fun _ => behind read s.lastStop
  · exact behind read s.lastStop

theorem commandBody_mirrors {name : CommandName} {nested : Bool} {s : Reading}
    {large small : Rule (Parts Argument)}
    (stays : Stays φ (commandBody (name.relocate φ.move) large nested) s)
    (args : Stays φ large s →
      Mirrors φ (Parts.relocate (Argument.relocate φ.move)) large small s) :
    Mirrors φ (Command.relocate φ.move) (commandBody (name.relocate φ.move) large nested)
      (commandBody name small nested) s := by
  have known : Ensures small s fun _ _ => True := trivial
  refine (args stays.commandBody).stay stays known ?_
  intro read t _ inside
  refine (mirrors_get _ _).mpr ?_
  change Stays φ (if read.complete then _ else _) t at inside
  change Mirrors φ _ (if read.complete then _ else _) _ _
  cases complete : read.complete with
  | true =>
      rw [complete] at inside
      have checked := checkBoundary_mirrors φ name.display nested t
      have known : Ensures (checkBoundary name.display nested) t fun _ _ => True := trivial
      refine checked.stay inside known ?_
      intro _ u _ inside
      exact ending_mirrors φ name t.lastStop read inside
  | false =>
      rw [complete] at inside
      exact ending_mirrors φ name t.lastStop read inside

theorem knownCommand_mirrors {name : CommandName} {verb : Verb} {first nested : Bool} {s : Reading}
    {large small : Rule (Parts Argument)}
    (stays : Stays φ (knownCommand (name.relocate φ.move) verb large first nested) s)
    (args : ∀ t, t.rest = s.rest → Stays φ large t →
      Mirrors φ (Parts.relocate (Argument.relocate φ.move)) large small t) :
    Mirrors φ (Command.relocate φ.move)
      (knownCommand (name.relocate φ.move) verb large first nested)
      (knownCommand name verb small first nested) s := by
  rw [knownCommand_eq, CommandName.display_relocate] at stays ⊢
  rw [knownCommand_eq]
  cases misplaced : misplaced? verb name.display first nested with
  | none =>
      rw [misplaced] at stays
      exact commandBody_mirrors φ stays (args s rfl)
  | some fault =>
      rw [misplaced] at stays
      have recorded := record_mirrors φ (φ.error_misplaced misplaced name.span) s
      have known : Ensures (record fault name.span) s fun _ t => t.rest = s.rest := rfl
      refine recorded.stay stays known ?_
      intro _ t same inside
      exact commandBody_mirrors φ inside (args t same)

/-- The stages that were read, moved. -/
def Stages.relocate (move : Relocation) (stages : Stages) : Stages :=
  ⟨stages.commands.map (Command.relocate move), stages.incomplete⟩

theorem Stages.relocate_add (move : Relocation) (stages : Stages) (x : Option Command) :
    (stages.relocate move).add (x.map (Command.relocate move)) = (stages.add x).relocate move := by
  cases x with
  | none => rfl
  | some command => simp [Stages.relocate, Stages.add]

@[simp]
theorem Stages.isEmpty_relocate (move : Relocation) (stages : Stages) :
    (stages.relocate move).commands.isEmpty = stages.commands.isEmpty := by
  simp [Stages.relocate]

theorem unfinished_mirrors (stages : Stages) (what : Expectation) (s : Reading) :
    Mirrors φ (Stages.relocate φ.move) (unfinished (stages.relocate φ.move) what)
      (unfinished stages what) s :=
  (mirrors_expected _ _ _).mpr (.pure rfl)

/-- A branch is closed in the same way wherever its commands start. -/
theorem closeBranch_finish (start first : Nat) (stages : Stages) :
    closeBranch start (stages.finish first) = (do
      let closed ← accept .closeParen
      let span : Span := ⟨start, (← get).lastStop⟩
      if !closed && !stages.incomplete && !stages.commands.any (·.incomplete) then
        expected .closeParen
      pure ⟨stages.commands, span, stages.incomplete || !closed⟩) := rfl

theorem closeBranch_mirrors (start : Nat) (stages : Stages) (s : Reading) :
    Mirrors φ (Pipeline.relocate φ.move)
      (closeBranch (start + φ.offset) ((stages.relocate φ.move).finish 0))
      (closeBranch start (stages.finish 0)) s := by
  have any : (stages.relocate φ.move).commands.any (·.incomplete) =
      stages.commands.any (·.incomplete) := by
    have same : (fun command : Command => command.incomplete) ∘ Command.relocate φ.move =
        fun command => command.incomplete :=
      funext fun command => command.relocate_incomplete φ.move
    rw [Stages.relocate, List.any_map, same]
  rw [closeBranch_finish, closeBranch_finish, any]
  refine (accept_mirrors φ TokenKind.noConfusion s).seq ?_
  intro closed t
  have result (u : Reading) : Mirrors φ (Pipeline.relocate φ.move)
      (pure ⟨(stages.relocate φ.move).commands, ⟨start + φ.offset, t.lastStop + φ.offset⟩,
        stages.incomplete || !closed⟩)
      (pure ⟨stages.commands, ⟨start, t.lastStop⟩, stages.incomplete || !closed⟩) u := by
    refine .pure ?_
    rw [Pipeline.relocate, Command.relocateAll_eq_map]
    rfl
  refine (mirrors_get _ _).mpr ?_
  change Mirrors φ _ (if (!closed && !stages.incomplete && _) = true then _ else _) _ t
  split
  · exact (mirrors_expected .closeParen _ _).mpr (result _)
  · exact result t

theorem andThen_stay {α : Type} {f : α → α} {s : Reading} {post : Parts α → Reading → Prop}
    {largeFirst largeSecond smallFirst smallSecond : Rule (Parts α)}
    (stays : Stays φ (andThen largeFirst largeSecond) s) (forward : Forward largeSecond)
    (front : Stays φ largeFirst s → Mirrors φ (Parts.relocate f) largeFirst smallFirst s)
    (known : Ensures smallFirst s post)
    (back : ∀ read t, post read t → Stays φ largeSecond t →
      Mirrors φ (Parts.relocate f) largeSecond smallSecond t) :
    Mirrors φ (Parts.relocate f) (andThen largeFirst largeSecond) (andThen smallFirst smallSecond)
      s := by
  have ending (read : Parts α) : Forward (do
      if read.complete then pure (read.append (← largeSecond)) else pure read) := by
    split
    · exact forward.bind fun _ => .pure _
    · exact .pure _
  refine (front (stays.first ending)).stay stays known ?_
  intro read t holds inside
  change Stays φ (if read.complete then _ else _) t at inside
  change Mirrors φ _ (if read.complete then _ else _) (if read.complete then _ else _) t
  split
  · rename_i complete
    rw [if_pos complete] at inside
    refine (back read t holds (inside.first fun _ => .pure _)).seq ?_
    intro others u
    exact .pure (Parts.relocate_append f read others)
  · exact .pure rfl

theorem stagesFrom_pipe (bound : Nat) (nested : Bool) (stages : Stages) {s : Reading} {pipe : Token}
    {rest : List Token} (front : s.rest = pipe :: rest) (found : pipe.kind = .pipe) :
    Ensures (stagesFrom (bound + 1) nested stages) s fun _ t => Follows s.advance t := by
  have more : s.isAtEnd nested = false := by
    simp [Reading.isAtEnd, Reading.isAt, front, found]
  have accepted : Ensures (accept? .pipe) s fun x t => x = some pipe ∧ t = s.advance := by
    have next : s.isAt .pipe = true := by simp [Reading.isAt, front, found]
    unfold Ensures
    rw [run_accept?, next, front]
    exact ⟨rfl, rfl⟩
  unfold stagesFrom
  rw [ensures_get, more, if_neg Bool.false_ne_true]
  refine accepted.bind ?_
  rintro _ _ ⟨rfl, rfl⟩
  exact ((Forward.record .pipeWithoutCommand pipe.span).bind fun _ =>
    .stagesFrom bound nested stages) s.advance

theorem Frame.isAtEnd_of_embed {s : Reading} {nested : Bool}
    (ended : (φ.embed s).isAtEnd nested = true) : s.isAtEnd nested = true := by
  unfold Reading.isAtEnd at ended ⊢
  rw [φ.isAt_embed s TokenKind.noConfusion] at ended
  cases front : s.rest with
  | nil => rfl
  | cons token rest => simpa [Frame.embed, front] using ended

/-- A pipeline within the stage ends where it ends within the larger text. -/
theorem Stays.isAtEnd_embed {φ : Frame} {bound : Nat} {nested : Bool} {stages : Stages}
    {s : Reading} (stays : Stays φ (stagesFrom (bound + 1) nested stages) s) :
    (φ.embed s).isAtEnd nested = s.isAtEnd nested := by
  unfold Reading.isAtEnd
  rw [φ.isAt_embed s TokenKind.noConfusion]
  cases front : s.rest with
  | cons token rest => simp [Frame.embed, front]
  | nil =>
      have none : φ.beyond = [] := by
        refine stays.beyond_eq_nil front ?_
        intro pipe rest behind found
        have first : (φ.embed s).rest = pipe :: rest := (φ.embed_rest_nil front).trans behind
        exact stagesFrom_pipe bound nested stages first found
      simp [Frame.embed, front, none]

/-- The rules for pipelines under one bound, compared with those under any other bound. -/
structure PipelineMirrors (n : Nat) : Prop where
  stagesFrom : ∀ m nested stages s, Covers 2 n s → Covers 2 m s →
    Stays φ (stagesFrom m nested (stages.relocate φ.move)) s →
    Mirrors φ (Stages.relocate φ.move) (stagesFrom m nested (stages.relocate φ.move))
      (stagesFrom n nested stages) s
  command? : ∀ m first nested s, s.rest ≠ [] → Covers 1 n s → Covers 1 m s →
    Stays φ (command? m first nested) s →
    Mirrors φ (Option.map (Command.relocate φ.move)) (command? m first nested)
      (command? n first nested) s
  branches : ∀ m s, Covers 1 n s → Covers 1 m s → Stays φ (branches m) s →
    Mirrors φ (Parts.relocate (Argument.relocate φ.move)) (branches m) (branches n) s
  branchFrom : ∀ m opening s, Covers 4 n s → Covers 4 m s →
    Stays φ (branchFrom m (φ.token opening)) s →
    Mirrors φ (Parts.relocate (Argument.relocate φ.move)) (branchFrom m (φ.token opening))
      (branchFrom n opening) s
  branch : ∀ m start s, Covers 3 n s → Covers 3 m s →
    Stays φ (pipeline m true >>= closeBranch (start + φ.offset)) s →
    Mirrors φ (Pipeline.relocate φ.move) (pipeline m true >>= closeBranch (start + φ.offset))
      (pipeline n true >>= closeBranch start) s

namespace PipelineMirrors

variable {φ : Frame} {n : Nat} (inner : PipelineMirrors φ n)

include inner

theorem branch_succ (m start : Nat) (s : Reading) (small : Covers 3 (n + 1) s)
    (large : Covers 3 m s)
    (stays : Stays φ (pipeline m true >>= closeBranch (start + φ.offset)) s) :
    Mirrors φ (Pipeline.relocate φ.move) (pipeline m true >>= closeBranch (start + φ.offset))
      (pipeline (n + 1) true >>= closeBranch start) s := by
  obtain ⟨m, rfl⟩ := large.exists_succ
  let nothing : Stages := ⟨[], false⟩
  change Stays φ (Grammar.stagesFrom m true (nothing.relocate φ.move) >>= fun stages =>
    closeBranch (start + φ.offset) (stages.finish 0)) s at stays
  change Mirrors φ _ (Grammar.stagesFrom m true (nothing.relocate φ.move) >>= fun stages =>
    closeBranch (start + φ.offset) (stages.finish 0))
    (Grammar.stagesFrom n true nothing >>= fun stages => closeBranch start (stages.finish 0)) s
  have read := inner.stagesFrom m true nothing s small.pred large.pred
    (stays.first fun _ => .closeBranch _ _)
  exact read.seq fun stages t => closeBranch_mirrors φ start stages t

theorem branchFrom_succ (m : Nat) (opening : Token) (s : Reading) (small : Covers 4 (n + 1) s)
    (large : Covers 4 m s) (stays : Stays φ (Grammar.branchFrom m (φ.token opening)) s) :
    Mirrors φ (Parts.relocate (Argument.relocate φ.move)) (Grammar.branchFrom m (φ.token opening))
      (Grammar.branchFrom (n + 1) opening) s := by
  obtain ⟨m, rfl⟩ := large.exists_succ
  let result (branch : Pipeline) : Rule (Parts Argument) :=
    pure (.one (.branch branch) branch.incomplete)
  change Stays φ (pipeline m true >>= closeBranch (opening.span.start + φ.offset) >>= result) s
    at stays
  have read := inner.branch m opening.span.start s small.pred large.pred
    (stays.first fun _ => .pure _)
  change Mirrors φ _ (pipeline m true >>= closeBranch (opening.span.start + φ.offset) >>= result)
    (pipeline n true >>= closeBranch opening.span.start >>= result) s
  refine read.seq fun branch t => .pure ?_
  cases branch
  rfl

theorem branches_succ (m : Nat) (s : Reading) (small : Covers 1 (n + 1) s) (large : Covers 1 m s)
    (stays : Stays φ (Grammar.branches m) s) :
    Mirrors φ (Parts.relocate (Argument.relocate φ.move)) (Grammar.branches m)
      (Grammar.branches (n + 1)) s := by
  obtain ⟨m, rfl⟩ := large.exists_succ
  unfold Grammar.branches at stays ⊢
  refine (accept?_mirrors φ TokenKind.noConfusion s).stay stays (ensures_accept?_front _ s) ?_
  rintro _ _ (⟨rfl, rfl, -⟩ | ⟨opening, rest, front, rfl, rfl⟩) inside
  · exact halt_mirrors φ .branch
  · have less : s.advance.rest.length + 1 ≤ s.rest.length := by
      rw [Reading.advance_rest front, front]
      exact Nat.le_refl _
    have smaller : Covers 5 (n + 1) s.advance := small.less less (by decide)
    have larger : Covers 5 (m + 1) s.advance := large.less less (by decide)
    have more (bound : Nat) : Forward (do
        if (← get).isAt .openParen then Grammar.branches bound else pure .none) :=
      Forward.get fun t => by
        split
        · exact .branches bound
        · exact .pure _
    refine andThen_stay φ inside (more m)
      (inner.branchFrom m opening s.advance smaller.pred larger.pred)
      (Forward.branchFrom n opening s.advance) ?_
    intro read t passed inside
    have shorter := passed.length_le
    refine (mirrors_get _ _).mpr ?_
    change Stays φ (if (φ.embed t).isAt .openParen then _ else _) t at inside
    rw [φ.isAt_embed t TokenKind.noConfusion] at inside ⊢
    split
    · rename_i next
      rw [if_pos next] at inside
      exact inner.branches m t (small.pred.less (by omega) (by decide))
        (large.pred.less (by omega) (by decide)) inside
    · exact none_mirrors φ

theorem namedCommand_mirrors (m : Nat) (first nested : Bool) (name : CommandName) {s t : Reading}
    (less : t.rest.length + 1 ≤ s.rest.length) (small : Covers 1 (n + 1) s)
    (large : Covers 1 (m + 1) s)
    (stays : Stays φ (Grammar.namedCommand m first nested (name.relocate φ.move)) t) :
    Mirrors φ (Option.map (Command.relocate φ.move))
      (Grammar.namedCommand m first nested (name.relocate φ.move))
      (Grammar.namedCommand n first nested name) t := by
  have written : (name.relocate φ.move).name = name.name := rfl
  unfold Grammar.namedCommand at stays ⊢
  rw [written] at stays ⊢
  revert stays
  cases Verb.ofName? name.name with
  | none =>
      intro stays
      refine (unknownCommand_mirrors φ (stays.first fun _ => .pure _)).seq ?_
      intro command u
      exact .pure rfl
  | some verb =>
      intro stays
      refine (knownCommand_mirrors φ (stays.first fun _ => .pure _) ?_).seq ?_
      · intro u same within
        refine arguments_mirrors φ nested verb ?_
        rintro rfl
        rw [← same] at less
        exact inner.branches m u (small.pred.less less (by decide))
          (large.pred.less less (by decide)) within
      · intro command u
        exact .pure rfl

theorem command?_succ (m : Nat) (first nested : Bool) (s : Reading) (present : s.rest ≠ [])
    (small : Covers 1 (n + 1) s) (large : Covers 1 m s)
    (stays : Stays φ (Grammar.command? m first nested) s) :
    Mirrors φ (Option.map (Command.relocate φ.move)) (Grammar.command? m first nested)
      (Grammar.command? (n + 1) first nested) s := by
  obtain ⟨m, rfl⟩ := large.exists_succ
  obtain ⟨token, rest, front⟩ := List.exists_cons_of_ne_nil present
  unfold Stays at stays
  unfold Mirrors
  rw [run_command? m first nested (φ.embed_rest_cons front)] at stays ⊢
  rw [run_command? n first nested front]
  change Stays φ (commandAt m first nested (φ.token token)) s at stays
  change Mirrors φ _ (commandAt m first nested (φ.token token)) (commandAt n first nested token) s
  unfold commandAt at stays ⊢
  cases starts : startsCommand token with
  | false =>
      have same : startsCommand (φ.token token) = false := starts
      rw [same, if_neg Bool.false_ne_true] at stays ⊢
      rw [if_neg Bool.false_ne_true]
      have recorded : Mirrors φ id (expected .commandName) (expected .commandName) s :=
        (mirrors_expected _ pure pure).mpr (.pure rfl)
      have known : Ensures (expected .commandName) s fun _ _ => True := trivial
      refine recorded.stay stays known ?_
      intro _ t _ inside
      refine (recover_mirrors φ (inside.first fun _ => .pure _)).seq ?_
      intro _ u
      exact .pure rfl
  | true =>
      have same : startsCommand (φ.token token) = true := starts
      rw [same, if_pos rfl] at stays ⊢
      rw [if_pos rfl]
      refine (commandName_mirrors φ front).stay stays (commandName_follows token s) ?_
      intro name t passed inside
      have shorter := passed.length_le
      rw [Reading.advance_rest front] at shorter
      have less : t.rest.length + 1 ≤ s.rest.length := by
        rw [front]
        exact Nat.succ_le_succ shorter
      exact inner.namedCommand_mirrors m first nested name less small large inside

/-- What comes behind a command of the stage, under bounds for the tokens before the command. -/
theorem afterCommand_mirrors (m : Nat) (nested : Bool) (stages : Stages) {s u : Reading}
    (shorter : u.rest.length ≤ s.rest.length) (small : Covers 2 (n + 1) s)
    (large : Covers 2 (m + 1) s)
    (stays : Stays φ (Grammar.afterCommand m nested (stages.relocate φ.move)) u) :
    Mirrors φ (Stages.relocate φ.move) (Grammar.afterCommand m nested (stages.relocate φ.move))
      (Grammar.afterCommand n nested stages) u := by
  refine stays.accept (Forward.afterPipe (.stagesFrom _ _ _)) ?_ fun _ => .pure rfl
  · intro pipe rest after found inside
    have less : u.advance.rest.length + 1 ≤ s.rest.length := by
      rw [after] at shorter
      rwa [Reading.advance_rest after]
    rw [if_pos rfl] at inside ⊢
    have smaller : Covers 2 n u.advance := small.pred.less less (by decide)
    have larger : Covers 2 m u.advance := large.pred.less less (by decide)
    refine (mirrors_get _ _).mpr ?_
    change Stays φ (if (φ.embed u.advance).isAtEnd nested then _ else _) u.advance at inside
    cases ended : (φ.embed u.advance).isAtEnd nested with
    | true =>
        rw [φ.isAtEnd_of_embed ended, if_pos rfl, if_pos rfl]
        exact unfinished_mirrors φ _ .commandAfterPipe _
    | false =>
        rw [ended, if_neg Bool.false_ne_true] at inside
        obtain ⟨m, rfl⟩ := larger.exists_succ
        rw [← inside.isAtEnd_embed, ended, if_neg Bool.false_ne_true,
          if_neg Bool.false_ne_true]
        exact inner.stagesFrom _ nested _ _ smaller larger inside

theorem stagesFrom_succ (m : Nat) (nested : Bool) (stages : Stages) (s : Reading)
    (small : Covers 2 (n + 1) s) (large : Covers 2 m s)
    (stays : Stays φ (Grammar.stagesFrom m nested (stages.relocate φ.move)) s) :
    Mirrors φ (Stages.relocate φ.move) (Grammar.stagesFrom m nested (stages.relocate φ.move))
      (Grammar.stagesFrom (n + 1) nested stages) s := by
  obtain ⟨m, rfl⟩ := large.exists_succ
  have atEnd : (φ.embed s).isAtEnd nested = s.isAtEnd nested := stays.isAtEnd_embed
  unfold Grammar.stagesFrom at stays ⊢
  refine (mirrors_get _ _).mpr ?_
  change Stays φ (if (φ.embed s).isAtEnd nested then _ else _) s at stays
  rw [atEnd] at stays ⊢
  cases ended : s.isAtEnd nested with
  | true =>
      rw [if_pos rfl, if_pos rfl, Stages.isEmpty_relocate]
      split
      · exact unfinished_mirrors φ stages .command s
      · exact .pure rfl
  | false =>
      rw [ended, if_neg Bool.false_ne_true] at stays
      rw [if_neg Bool.false_ne_true, if_neg Bool.false_ne_true]
      have present : s.rest ≠ [] := by
        intro none
        simp [Reading.isAtEnd, none] at ended
      obtain ⟨token, rest, front⟩ := List.exists_cons_of_ne_nil present
      refine (accept?_mirrors_front φ front .pipe).stay stays (ensures_accept?_front _ s) ?_
      rintro _ t (⟨rfl, same, -⟩ | ⟨pipe, rest, front, rfl, rfl⟩) inside
      · rw [same] at inside ⊢
        have command := inner.command? m (stages.commands.isEmpty && !nested) nested s present
          small.pred large.pred
        change Stays φ (Grammar.command? m ((stages.relocate φ.move).commands.isEmpty && !nested)
          nested >>= _) s at inside
        change Mirrors φ _
          (Grammar.command? m ((stages.relocate φ.move).commands.isEmpty && !nested) nested >>= _)
          (Grammar.command? n (stages.commands.isEmpty && !nested) nested >>= _) s
        rw [Stages.isEmpty_relocate] at inside ⊢
        have further (stages : Stages) : Forward (afterCommand m nested stages) :=
          .afterCommand (.stagesFrom m nested stages)
        refine (command (inside.first fun x => further _)).stay inside
          (Forward.command? n _ nested s) ?_
        intro x u passed inside
        rw [Stages.relocate_add] at inside ⊢
        exact inner.afterCommand_mirrors m nested _ passed.length_le small large inside
      · have known : Ensures (record .pipeWithoutCommand pipe.span) s.advance fun _ t =>
            t.rest.length + 1 ≤ s.rest.length := by
          change s.advance.rest.length + 1 ≤ s.rest.length
          rw [Reading.advance_rest front, front]
          exact Nat.le_refl _
        refine (record_mirrors φ rfl s.advance).stay inside known ?_
        intro _ t less inside
        exact inner.stagesFrom m nested stages t (small.pred.less less (by decide))
          (large.pred.less less (by decide)) inside

end PipelineMirrors

/-- Under a bound that covers the tokens left no rule is cut off. -/
theorem pipelineMirrors (n : Nat) : PipelineMirrors φ n := by
  induction n with
  | zero =>
      constructor
      · intro m nested stages s small
        cases small
      · intro m first nested s present small
        cases small
      · intro m s small
        cases small
      · intro m opening s small
        cases small
      · intro m start s small
        cases small
  | succ n inner =>
      exact {
        stagesFrom := inner.stagesFrom_succ
        command? := inner.command?_succ
        branches := inner.branches_succ
        branchFrom := inner.branchFrom_succ
        branch := inner.branch_succ }

theorem command?_mirrors {n m : Nat} {first nested : Bool} {s : Reading} (present : s.rest ≠ [])
    (small : Covers 1 n s) (large : Covers 1 m s) (stays : Stays φ (command? m first nested) s) :
    Mirrors φ (Option.map (Command.relocate φ.move)) (command? m first nested)
      (command? n first nested) s :=
  (pipelineMirrors φ n).command? m first nested s present small large stays

/-- The bound under which a text is read covers its tokens. -/
theorem covers_start (text : String) :
    Covers 2 (8 * (Token.scan text).length + 7) (Reading.start text (Token.scan text)) := by
  change 8 * (Token.scan text).length + 2 ≤ _
  omega

end Esql.Grammar
