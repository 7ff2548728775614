import Esql.Proofs.Grammar.Pipeline

/-!
# Reading on

No rule of the grammar of pipelines goes back: whatever it returns, the tokens that it leaves are
the last ones of those that it was given.
-/

namespace Esql.Grammar

/-- What a pipeline does behind a command. -/
def afterCommand (bound : Nat) (nested : Bool) (stages : Stages) : Rule Stages := do
  if ← accept .pipe then
    if (← get).isAtEnd nested then unfinished stages .commandAfterPipe
    else stagesFrom bound nested stages
  else pure stages

/-- A rule that only ever reads on. -/
def Forward {α : Type} (rule : Rule α) : Prop := ∀ s, Ensures rule s fun _ t => Follows s t

namespace Forward

variable {α β : Type} {rule : Rule α} {next : α → Rule β}

theorem pure (x : α) : Forward (pure x) := fun s => .refl s

theorem bind (first : Forward rule) (second : ∀ x, Forward (next x)) : Forward (rule >>= next) := by
  intro s
  refine (first s).bind ?_
  intro x u front
  refine (second x u).mono ?_
  intro y t back
  exact front.trans back

theorem get {next : Reading → Rule β} (second : ∀ s, Forward (next s)) : Forward (get >>= next) :=
  fun s => second s s

theorem tokens {next : List Token → Rule β} (second : ∀ tokens, Forward (next tokens)) :
    Forward (tokens >>= next) :=
  fun s => second s.rest s

theorem advance : Forward advance := fun s => follows_skip s 1

theorem record (fault : SyntaxFault) (span : Span) : Forward (record fault span) :=
  fun s => ⟨_, .record s _⟩

theorem expected (what : Expectation) : Forward (expected what) := fun s => ⟨_, .record s _⟩

theorem recover (nested : Bool) : Forward (recover nested) := fun s => (recover_outcome nested s).1

theorem accept (kind : TokenKind) : Forward (accept kind) := by
  refine get fun s => ?_
  split
  · exact advance.bind fun _ => .pure true
  · exact .pure false

theorem accept? (kind : TokenKind) : Forward (accept? kind) := by
  refine tokens fun rest => ?_
  split
  · split
    · exact advance.bind fun _ => .pure _
    · exact .pure none
  · exact .pure none

theorem checkBoundary (display : String) (nested : Bool) :
    Forward (checkBoundary display nested) := by
  refine get fun s => ?_
  split
  · split
    · exact record _ _
    · exact .pure ()
  · exact .pure ()

theorem finishCommand (name : CommandName) (stop : Nat) (read : Parts Argument) :
    Forward (finishCommand name stop read) := get fun _ => .pure _

theorem closeBranch (start : Nat) (branch : Pipeline) : Forward (closeBranch start branch) := by
  refine (accept .closeParen).bind fun closed => get fun s => ?_
  split
  · exact (expected .closeParen).bind fun _ => .pure _
  · exact .pure _

theorem branches (bound : Nat) : Forward (branches bound) :=
  fun s => ((pipelineOutcomes bound).branches s).follows

theorem command? (bound : Nat) (first nested : Bool) : Forward (command? bound first nested) := by
  intro s
  cases front : s.rest with
  | cons token rest =>
      have present : s.rest ≠ [] := by simp [front]
      exact ((pipelineOutcomes bound).command? first nested s present).follows
  | nil =>
      cases bound with
      | zero => exact ((expected .commandName).bind fun _ => .pure none) s
      | succ bound =>
          unfold Grammar.command?
          rw [ensures_tokens, front]
          exact .refl s

theorem unfinished (stages : Stages) (what : Expectation) : Forward (unfinished stages what) :=
  (expected what).bind fun _ => .pure _

theorem afterPipe {bound : Nat} {nested : Bool} {stages : Stages}
    (next : Forward (stagesFrom bound nested stages)) (more : Bool) : Forward (do
      if more then
        if (← MonadState.get).isAtEnd nested then Grammar.unfinished stages .commandAfterPipe
        else Grammar.stagesFrom bound nested stages
      else Pure.pure stages) := by
  split
  · refine get fun s => ?_
    split
    · exact unfinished stages _
    · exact next
  · exact .pure stages

theorem afterCommand {bound : Nat} {nested : Bool} {stages : Stages}
    (next : Forward (stagesFrom bound nested stages)) :
    Forward (afterCommand bound nested stages) :=
  (accept .pipe).bind (afterPipe next)

theorem stagesFrom (bound : Nat) (nested : Bool) (stages : Stages) :
    Forward (stagesFrom bound nested stages) := by
  induction bound generalizing stages with
  | zero => exact unfinished stages .command
  | succ bound ih =>
      unfold Grammar.stagesFrom
      refine get fun s => ?_
      split
      · split
        · exact unfinished stages .command
        · exact .pure _
      refine (accept? .pipe).bind fun pipe => ?_
      cases pipe with
      | some pipe => exact (record _ _).bind fun _ => ih stages
      | none => exact (command? bound _ nested).bind fun x => afterCommand (ih (stages.add x))

theorem pipeline (bound : Nat) (nested : Bool) : Forward (pipeline bound nested) := by
  cases bound with
  | zero => exact get fun s => (expected .command).bind fun _ => .pure _
  | succ bound => exact get fun s => (stagesFrom bound nested _).bind fun _ => .pure _

theorem branchFrom (bound : Nat) (opening : Token) : Forward (branchFrom bound opening) := by
  cases bound with
  | zero => exact (expected .branch).bind fun _ => .pure _
  | succ bound =>
      exact (pipeline bound true).bind fun branch => (closeBranch _ branch).bind fun _ => .pure _

end Forward

/-- A command has at least one token. -/
theorem commandName_follows (first : Token) (s : Reading) :
    Ensures (commandName first) s fun _ t => Follows s.advance t := by
  unfold commandName
  rw [ensures_advance]
  refine (Forward.tokens fun rest => ?_) s.advance
  split
  · split
    · exact Forward.advance.bind fun _ => .pure _
    · exact .pure _
  · exact .pure _

end Esql.Grammar
