import Esql.Proofs.Grammar.Forward

/-!
# The stages of a query one by one

A query is read stage by stage: a pipe without a command before it is passed over with an error, a
command is added to those read before, and reading goes on behind the next pipe.
-/

namespace Esql.Grammar

/-- A command of a verb from its arguments on. -/
def commandBody (name : CommandName) (args : Rule (Parts Argument)) (nested : Bool) :
    Rule Command := do
  let read ← args
  let stop := (← get).lastStop
  if read.complete then checkBoundary name.display nested
  recover nested
  finishCommand name stop read

theorem knownCommand_eq (name : CommandName) (verb : Verb) (args : Rule (Parts Argument))
    (first nested : Bool) :
    knownCommand name verb args first nested =
      match misplaced? verb name.display first nested with
      | some fault => do
          record fault name.span
          commandBody name args nested
      | none => commandBody name args nested := by
  unfold knownCommand
  cases misplaced? verb name.display first nested <;> rfl

/-- A command from behind its name on. -/
def namedCommand (bound : Nat) (first nested : Bool) (name : CommandName) :
    Rule (Option Command) :=
  match Verb.ofName? name.name with
  | none => do pure (some (← unknownCommand name nested))
  | some verb => do
      let args := arguments (branches bound) nested verb
      pure (some (← knownCommand name verb args first nested))

/-- A command from its first token on. -/
def commandAt (bound : Nat) (first nested : Bool) (token : Token) : Rule (Option Command) :=
  if startsCommand token then do namedCommand bound first nested (← commandName token)
  else do
    expected .commandName
    recover nested
    pure none

/-- A command is made of its name and its arguments, and ends where these end. -/
structure MadeOf (name : CommandName) (command : Command) (read : Parts Argument) (t : Reading) :
    Prop where
  named : command.name = name.name
  spanned : command.nameSpan = name.span
  args : command.args = read.items
  incomplete : command.incomplete = !read.complete
  stop : command.span.stop = max t.lastStop name.span.stop

theorem commandBody_made (name : CommandName) (args : Rule (Parts Argument)) (nested : Bool)
    (s : Reading) :
    Ensures (commandBody name args nested) s fun command _ =>
      Ensures args s (MadeOf name command) := by
  have run : Ensures args s fun read t => args.run s = (read, t) := rfl
  refine run.bind ?_
  intro read t run
  rw [ensures_get]
  have finish (u : Reading) : Ensures (do
      recover nested
      finishCommand name t.lastStop read) u fun command _ =>
        Ensures args s (MadeOf name command) := by
    unfold Ensures
    rw [run]
    exact ⟨rfl, rfl, rfl, rfl, rfl⟩
  split
  · exact finish _
  · exact finish _

/-- Before the arguments of a command, at most its name is found to be out of place. -/
theorem knownCommand_made (name : CommandName) (verb : Verb) (args : Rule (Parts Argument))
    (first nested : Bool) (s : Reading) :
    Ensures (knownCommand name verb args first nested) s fun command _ =>
      ∃ u, (u = s ∨ ∃ fault, u = s.record ⟨fault, name.span⟩) ∧
        Ensures args u (MadeOf name command) := by
  rw [knownCommand_eq]
  split
  · rename_i fault _
    rw [ensures_record]
    exact (commandBody_made name args nested _).mono fun _ _ made => ⟨_, .inr ⟨fault, rfl⟩, made⟩
  · exact (commandBody_made name args nested s).mono fun _ _ made => ⟨s, .inl rfl, made⟩

theorem namedCommand_made (bound : Nat) (first nested : Bool) (name : CommandName) (s : Reading) :
    Ensures (namedCommand bound first nested name) s fun x _ => ∀ command ∈ x, ∀ verb,
      Verb.ofName? command.name = some verb →
        ∃ u, (u = s ∨ ∃ fault, u = s.record ⟨fault, name.span⟩) ∧
          Ensures (arguments (branches bound) nested verb) u (MadeOf name command) := by
  unfold namedCommand
  split
  · rename_i unknown
    have named : Ensures (unknownCommand name nested) s fun command _ =>
        command.name = name.name := rfl
    refine named.bind ?_
    rintro _ _ same command ⟨⟩ verb known
    rw [same, unknown] at known
    cases known
  · rename_i verb known
    refine (knownCommand_made name verb _ first nested s).bind ?_
    rintro _ _ ⟨u, start, made⟩ command ⟨⟩ other same
    rw [MadeOf.named made, known] at same
    cases same
    exact ⟨u, start, made⟩

theorem run_command? (bound : Nat) (first nested : Bool) {s : Reading} {token : Token}
    {rest : List Token} (front : s.rest = token :: rest) :
    (command? (bound + 1) first nested).run s = (commandAt bound first nested token).run s := by
  obtain ⟨source, tokens, lastStop, errors⟩ := s
  subst front
  unfold command?
  rfl

theorem ensures_command? {bound : Nat} {first nested : Bool} {s : Reading} {token : Token}
    {rest : List Token} {post : Option Command → Reading → Prop} (front : s.rest = token :: rest) :
    Ensures (command? (bound + 1) first nested) s post ↔
      Ensures (commandAt bound first nested token) s post := by
  unfold Ensures
  rw [run_command? bound first nested front]

theorem run_command?_nil {bound : Nat} (first nested : Bool) {s : Reading} (ended : s.rest = []) :
    (command? (bound + 1) first nested).run s = (none, s) := by
  obtain ⟨source, tokens, lastStop, errors⟩ := s
  subst ended
  unfold command?
  rfl

theorem commands_add (stages : Stages) (x : Option Command) :
    (stages.add x).commands = stages.commands ++ x.toList := by
  cases x with
  | none => exact (List.append_nil _).symm
  | some command => rfl

section

variable {bound : Nat} {stages : Stages} {s : Reading} {token : Token} {rest : List Token}

theorem run_stagesFrom_nil (ended : s.rest = []) :
    (stagesFrom (bound + 1) false stages).run s = (stages, s) := by
  unfold stagesFrom
  change (if s.isAtEnd false then _ else _ : Rule Stages).run s = _
  have atEnd : s.isAtEnd false = true := by simp [Reading.isAtEnd, ended]
  rw [atEnd, Bool.and_false]
  rfl

theorem run_stagesFrom_pipe (front : s.rest = token :: rest) (found : token.kind = .pipe) :
    (stagesFrom (bound + 1) false stages).run s =
      (stagesFrom bound false stages).run
        (s.advance.record ⟨.pipeWithoutCommand, token.span⟩) := by
  rw [stagesFrom]
  change (if s.isAtEnd false then _ else _ : Rule Stages).run s = _
  have more : s.isAtEnd false = false := by simp [Reading.isAtEnd, front]
  have next : s.isAt .pipe = true := by simp [Reading.isAt, front, found]
  rw [more, if_neg Bool.false_ne_true, StateT.run_bind, run_accept?, next, front]
  rfl

theorem run_stagesFrom_command (front : s.rest = token :: rest) (noPipe : token.kind ≠ .pipe) :
    (stagesFrom (bound + 1) false stages).run s =
      (command? bound stages.commands.isEmpty false >>= fun x =>
        afterCommand bound false (stages.add x)).run s := by
  unfold stagesFrom
  change (if s.isAtEnd false then _ else _ : Rule Stages).run s = _
  have more : s.isAtEnd false = false := by simp [Reading.isAtEnd, front]
  have next : s.isAt .pipe = false := by simp [Reading.isAt, front, noPipe]
  rw [more, if_neg Bool.false_ne_true, StateT.run_bind, run_accept?, next]
  change (command? bound (stages.commands.isEmpty && !false) false >>= fun x =>
    afterCommand bound false (stages.add x)).run s = _
  rw [Bool.not_false, Bool.and_true]

theorem run_afterCommand_other (other : s.isAt .pipe = false) :
    (afterCommand bound false stages).run s = (stages, s) := by
  unfold afterCommand
  rw [StateT.run_bind, run_accept, other]
  rfl

theorem run_afterCommand_nil (ended : s.rest = []) :
    (afterCommand bound false stages).run s = (stages, s) :=
  run_afterCommand_other (by simp [Reading.isAt, ended])

theorem run_afterCommand_pipe (front : s.rest = token :: rest) (found : token.kind = .pipe) :
    (afterCommand bound false stages).run s =
      if rest = [] then (unfinished stages .commandAfterPipe).run s.advance
      else (stagesFrom bound false stages).run s.advance := by
  unfold afterCommand
  have next : s.isAt .pipe = true := by simp [Reading.isAt, front, found]
  rw [StateT.run_bind, run_accept, next]
  change (if s.advance.isAtEnd false then _ else _ : Rule Stages).run s.advance = _
  unfold Reading.isAtEnd
  rw [Reading.advance_rest front]
  cases rest with
  | nil => rfl
  | cons token rest => rfl

theorem prefix_afterCommand_of (further : ∀ s, Ensures (stagesFrom bound false stages) s
    fun read _ => stages.commands <+: read.commands) (s : Reading) :
    Ensures (afterCommand bound false stages) s fun read _ =>
      stages.commands <+: read.commands := by
  have ended : stages.commands <+: stages.commands := List.prefix_refl _
  unfold Ensures
  cases front : s.rest with
  | nil => exact run_afterCommand_nil front ▸ ended
  | cons token rest =>
      by_cases found : token.kind = .pipe
      · rw [run_afterCommand_pipe front found]
        split
        · exact ended
        · exact further s.advance
      · have other : s.isAt .pipe = false := by simp [Reading.isAt, front, found]
        exact run_afterCommand_other other ▸ ended

/-- The commands that were read stay in front of those that follow. -/
theorem prefix_stagesFrom (bound : Nat) (stages : Stages) (s : Reading) :
    Ensures (stagesFrom bound false stages) s fun read _ =>
      stages.commands <+: read.commands := by
  induction bound generalizing stages s with
  | zero => exact List.prefix_refl _
  | succ bound ih =>
      have ended : stages.commands <+: stages.commands := List.prefix_refl _
      unfold Ensures
      cases front : s.rest with
      | nil => exact run_stagesFrom_nil front ▸ ended
      | cons token rest =>
          by_cases found : token.kind = .pipe
          · rw [run_stagesFrom_pipe front found]
            exact ih stages _
          · rw [run_stagesFrom_command front found, StateT.run_bind]
            have goes (x : Option Command) (t : Reading) :=
              prefix_afterCommand_of (ih (stages.add x)) t
            simp only [commands_add] at goes
            exact (List.prefix_append _ _).trans (goes _ _)

theorem prefix_afterCommand (bound : Nat) (stages : Stages) (s : Reading) :
    Ensures (afterCommand bound false stages) s fun read _ =>
      stages.commands <+: read.commands :=
  prefix_afterCommand_of (prefix_stagesFrom bound stages) s

end

end Esql.Grammar

namespace Esql

/-- The stages of the tree of a text, read under a bound that they do not reach. -/
theorem parse_eq (text : String) :
    ((Grammar.stagesFrom (8 * (Token.scan text).length + 7) false ⟨[], false⟩).run
        (Grammar.Reading.start text (Token.scan text))).1.commands =
        (parse text).pipeline.commands ∧
      ((Grammar.stagesFrom (8 * (Token.scan text).length + 7) false ⟨[], false⟩).run
        (Grammar.Reading.start text (Token.scan text))).2.errors = (parse text).errors :=
  ⟨rfl, rfl⟩

end Esql
