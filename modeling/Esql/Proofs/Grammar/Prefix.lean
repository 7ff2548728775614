import Esql.Proofs.Frame.Pipeline
import Esql.Proofs.Grammar.Tree
import Esql.Proofs.Token.Cut

/-!
# Queries cut behind a command

In a text without errors no command depends on what comes behind it: the text up to the end of a
command has no errors either, and its commands are those of the whole text up to that one.
-/

namespace Esql.Grammar

/-- A state in place is known from the larger one, if no errors were found on the way there. -/
theorem eq_of_embed_inPlace {s t u : Reading} {back left : List Token}
    (closed : ∀ token ∈ back.head?, token.kind = .pipe)
    (state : u = (Frame.inPlace s back closed).embed t) (remains : u.rest = left ++ back)
    (clean : u.errors.length = s.errors.length) : t = ⟨t.source, left, u.lastStop, []⟩ := by
  have tokens : t.rest = left := by
    have tail : t.rest.map (Frame.inPlace s back closed).token ++ back = left ++ back := by
      rw [← remains, state]
      rfl
    rw [Frame.token_inPlace] at tail
    exact List.append_cancel_right tail
  have errors : t.errors = [] := by
    rw [state] at clean
    simp only [Frame.embed, List.length_append, List.length_map] at clean
    exact List.length_eq_zero_iff.mp (by
      change s.errors.length + _ = _ at clean
      omega)
  have stop : u.lastStop = t.lastStop := by
    rw [state]
    rfl
  rw [← tokens, stop, ← errors]

/-- A command in a text that stays within some tokens is the same when these tokens are all. -/
theorem command?_alone {n m : Nat} {first : Bool} {s u : Reading} {command : Command}
    {front back left : List Token} (rest : s.rest = front ++ back) (present : front ≠ [])
    (closed : ∀ token ∈ back.head?, token.kind = .pipe) (large : Covers 1 n s)
    (run : (command? n first false).run s = (some command, u))
    (clean : u.errors.length = s.errors.length) (remains : u.rest = left ++ back)
    (source : String) (small : Covers 1 m ⟨source, front, s.lastStop, []⟩) :
    ∃ moved, (command? m first false).run ⟨source, front, s.lastStop, []⟩ =
        (some moved, ⟨source, left, u.lastStop, []⟩) ∧
      moved.relocate (.into s.source 0) = command := by
  let φ := Frame.inPlace s back closed
  have embedded := Frame.embed_inPlace closed rest source
  have covers : Covers 1 n ⟨source, front, s.lastStop, []⟩ := by
    refine large.mono ?_ (Nat.le_refl 1)
    rw [rest, List.length_append]
    exact Nat.le_add_right _ _
  have stays : Stays φ (command? n first false) ⟨source, front, s.lastStop, []⟩ := by
    unfold Stays
    rw [embedded, run, remains, List.length_append]
    exact Nat.le_add_left _ _
  have same := command?_mirrors φ present small covers stays
  unfold Mirrors at same
  rw [embedded, run] at same
  have passed := Forward.command? m first false ⟨source, front, s.lastStop, []⟩
  unfold Ensures at passed
  revert same passed
  rcases (command? m first false).run ⟨source, front, s.lastStop, []⟩ with ⟨x, t⟩
  intro same passed
  obtain ⟨value, state⟩ := Prod.mk.inj same
  obtain ⟨moved, rfl, relocated⟩ := Option.map_eq_some_iff.mp value.symm
  refine ⟨moved, ?_, relocated⟩
  have origin : t.source = source := Follows.source passed
  have whole : t = ⟨t.source, left, u.lastStop, []⟩ :=
    eq_of_embed_inPlace closed state remains clean
  rw [origin] at whole
  rw [whole]

/-- The commands of a pipeline that is read from these tokens alone. -/
def ReadsAlone (s : Reading) (stages : Stages) (front : List Token) (commands : List Command) :
    Prop :=
  ∀ source m small, small.commands.map (Command.relocate (.into s.source 0)) = stages.commands →
    Covers 2 m ⟨source, front, s.lastStop, []⟩ →
    Ensures (stagesFrom m false small) ⟨source, front, s.lastStop, []⟩ fun read u =>
      u.errors = [] ∧ read.commands.map (Command.relocate (.into s.source 0)) = commands

/-- Where reading goes on without an error, every command is read from the tokens up to its end. -/
def ReadsInOrder (s : Reading) (stages read : Stages) : Prop :=
  ∀ earlier command later, read.commands = earlier ++ command :: later →
    stages.commands <+: earlier →
    ∃ front back, s.rest = front ++ back ∧ front ≠ [] ∧
      (∀ token ∈ back.head?, token.kind = .pipe) ∧
      (s.Ready → Token.stopAfter s.lastStop front = command.span.stop) ∧
      ReadsAlone s stages front (earlier ++ [command])

/-- No command comes behind the last one. -/
theorem readsInOrder_self (s : Reading) (stages : Stages) {read : Stages}
    (same : read.commands = stages.commands) : ReadsInOrder s stages read := by
  intro earlier command later commands before
  have length := before.length_le
  rw [← same, commands, List.length_append, List.length_cons] at length
  omega

/-- A command of a query that is read without an error, with the tokens that it is read from. -/
structure CleanStep (bound : Nat) (s : Reading) (first : Bool) (command : Command)
    (front : List Token) (u : Reading) : Prop where
  run : (command? bound first false).run s = (some command, u)
  clean : u.errors.length = s.errors.length
  leads : Leads s front u
  starts : ∃ token more, front = token :: more ∧ token.kind ≠ .pipe
  closed : ∀ token ∈ u.rest.head?, token.kind = .pipe
  stop : s.Ready → Token.stopAfter s.lastStop front = command.span.stop

theorem exists_cleanStep {bound : Nat} {s u : Reading} {first : Bool} {x : Option Command}
    {token : Token} {rest : List Token} (front : s.rest = token :: rest)
    (noPipe : token.kind ≠ .pipe) (run : (command? bound first false).run s = (x, u))
    (clean : u.errors.length = s.errors.length) :
    ∃ command read, x = some command ∧ CleanStep bound s first command read u := by
  have present : s.rest ≠ [] := by simp [front]
  have outcome := (pipelineOutcomes bound).command? first false s present
  unfold Ensures at outcome
  rw [run] at outcome
  obtain ⟨boundary, stop⟩ := outcome.clean clean
  obtain ⟨command, rfl⟩ : ∃ command, x = some command := by
    cases x with
    | some command => exact ⟨command, rfl⟩
    | none =>
        have faulty : s.errors.length < u.errors.length := outcome.faulty rfl
        omega
  have closed : ∀ token ∈ u.rest.head?, token.kind = .pipe := by
    intro next first
    unfold Reading.isAtBoundary Reading.isAtEnd Reading.isAt at boundary
    rw [Option.mem_def] at first
    cases behind : u.rest with
    | nil =>
        rw [behind] at first
        cases first
    | cons other others =>
        rw [behind] at first boundary
        cases first
        simpa using boundary
  obtain ⟨read, leads⟩ := outcome.follows
  refine ⟨command, read, rfl, run, clean, leads, ?_, closed, ?_⟩
  · cases read with
    | nil =>
        have same : u.rest = token :: rest := by rw [← front, leads.rest, List.nil_append]
        exact absurd (closed token (by rw [same]; rfl)) noPipe
    | cons other more =>
        rw [leads.rest, List.cons_append] at front
        exact ⟨other, more, rfl, (List.cons.inj front).1 ▸ noPipe⟩
  · intro ready
    rw [stop ready command rfl, leads.stop]

namespace CleanStep

variable {bound : Nat} {s u : Reading} {stages : Stages} {command : Command} {front : List Token}
  (step : CleanStep bound s stages.commands.isEmpty command front u)

include step

/-- The command is read first, whatever is left of the tokens behind it. -/
theorem run_alone (large : Covers 2 (bound + 1) s) {left back : List Token}
    (remains : u.rest = left ++ back) (closed : ∀ token ∈ back.head?, token.kind = .pipe)
    {source : String} {m : Nat} {small : Stages}
    (same : small.commands.map (Command.relocate (.into s.source 0)) = stages.commands)
    (covers : Covers 1 m ⟨source, front ++ left, s.lastStop, []⟩) :
    ∃ added, (stagesFrom (m + 1) false small).run ⟨source, front ++ left, s.lastStop, []⟩ =
        (afterCommand m false (small.add (some added))).run ⟨source, left, u.lastStop, []⟩ ∧
      (small.add (some added)).commands.map (Command.relocate (.into s.source 0)) =
        (stages.add (some command)).commands := by
  obtain ⟨token, more, rfl, noPipe⟩ := step.starts
  have rest : s.rest = (token :: more ++ left) ++ back := by
    rw [step.leads.rest, remains, List.append_assoc]
  have empty : small.commands.isEmpty = stages.commands.isEmpty := by
    rw [← same]
    cases small.commands <;> rfl
  obtain ⟨added, run, moved⟩ := command?_alone rest (List.cons_ne_nil _ _) closed large.pred
    step.run step.clean remains source covers
  refine ⟨added, ?_, ?_⟩
  · rw [run_stagesFrom_command rfl noPipe, empty, StateT.run_bind, run]
    rfl
  · simp only [Stages.add, List.map_append, same, List.map_cons, moved, List.map_nil]

/-- Where nothing is left behind the command, it is the last one. -/
theorem alone (large : Covers 2 (bound + 1) s) :
    ReadsAlone s stages front (stages.commands ++ [command]) := by
  intro source m small same covers
  obtain ⟨m, rfl⟩ := covers.exists_succ
  have whole : front ++ [] = front := List.append_nil front
  rw [← whole] at covers ⊢
  obtain ⟨added, run, moved⟩ := step.run_alone large (List.nil_append u.rest).symm step.closed same
    covers.pred
  unfold Ensures
  rw [run, run_afterCommand_nil rfl]
  exact ⟨rfl, moved⟩

/-- Where further commands are left behind a pipe, they are read next. -/
theorem alone_more (large : Covers 2 (bound + 1) s) {pipe : Token} {rest more back : List Token}
    (behind : u.rest = pipe :: rest) (found : pipe.kind = .pipe) (remains : rest = more ++ back)
    (present : more ≠ []) (closed : ∀ token ∈ back.head?, token.kind = .pipe)
    {commands : List Command}
    (next : ReadsAlone u.advance (stages.add (some command)) more commands) :
    ReadsAlone s stages (front ++ pipe :: more) commands := by
  intro source m small same covers
  obtain ⟨m, rfl⟩ := covers.exists_succ
  have left : u.rest = (pipe :: more) ++ back := by rw [behind, remains, List.cons_append]
  obtain ⟨added, run, moved⟩ := step.run_alone large left closed same covers.pred
  unfold Ensures
  rw [run, run_afterCommand_pipe rfl found, if_neg present]
  have origin : u.advance.source = s.source := by
    rw [(Leads.advance behind).source, step.leads.source]
  have fewer : Covers 2 m ⟨source, more, u.advance.lastStop, []⟩ := by
    refine covers.pred.less ?_ (by decide)
    simp only [List.length_append, List.length_cons]
    omega
  rw [← origin] at moved ⊢
  have read := next source m (small.add (some added)) moved fewer
  rw [Reading.lastStop_advance behind] at read
  exact read

/-- A query is read in order if what comes behind its first command is. -/
theorem inOrder (large : Covers 2 (bound + 1) s) {read : Stages}
    (extends' : (stages.add (some command)).commands <+: read.commands)
    (next : read.commands = (stages.add (some command)).commands ∨
      ∃ pipe rest, u.rest = pipe :: rest ∧
        ReadsInOrder u.advance (stages.add (some command)) read) :
    ReadsInOrder s stages read := by
  rintro _ last later commands ⟨more, rfl⟩
  obtain ⟨others, same⟩ := extends'
  have after : command :: others = more ++ last :: later := by
    rw [commands, Stages.add, List.append_assoc, List.append_assoc] at same
    exact List.append_cancel_left same
  cases more with
  | nil =>
      obtain ⟨rfl, _⟩ := List.cons.inj after
      obtain ⟨token, tail, first, _⟩ := step.starts
      refine ⟨front, u.rest, step.leads.rest, ?_, step.closed, step.stop, ?_⟩
      · rw [first]
        exact List.cons_ne_nil _ _
      · rw [List.append_nil]
        exact step.alone large
  | cons other more =>
      obtain ⟨rfl, rest'⟩ := List.cons.inj after
      rcases next with same' | ⟨pipe, rest, behind, inOrder⟩
      · have length := congrArg List.length same'
        simp only [commands, Stages.add, List.length_append, List.length_cons,
          List.length_nil] at length
        omega
      · have found := step.closed pipe (by rw [behind]; rfl)
        have before : (stages.add (some command)).commands <+: stages.commands ++ command :: more :=
          ⟨more, by rw [Stages.add, List.append_assoc, List.singleton_append]⟩
        obtain ⟨second, back, remains, present, closed, stop, alone⟩ :=
          inOrder _ last later commands before
        rw [Reading.advance_rest behind] at remains
        refine ⟨front ++ pipe :: second, back, ?_, ?_, closed, ?_, ?_⟩
        · rw [step.leads.rest, behind, remains, List.append_assoc, List.cons_append]
        · simp
        · intro ready
          have advanced := ((Leads.advance behind).ready (step.leads.ready ready).1).1
          rw [Token.stopAfter_append, Token.stopAfter_cons, ← stop advanced,
            Reading.lastStop_advance behind]
        · exact step.alone_more large behind found remains present closed alone

end CleanStep

/-- A command is read without an error if the rest of the query is as well. -/
theorem command?_clean {bound : Nat} {first : Bool} {stages : Stages} {s u : Reading}
    {x : Option Command} (run : (command? bound first false).run s = (x, u))
    (clean : ((afterCommand bound false stages).run u).2.errors.length = s.errors.length) :
    u.errors.length = s.errors.length := by
  have passed := Forward.command? bound first false s
  unfold Ensures at passed
  rw [run] at passed
  have before : s.errors.length ≤ u.errors.length := Follows.errors passed
  have further := Forward.afterCommand (.stagesFrom bound false stages) u
  have behind := Follows.errors further
  omega

/-- The commands of a query that is read without an error, one behind the other. -/
inductive CleanRun : Nat → Reading → Stages → Stages → Prop where
  | done {bound : Nat} {s : Reading} {stages : Stages} (ended : s.rest = []) :
      CleanRun bound s stages stages
  | last {bound : Nat} {s u : Reading} {stages : Stages} {command : Command} {front : List Token}
      (step : CleanStep bound s stages.commands.isEmpty command front u) (ended : u.rest = []) :
      CleanRun (bound + 1) s stages (stages.add (some command))
  | more {bound : Nat} {s u : Reading} {stages read : Stages} {command : Command}
      {front rest : List Token} {pipe : Token}
      (step : CleanStep bound s stages.commands.isEmpty command front u)
      (behind : u.rest = pipe :: rest) (found : pipe.kind = .pipe) (present : rest ≠ [])
      (next : CleanRun bound u.advance (stages.add (some command)) read) :
      CleanRun (bound + 1) s stages read

/-- What is left behind a command needs a smaller bound. -/
theorem CleanStep.covers_advance {bound : Nat} {s u : Reading} {first : Bool} {command : Command}
    {front rest : List Token} {pipe : Token} (step : CleanStep bound s first command front u)
    (large : Covers 2 (bound + 1) s) (behind : u.rest = pipe :: rest) :
    Covers 2 bound u.advance := by
  have shorter := Follows.length_le ⟨front, step.leads⟩
  refine large.pred.less ?_ (by decide)
  rw [Reading.advance_rest behind]
  rw [behind, List.length_cons] at shorter
  omega

/-- A query that is read without an error is read command by command. -/
theorem stagesFrom_clean (bound : Nat) (stages : Stages) (s : Reading)
    (covers : Covers 2 bound s) :
    Ensures (stagesFrom bound false stages) s fun read t =>
      t.errors.length = s.errors.length → CleanRun bound s stages read := by
  induction bound generalizing stages s with
  | zero => cases covers
  | succ bound ih =>
      unfold Ensures
      cases front : s.rest with
      | nil =>
          rw [run_stagesFrom_nil front]
          intro _
          exact .done front
      | cons token rest =>
          by_cases found : token.kind = .pipe
          · rw [run_stagesFrom_pipe front found]
            have further := Forward.stagesFrom bound false stages
              (s.advance.record ⟨.pipeWithoutCommand, token.span⟩)
            have grown := Follows.errors further
            intro clean
            rw [clean, Reading.errors_record, Reading.errors_advance] at grown
            omega
          · rw [run_stagesFrom_command front found, StateT.run_bind]
            rcases run : (command? bound stages.commands.isEmpty false).run s with ⟨x, u⟩
            change ((afterCommand bound false (stages.add x)).run u).2.errors.length = _ →
              CleanRun (bound + 1) s stages ((afterCommand bound false (stages.add x)).run u).1
            intro clean
            have uClean := command?_clean run clean
            obtain ⟨command, read, rfl, step⟩ := exists_cleanStep front found run uClean
            cases behind : u.rest with
            | nil =>
                rw [run_afterCommand_nil behind]
                exact .last step behind
            | cons pipe rest =>
                have isPipe := step.closed pipe (by rw [behind]; rfl)
                rw [run_afterCommand_pipe behind isPipe] at clean ⊢
                by_cases ended : rest = []
                · rw [if_pos ended] at clean
                  have recorded : ((unfinished (stages.add (some command))
                      .commandAfterPipe).run u.advance).2.errors.length =
                      u.advance.errors.length + 1 := Reading.errors_record _ _
                  rw [recorded, Reading.errors_advance] at clean
                  omega
                · rw [if_neg ended] at clean ⊢
                  refine .more step behind isPipe ended ?_
                  refine ih _ u.advance (step.covers_advance covers behind) ?_
                  rw [clean, Reading.errors_advance, uClean]

namespace CleanRun

variable {bound : Nat} {s : Reading} {stages read : Stages}

theorem grows (run : CleanRun bound s stages read) : stages.commands <+: read.commands := by
  induction run with
  | done ended => exact List.prefix_refl _
  | last step ended => exact List.prefix_append _ _
  | more step behind found present next ih => exact (List.prefix_append _ _).trans ih

theorem inOrder (run : CleanRun bound s stages read) (covers : Covers 2 bound s) :
    ReadsInOrder s stages read := by
  induction run with
  | done ended => exact readsInOrder_self _ _ rfl
  | last step ended => exact step.inOrder covers (List.prefix_refl _) (.inl rfl)
  | more step behind found present next ih =>
      have inner := ih (step.covers_advance covers behind)
      exact step.inOrder covers next.grows (.inr ⟨_, _, behind, inner⟩)

end CleanRun

end Esql.Grammar

namespace Esql

/-- Some tokens at the front of a text are the tokens of the text up to the end of the last one, if
nothing or a pipe comes behind them. -/
theorem scan_slice {text : String} {front back : List Token}
    (tokens : Token.scan text = front ++ back) (closed : ∀ token ∈ back.head?, token.kind = .pipe) :
    ∃ rest, text.toList = ((Span.mk 0 (Token.stopAfter 0 front)).slice text).toList ++ rest ∧
      Token.scan ((Span.mk 0 (Token.stopAfter 0 front)).slice text) = front := by
  obtain ⟨chars, rest, after, whole, run, behind, stop⟩ := Token.exists_scanned_append tokens
  rw [Nat.zero_add] at stop behind
  have slice : (Span.mk 0 (Token.stopAfter 0 front)).slice text = String.ofList chars := by
    have cut := Text.sliceChars_width [] chars rest
    rw [List.nil_append, Text.width_nil, Nat.zero_add] at cut
    unfold Span.slice
    rw [stop, whole, cut]
  have alone := (run.cut (Token.cutsBefore_of_scanFrom (by rwa [behind]))).scanFrom_eq
  rw [Token.scanFrom_nil, List.append_nil, List.append_nil] at alone
  refine ⟨rest, ?_, ?_⟩
  · rw [slice, String.toList_ofList, whole]
  · rw [slice, Token.scan, String.toList_ofList, alone]

/-- The text up to the end of a command is read without errors, with the commands up to it. -/
theorem parse_front {text : String} {earlier later : List Command} {command : Command}
    (clean : (parse text).errors = [])
    (commands : (parse text).pipeline.commands = earlier ++ command :: later) :
    (parse ((Span.mk 0 command.span.stop).slice text)).errors = [] ∧
      (parse ((Span.mk 0 command.span.stop).slice text)).pipeline.commands =
        earlier ++ [command] := by
  obtain ⟨tree, errors⟩ := parse_eq text
  have run := Grammar.stagesFrom_clean _ ⟨[], false⟩ _ (Grammar.covers_start text) (by
    rw [errors, clean]
    rfl)
  have inOrder := run.inOrder (Grammar.covers_start text)
  rw [← tree] at commands
  obtain ⟨front, back, tokens, _, closed, stop, alone⟩ :=
    inOrder earlier command later commands List.nil_prefix
  obtain ⟨rest, whole, scanned⟩ := scan_slice tokens closed
  have last : Token.stopAfter 0 front = command.span.stop := stop (Grammar.ready_start text)
  rw [last] at whole scanned
  generalize (Span.mk 0 command.span.stop).slice text = cut at whole scanned
  have enough := Grammar.covers_start cut
  have tree := parse_eq cut
  rw [scanned] at enough tree
  obtain ⟨noErrors, read⟩ := alone cut _ ⟨[], false⟩ rfl enough
  refine ⟨tree.2.symm.trans noErrors, ?_⟩
  have nested := nested_parse cut
  obtain ⟨fits, row, inside⟩ := nested
  rw [← read]
  have same : (parse cut).pipeline.commands.map
      (Command.relocate (.into (Grammar.Reading.start text (Token.scan text)).source 0)) =
      (parse cut).pipeline.commands := by
    refine (List.map_congr_left fun command member => ?_).trans (List.map_id _)
    exact (inside command member).relocate_eq whole
  rw [← tree.1] at same ⊢
  exact same.symm

/-- In a text without errors the tree up to a command does not depend on what comes behind the
command: the text up to its end has no errors and exactly the commands up to it. -/
theorem parse_through_command {text : String} {i : Nat} {command : Command}
    (clean : (parse text).errors = [])
    (found : (parse text).pipeline.commands[i]? = some command) :
    (parse ((Span.mk 0 command.span.stop).slice text)).errors = [] ∧
      (parse ((Span.mk 0 command.span.stop).slice text)).pipeline.commands =
        (parse text).pipeline.commands.take (i + 1) := by
  obtain ⟨inside, rfl⟩ := List.getElem?_eq_some_iff.mp found
  have division : (parse text).pipeline.commands =
      (parse text).pipeline.commands.take i ++
        (parse text).pipeline.commands[i] :: (parse text).pipeline.commands.drop (i + 1) := by
    rw [← List.drop_eq_getElem_cons inside, List.take_append_drop]
  obtain ⟨noErrors, same⟩ := parse_front clean division
  refine ⟨noErrors, ?_⟩
  rw [same, List.take_succ_eq_append_getElem inside]

theorem parse_through_command_limit :
    (parse "FROM a | LIMIT 1").errors = [] ∧
      ∃ command, (parse "FROM a | LIMIT 1").pipeline.commands[0]? = some command ∧
        (parse ((Span.mk 0 command.span.stop).slice "FROM a | LIMIT 1")).pipeline.commands =
          (parse "FROM a | LIMIT 1").pipeline.commands.take 1 := by
  have clean : (parse "FROM a | LIMIT 1").errors = [] := by decide +kernel
  have present : (parse "FROM a | LIMIT 1").pipeline.commands[0]?.isSome = true := by
    decide +kernel
  obtain ⟨command, found⟩ := Option.isSome_iff_exists.mp present
  exact ⟨clean, command, found, (parse_through_command clean found).2⟩

end Esql
