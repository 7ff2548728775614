import Esql.Grammar.Pipeline
import Esql.Proofs.Grammar.Arguments

/-!
# Outcomes of pipelines

Commands stand one behind the other with a pipe between any two, in the query and in every branch
of a fork. A command that records no error ends where the next pipe stands, where its branch
closes, or with the text.
-/

namespace Esql.Grammar

/-- The next token starts behind the last one read. -/
theorem Reading.Ready.stop_le_nextStart {s : Reading} (ready : s.Ready) :
    s.lastStop ≤ s.nextStart := by
  unfold Reading.nextStart
  split
  · rename_i token rest front
    exact (ready.head front).2
  · exact ready.stop.le_width

theorem Reading.Ready.nextStart_boundary {s : Reading} (ready : s.Ready) :
    Text.IsBoundary s.source.toList s.nextStart := by
  unfold Reading.nextStart
  split
  · rename_i token rest front
    exact (ready.head front).1.fits.starts
  · exact Text.isBoundary_width _

theorem Reading.nextStart_eq {s : Reading} {token : Token} {rest : List Token}
    (front : s.rest = token :: rest) : s.nextStart = token.span.start := by
  unfold Reading.nextStart
  rw [front]

theorem Follows.nextStart_le {s t : Reading} (follows : Follows s t) (ready : s.Ready) :
    s.nextStart ≤ t.nextStart := by
  obtain ⟨read, leads⟩ := follows
  cases read with
  | nil =>
      have same : s.nextStart = t.nextStart := by
        unfold Reading.nextStart
        rw [leads.rest, List.nil_append, leads.source]
      exact Nat.le_of_eq same
  | cons token read =>
      have front := leads.rest
      have later : Leads s.advance read t :=
        ⟨by rw [leads.source, (Leads.advance front).source], Reading.advance_rest front,
          by rw [leads.stop, Reading.lastStop_advance front, Token.stopAfter_cons],
          by rw [Reading.errors_advance]; exact leads.errors⟩
      obtain ⟨advanced, _⟩ := (Leads.advance front).ready ready
      obtain ⟨last, forward⟩ := later.ready advanced
      rw [Reading.lastStop_advance front] at forward
      rw [Reading.nextStart_eq front]
      exact Nat.le_trans (ready.head front).1.fits.ordered
        (Nat.le_trans forward last.stop_le_nextStart)

/-- The name of a command covers the tokens that it was read from. -/
structure NameOutcome (s : Reading) (name : CommandName) (t : Reading) : Prop where
  passage : Passage 0 s t
  starts : s.Ready → name.span.start = s.nextStart
  nonempty : s.Ready → name.span.start < name.span.stop
  stops : s.Ready → name.span.stop = t.lastStop

theorem isPlain_of_startsCommand {token : Token} (starts : startsCommand token = true) :
    IsPlain token.kind := by
  unfold startsCommand at starts
  rw [Bool.or_eq_true] at starts
  rcases starts with word | reserved
  · exact isPlain_of_isName (isName_of_isWord word)
  · cases kind : token.kind with
    | keyword reserved => exact isPlain_keyword reserved
    | _ =>
        rw [kind] at reserved
        cases reserved

theorem commandName_outcome {s : Reading} {first : Token} {rest : List Token}
    (front : s.rest = first :: rest) (starts : startsCommand first = true) :
    Ensures (commandName first) s (NameOutcome s) := by
  have plain := isPlain_of_startsCommand starts
  have step : Passage 0 s s.advance :=
    (Passage.advance front rfl plain.1).weaken (Int.le_of_eq plain.2)
  have stop := Reading.lastStop_advance front
  have single (qualifier? : Option String) (name : String) :
      NameOutcome s ⟨name, qualifier?, first.span⟩ s.advance := by
    refine ⟨step, fun _ => (Reading.nextStart_eq front).symm, ?_, fun _ => stop.symm⟩
    intro ready
    exact (ready.head front).1.nonempty
  unfold commandName
  simp only [ensures_advance, ensures_tokens]
  split
  · rename_i next others after
    split
    · rename_i join
      rw [Bool.and_eq_true] at join
      have next_plain := isPlain_of_isWord join.1
      simp only [ensures_advance, ensures_pure]
      have second : Passage 0 s.advance s.advance.advance :=
        (Passage.advance after rfl next_plain.1).weaken (Int.le_of_eq next_plain.2)
      have row (ready : s.Ready) : first.span.start < first.span.stop ∧
          first.span.stop ≤ next.span.start ∧ next.span.start ≤ next.span.stop := by
        have head := (ready.head front).1.nonempty
        obtain ⟨sound, behind⟩ := (step.follows.ready ready).head after
        rw [stop] at behind
        exact ⟨head, behind, sound.fits.ordered⟩
      refine ⟨step.trans second, ?_, ?_, ?_⟩
      · intro ready
        have inOrder := row ready
        rw [Reading.nextStart_eq front]
        simp only [Span.join]
        omega
      · intro ready
        have inOrder := row ready
        simp only [Span.join]
        omega
      · intro ready
        have inOrder := row ready
        rw [Reading.lastStop_advance after]
        simp only [Span.join]
        omega
    · exact single none first.lower
  · exact single none first.lower

/-- Passing over what could not be read goes forward. -/
theorem follows_skip (s : Reading) (count : Nat) : Follows s (s.skip count) :=
  ⟨_, leads_skip s count⟩

/-- At a place where a command may end nothing is passed over. -/
theorem recoveryLength_eq_zero {nested : Bool} {s : Reading}
    (boundary : s.isAtBoundary nested = true) : recoveryLength nested 0 s.rest = 0 := by
  unfold Reading.isAtBoundary Reading.isAtEnd Reading.isAt at boundary
  cases front : s.rest with
  | nil => rfl
  | cons token rest =>
      rw [front] at boundary
      simp only [List.isEmpty_cons, Bool.false_or, List.head?_cons, Option.any_some,
        Bool.or_eq_true, Bool.and_eq_true, beq_iff_eq] at boundary
      unfold recoveryLength
      rcases boundary with ⟨inside, kind⟩ | kind
      · rw [kind, inside]
        rfl
      · rw [kind]
        rfl

theorem recover_outcome (nested : Bool) (s : Reading) :
    Ensures (recover nested) s fun _ t =>
      Follows s t ∧ (s.isAtBoundary nested = true → t = s) := by
  refine ⟨follows_skip s _, ?_⟩
  intro boundary
  change s.skip (recoveryLength nested 0 s.rest) = s
  rw [recoveryLength_eq_zero boundary]
  rfl

/-- What is known of a command that was read from a state on. -/
structure CommandOutcome (nested : Bool) (s : Reading) (x : Option Command) (t : Reading) :
    Prop where
  follows : Follows s t
  faulty : (x.all fun command => command.incomplete) = true → s.errors.length < t.errors.length
  starts : s.Ready → ∀ command ∈ x, command.span.start = s.nextStart
  stops : s.Ready → ∀ command ∈ x, command.span.stop ≤ t.lastStop
  tree : s.Ready → ∀ command ∈ x, command.Nested s.source
  named : s.Ready → ∀ command ∈ x, command.Named s.source
  clean : t.errors.length = s.errors.length →
    t.isAtBoundary nested = true ∧ (s.Ready → ∀ command ∈ x, command.span.stop = t.lastStop)

/-- The arguments of a command as a rule within a pipeline reads them. -/
structure ArgumentsOutcome (s : Reading) (read : Parts Argument) (t : Reading) : Prop where
  follows : Follows s t
  faulty : (!read.complete) = true → s.errors.length < t.errors.length
  placed : s.Ready →
    Placed Argument.span (Argument.Nested s.source) s.lastStop read.items t.lastStop

theorem ArgumentsOutcome.of_outcome {s t : Reading} {read : Parts Argument}
    (outcome : ArgumentOutcome 0 (!read.complete) s read.items t) : ArgumentsOutcome s read t :=
  ⟨outcome.passage.follows, outcome.faulty, outcome.placed⟩

theorem NameOutcome.record {s t : Reading} {name : CommandName} (named : NameOutcome s name t)
    (error : SyntaxError) : NameOutcome s name (t.record error) :=
  ⟨named.passage.trans (.record t error), named.starts, named.nonempty, named.stops⟩

theorem ArgumentsOutcome.append {s u t : Reading} {first second : Parts Argument}
    (front : ArgumentsOutcome s first u) (back : ArgumentsOutcome u second t) :
    ArgumentsOutcome s (first.append second) t := by
  refine ⟨front.follows.trans back.follows, ?_, ?_⟩
  · intro fails
    exact Nat.lt_of_le_of_lt front.follows.errors (back.faulty fails)
  · intro ready
    have behind := back.placed (front.follows.ready ready)
    rw [front.follows.source] at behind
    exact (front.placed ready).append behind

/-- A command from its name and its arguments; what is passed over behind them is no part of it. -/
theorem finishCommand_outcome {s u v t : Reading} {name : CommandName} {read : Parts Argument}
    {stop : Nat} (named : NameOutcome s name u) (args : ArgumentsOutcome u read v)
    (stops : s.Ready → stop = v.lastStop) (further : Follows v t) :
    Ensures (finishCommand name stop read) t fun x w => w = t ∧
      x.incomplete = !read.complete ∧ (s.Ready → x.span.start = s.nextStart ∧
        x.span.stop = v.lastStop ∧ x.Nested s.source ∧ x.Named s.source) := by
  unfold finishCommand
  simp only [ensures_get, ensures_pure, true_and]
  intro ready
  have nameReady := named.passage.follows.ready ready
  have argsReady := args.follows.ready nameReady
  have placed := args.placed nameReady
  have source := (named.passage.follows.trans (args.follows.trans further)).source
  rw [named.passage.follows.source] at placed
  have start := named.starts ready
  have ordered := Nat.le_of_lt (named.nonempty ready)
  have behind := args.follows.stop_le nameReady
  rw [← named.stops ready] at placed behind
  have last : max stop name.span.stop = v.lastStop := by
    rw [stops ready]
    exact Nat.max_eq_left behind
  have whole := placed.widen ordered (Nat.le_refl _)
  have starts : Text.IsBoundary s.source.toList name.span.start := by
    rw [start]
    exact ready.nextStart_boundary
  have stops : Text.IsBoundary s.source.toList name.span.stop := by
    have boundary := nameReady.stop
    rwa [← named.stops ready, named.passage.follows.source] at boundary
  refine ⟨start, last, .intro ⟨?_, starts, ?_⟩ ?_ ?_ whole.sound,
    ⟨⟨ordered, starts, stops⟩, rfl, named.nonempty ready, ?_⟩⟩
  · exact Nat.le_trans (Nat.le_trans ordered behind) (Nat.le_of_eq last.symm)
  · have boundary := argsReady.stop
    rw [args.follows.source, named.passage.follows.source] at boundary
    exact last.symm ▸ boundary
  · rw [source]
  · exact whole.row.widen (Nat.le_refl _) (Nat.le_of_eq last.symm)
  · exact placed.row.widen (Nat.le_refl _) (Nat.le_of_eq last.symm)

theorem CommandOutcome.of_finish {s u v t : Reading} {name : CommandName}
    {read : Parts Argument} {nested : Bool} {stop : Nat} (named : NameOutcome s name u)
    (args : ArgumentsOutcome u read v) (stops : s.Ready → stop = v.lastStop) (further : Follows v t)
    (clean : t.errors.length = s.errors.length →
      t.isAtBoundary nested = true ∧ t.lastStop = v.lastStop) :
    Ensures (finishCommand name stop read) t fun x w => CommandOutcome nested s (some x) w := by
  refine (finishCommand_outcome named args stops further).mono ?_
  rintro x w ⟨rfl, incomplete, tree⟩
  have forward := named.passage.follows
  refine ⟨forward.trans (args.follows.trans further), ?_, ?_, ?_, ?_, ?_, ?_⟩
  · intro fails
    rw [Option.all_some, incomplete] at fails
    have grown := args.faulty fails
    have before := forward.errors
    have behind := further.errors
    omega
  · rintro ready _ ⟨⟩
    exact (tree ready).1
  · rintro ready _ ⟨⟩
    rw [(tree ready).2.1]
    exact further.stop_le (args.follows.ready (forward.ready ready))
  · rintro ready _ ⟨⟩
    exact (tree ready).2.2.1
  · rintro ready _ ⟨⟩
    exact (tree ready).2.2.2
  · intro same
    obtain ⟨boundary, stop⟩ := clean same
    refine ⟨boundary, ?_⟩
    rintro ready _ ⟨⟩
    rw [(tree ready).2.1, stop]

theorem checkBoundary_outcome (display : String) (nested : Bool) (s : Reading) :
    Ensures (checkBoundary display nested) s fun _ t => (t = s ∨ ∃ error, t = s.record error) ∧
      (t.errors.length = s.errors.length → t.isAtBoundary nested = true) := by
  unfold checkBoundary
  simp only [ensures_get]
  split
  · rename_i behind
    split
    · rename_i token rest front
      refine ⟨.inr ⟨_, rfl⟩, ?_⟩
      intro same
      exact absurd same (by
        change ¬ (s.record _).errors.length = s.errors.length
        simp)
    · rename_i front
      refine ⟨.inl rfl, ?_⟩
      intro _
      change s.isAtBoundary nested = true
      simp [Reading.isAtBoundary, Reading.isAtEnd, front]
  · rename_i boundary
    refine ⟨.inl rfl, ?_⟩
    intro _
    change s.isAtBoundary nested = true
    simpa using boundary

/-- A command whose name is no verb. -/
theorem unknownCommand_outcome {s u : Reading} {name : CommandName} (nested : Bool)
    (named : NameOutcome s name u) :
    Ensures (unknownCommand name nested) u fun x t => CommandOutcome nested s (some x) t := by
  unfold unknownCommand
  simp only [ensures_record]
  have nothing (error : SyntaxError) : ArgumentsOutcome u .halted (u.record error) :=
    ⟨⟨_, .record u error⟩, fun _ => by simp, fun _ => .nil (Nat.le_refl _)⟩
  refine (recover_outcome nested _).bind ?_
  rintro _ t ⟨passed, _⟩
  refine .of_finish named (nothing _) named.stops passed ?_
  intro same
  have before := named.passage.follows.errors
  have most := passed.errors
  rw [Reading.errors_record] at most
  omega

/-- A command of a verb, given the outcome of its arguments. -/
theorem knownCommand_outcome {s u : Reading} {name : CommandName} {args : Rule (Parts Argument)}
    (verb : Verb) (first nested : Bool) (named : NameOutcome s name u)
    (read : ∀ u, Ensures args u (ArgumentsOutcome u)) :
    Ensures (knownCommand name verb args first nested) u fun x t =>
      CommandOutcome nested s (some x) t := by
  have rest (u : Reading) (named : NameOutcome s name u) :
      Ensures (do
        let read ← args
        let stop := (← get).lastStop
        if read.complete then checkBoundary name.display nested
        recover nested
        finishCommand name stop read) u fun x t => CommandOutcome nested s (some x) t := by
    have before := named.passage.follows.errors
    refine (read u).bind ?_
    intro read v outcome
    have grown := outcome.follows.errors
    simp only [ensures_get]
    split
    · refine (checkBoundary_outcome name.display nested v).bind ?_
      rintro _ w ⟨checked, boundary⟩
      have further : Follows v w ∧ w.lastStop = v.lastStop := by
        rcases checked with rfl | ⟨error, rfl⟩
        · exact ⟨.refl _, rfl⟩
        · exact ⟨⟨_, .record v error⟩, rfl⟩
      have more := further.1.errors
      refine (recover_outcome nested w).bind ?_
      rintro _ t ⟨passed, stays⟩
      refine .of_finish named outcome (fun _ => rfl) (further.1.trans passed) ?_
      intro same
      have most := passed.errors
      have ended := boundary (by omega)
      rw [stays ended]
      exact ⟨ended, further.2⟩
    · rename_i incomplete
      have faulty := outcome.faulty (by simpa using incomplete)
      refine (recover_outcome nested v).bind ?_
      rintro _ t ⟨passed, _⟩
      refine .of_finish named outcome (fun _ => rfl) passed ?_
      intro same
      have most := passed.errors
      omega
  unfold knownCommand
  split
  · simp only [ensures_record]
    exact rest _ (named.record _)
  · exact rest u named

/-- What is known of the stages of a pipeline that have been read. `room` is the space behind the
last command: none before a further command, and that of a pipe at the end. -/
structure StagesOutcome (room first : Nat) (s : Reading) (stages : Stages) (t : Reading) :
    Prop where
  follows : Follows s t
  faulty : (stages.incomplete || stages.commands.any fun command => command.incomplete) = true →
    s.errors.length < t.errors.length
  row : s.Ready → first ≤ s.nextStart → stages.commands = [] ∨
    Span.Row 1 first (stages.commands.map Command.span) (t.lastStop + room)
  tree : s.Ready → ∀ command ∈ stages.commands, command.Nested s.source

namespace StagesOutcome

variable {room first : Nat} {s u t : Reading} {stages : Stages}

/-- Reading on leaves the stages as they are. -/
theorem before {later : Nat} (read : StagesOutcome room first s stages u) (follows : Follows u t)
    (further : s.Ready → u.lastStop + room ≤ t.lastStop + later) :
    StagesOutcome later first s stages t := by
  refine ⟨read.follows.trans follows, ?_, ?_, read.tree⟩
  · intro fails
    exact Nat.lt_of_lt_of_le (read.faulty fails) follows.errors
  · intro ready starts
    rcases read.row ready starts with none | row
    · exact .inl none
    · exact .inr (row.widen (Nat.le_refl _) (further ready))

theorem finish (read : StagesOutcome 0 first s stages t) : StagesOutcome 1 first s stages t :=
  read.before (.refl t) fun _ => Nat.le_add_right _ _

/-- Stages that are marked as unfinished, which has been recorded. -/
theorem unfinish {commands : List Command} {incomplete : Bool}
    (read : StagesOutcome room first s ⟨commands, incomplete⟩ t) (error : SyntaxError) :
    StagesOutcome room first s ⟨commands, true⟩ (t.record error) := by
  refine ⟨read.follows.trans ⟨_, .record t error⟩, ?_, read.row, read.tree⟩
  intro _
  have grown := read.follows.errors
  rw [Reading.errors_record]
  omega

/-- One more command, or none where one is missing. -/
theorem add {x : Option Command} {nested : Bool} (read : StagesOutcome 0 first s stages u)
    (command : CommandOutcome nested u x t) : StagesOutcome 1 first s (stages.add x) t := by
  cases x with
  | none =>
      refine read.before command.follows ?_
      intro ready
      have forward := command.follows.stop_le (read.follows.ready ready)
      omega
  | some last =>
      have before := read.follows.errors
      have behind := command.follows.errors
      refine ⟨read.follows.trans command.follows, ?_, ?_, ?_⟩
      · intro fails
        simp only [Stages.add, List.any_append, List.any_cons, List.any_nil, Bool.or_false,
          Bool.or_eq_true] at fails
        rcases fails with incomplete | earlier | incomplete
        · exact Nat.lt_of_le_of_lt before (command.faulty incomplete)
        · exact Nat.lt_of_lt_of_le (read.faulty (by rw [earlier, Bool.or_true])) behind
        · exact Nat.lt_of_le_of_lt before (command.faulty incomplete)
      · intro ready starts
        have uReady := read.follows.ready ready
        have start := command.starts uReady last rfl
        have stop := command.stops uReady last rfl
        have ordered := (command.tree uReady last rfl).fits.ordered
        have later := read.follows.nextStart_le ready
        have single (lower : Nat) (below : lower ≤ u.nextStart) :
            Span.Row 1 lower [last.span] (t.lastStop + 1) :=
          .single (Nat.le_trans below (Nat.le_of_eq start.symm)) ordered (by omega)
        right
        simp only [Stages.add, List.map_append, List.map_cons, List.map_nil]
        rcases read.row ready starts with none | row
        · rw [none]
          exact single first (Nat.le_trans starts later)
        · exact row.append (single _ uReady.stop_le_nextStart)
      · intro ready other member
        rcases List.mem_append.mp member with earlier | here
        · exact read.tree ready other earlier
        · rw [List.mem_singleton.mp here, ← read.follows.source]
          exact command.tree (read.follows.ready ready) last rfl

end StagesOutcome

/-- The outcomes of all rules for pipelines under one bound. -/
structure PipelineOutcomes (bound : Nat) : Prop where
  pipeline : ∀ nested s, Ensures (pipeline bound nested) s fun branch t =>
    ∃ stages, branch = stages.finish s.nextStart ∧ StagesOutcome 1 s.nextStart s stages t
  stagesFrom : ∀ nested first stages s u, StagesOutcome 0 first s stages u →
    Ensures (stagesFrom bound nested stages) u (StagesOutcome 1 first s)
  command? : ∀ first nested s, s.rest ≠ [] →
    Ensures (command? bound first nested) s (CommandOutcome nested s)
  branches : ∀ s, Ensures (branches bound) s (ArgumentsOutcome s)
  branchFrom : ∀ s opening rest, s.rest = opening :: rest →
    Ensures (branchFrom bound opening) s.advance (ArgumentsOutcome s)

theorem unfinished_outcome {first : Nat} {s u : Reading} {stages : Stages} (what : Expectation)
    (read : StagesOutcome 0 first s stages u) :
    Ensures (unfinished stages what) u (StagesOutcome 1 first s) :=
  (read.unfinish _).finish

/-- A branch from its opening parenthesis to the last token read. -/
theorem branch_outcome {s t w : Reading} {opening : Token} {rest : List Token} {stages : Stages}
    {incomplete : Bool} (front : s.rest = opening :: rest)
    (read : StagesOutcome 1 s.advance.nextStart s.advance stages t) (follows : Follows t w)
    (faulty : incomplete = true → s.errors.length < w.errors.length) :
    ArgumentsOutcome s
      (.one (.branch ⟨stages.commands, ⟨opening.span.start, w.lastStop⟩, incomplete⟩) incomplete)
      w := by
  have whole := read.follows.trans follows
  refine ⟨.trans ⟨_, .advance front⟩ whole, by simpa [Parts.one] using faulty, ?_⟩
  intro ready
  obtain ⟨sound, starts⟩ := ready.head front
  have advanced := ((Leads.advance front).ready ready).1
  have finalReady := whole.ready advanced
  have source := whole.source.trans (Leads.advance front).source
  have forward := whole.stop_le advanced
  have forward' := follows.stop_le (read.follows.ready advanced)
  have nextStart := advanced.stop_le_nextStart
  have width := sound.nonempty
  rw [Reading.lastStop_advance front] at forward nextStart
  have ordered : opening.span.start ≤ w.lastStop := by omega
  have stop := finalReady.stop
  rw [source] at stop
  refine .single (.branch (.intro ⟨ordered, sound.fits.starts, stop⟩ ?_ ?_)) starts ordered
    (Nat.le_refl _)
  · rcases read.row advanced (Nat.le_refl _) with none | row
    · dsimp only
      rw [none]
      exact .nil (by omega)
    · dsimp only
      exact row.widen (by omega) (by omega)
  · rw [← (Leads.advance front).source]
    exact read.tree advanced

theorem closeBranch_outcome {s t : Reading} {opening : Token} {rest : List Token} {stages : Stages}
    (front : s.rest = opening :: rest)
    (read : StagesOutcome 1 s.advance.nextStart s.advance stages t) :
    Ensures (closeBranch opening.span.start (stages.finish s.advance.nextStart)) t fun branch w =>
      ArgumentsOutcome s (.one (.branch branch) branch.incomplete) w := by
  have before := read.follows.errors
  rw [Reading.errors_advance] at before
  have earlier :
      (stages.incomplete || stages.commands.any fun command => command.incomplete) = true →
      s.errors.length < t.errors.length := by
    have faulty := read.faulty
    rwa [Reading.errors_advance] at faulty
  unfold closeBranch
  refine ensures_accept ?_ ?_
  · intro token others after found
    simp only [ensures_get, Stages.finish, Bool.not_true, Bool.false_and, Bool.false_eq_true,
      if_false, ensures_pure, Bool.or_false]
    refine branch_outcome front read ⟨_, .advance after⟩ ?_
    intro incomplete
    rw [Reading.errors_advance]
    exact earlier (by rw [incomplete, Bool.true_or])
  · simp only [ensures_get, Stages.finish, Bool.not_false, Bool.true_and, Bool.or_true]
    split
    · simp only [ensures_expected, ensures_pure]
      refine branch_outcome (w := t.record _) front read ⟨_, .record t _⟩ ?_
      intro _
      rw [Reading.errors_record]
      omega
    · rename_i known
      simp only [ensures_pure]
      refine branch_outcome front read (.refl t) ?_
      intro _
      refine earlier ?_
      cases incomplete : stages.incomplete with
      | true => rfl
      | false => simpa [incomplete] using known

namespace PipelineOutcomes

variable {bound : Nat} (inner : PipelineOutcomes bound)

include inner

theorem pipeline_succ (nested : Bool) (s : Reading) :
    Ensures (Grammar.pipeline (bound + 1) nested) s fun branch t =>
      ∃ stages, branch = stages.finish s.nextStart ∧ StagesOutcome 1 s.nextStart s stages t := by
  unfold Grammar.pipeline
  simp only [ensures_get]
  have nothing : StagesOutcome 0 s.nextStart s ⟨[], false⟩ s :=
    ⟨.refl s, Bool.noConfusion, fun _ _ => .inl rfl, fun _ => List.forall_mem_nil _⟩
  refine (inner.stagesFrom nested s.nextStart _ s s nothing).bind ?_
  intro stages t read
  exact ⟨stages, rfl, read⟩

theorem stagesFrom_succ (nested : Bool) (first : Nat) (stages : Stages) (s u : Reading)
    (read : StagesOutcome 0 first s stages u) :
    Ensures (Grammar.stagesFrom (bound + 1) nested stages) u (StagesOutcome 1 first s) := by
  have pipe (v : Reading) (stages : Stages) (token : Token) (rest : List Token)
      (front : v.rest = token :: rest) (read : StagesOutcome 1 first s stages v) :
      StagesOutcome 0 first s stages v.advance := by
    refine read.before ⟨_, .advance front⟩ ?_
    intro ready
    have sound := (read.follows.ready ready).head front
    rw [Reading.lastStop_advance front]
    have width := sound.1.nonempty
    omega
  unfold Grammar.stagesFrom
  simp only [ensures_get]
  split
  · split
    · exact unfinished_outcome .command read
    · exact read.finish
  rename_i more
  refine ensures_accept? ?_ ?_
  · intro token rest front found
    simp only [ensures_record]
    refine inner.stagesFrom nested first stages s _ ?_
    exact (pipe u stages token rest front read.finish).before ⟨_, .record _ _⟩ fun _ =>
      Nat.le_refl _
  · have present : u.rest ≠ [] := by
      intro none
      simp [Reading.isAtEnd, none] at more
    refine (inner.command? _ nested u present).bind ?_
    intro x v command
    have added := read.add command
    refine ensures_accept ?_ added
    intro token rest front found
    have passed := pipe v _ token rest front added
    simp only [if_true, ensures_get]
    split
    · exact unfinished_outcome .commandAfterPipe passed
    · exact inner.stagesFrom nested first _ s _ passed

theorem command?_succ (first nested : Bool) (s : Reading) (present : s.rest ≠ []) :
    Ensures (Grammar.command? (bound + 1) first nested) s (CommandOutcome nested s) := by
  unfold Grammar.command?
  simp only [ensures_tokens]
  split
  · rename_i token rest front
    split
    · rename_i starts
      refine (commandName_outcome front starts).bind ?_
      intro name u named
      split
      · refine (unknownCommand_outcome nested named).bind ?_
        intro x t outcome
        exact outcome
      · rename_i verb known
        refine (knownCommand_outcome verb first nested named ?_).bind ?_
        · intro v
          refine arguments_outcome nested verb (fun _ => inner.branches v) ?_
          intro read t outcome
          exact .of_outcome outcome
        · intro x t outcome
          exact outcome
    · simp only [ensures_expected]
      refine (recover_outcome nested _).bind ?_
      rintro _ t ⟨passed, _⟩
      simp only [ensures_pure]
      have grown := passed.errors
      rw [Reading.errors_record] at grown
      refine ⟨.trans ⟨_, .record s _⟩ passed, fun _ => by omega, ?_, ?_, ?_, ?_, ?_⟩
      · rintro ready _ ⟨⟩
      · rintro ready _ ⟨⟩
      · rintro ready _ ⟨⟩
      · rintro ready _ ⟨⟩
      · intro same
        omega
  · rename_i none
    exact absurd none present

theorem branches_succ (s : Reading) :
    Ensures (Grammar.branches (bound + 1)) s (ArgumentsOutcome s) := by
  have missing : ReadsArguments (halt .branch) s := halt_outcome .branch s
  unfold Grammar.branches
  refine ensures_accept? ?_ (missing.mono fun _ _ outcome => .of_outcome outcome)
  intro opening rest front _
  unfold andThen
  refine (inner.branchFrom s opening rest front).bind ?_
  intro read u first
  split
  · rename_i complete
    have second : Ensures (do
        if (← get).isAt .openParen then Grammar.branches bound else pure .none) u
        (ArgumentsOutcome u) := by
      simp only [ensures_get]
      split
      · exact inner.branches u
      · exact ⟨.refl u, Bool.noConfusion, fun _ => .nil (Nat.le_refl _)⟩
    refine second.bind ?_
    intro others t later
    exact first.append later
  · exact first

theorem branchFrom_succ (s : Reading) (opening : Token) (rest : List Token)
    (front : s.rest = opening :: rest) :
    Ensures (Grammar.branchFrom (bound + 1) opening) s.advance (ArgumentsOutcome s) := by
  unfold Grammar.branchFrom
  refine (inner.pipeline true s.advance).bind ?_
  rintro _ t ⟨stages, rfl, read⟩
  refine (closeBranch_outcome front read).bind ?_
  intro branch w outcome
  exact outcome

end PipelineOutcomes

/-- Where the recursion is cut off nothing is read. -/
theorem PipelineOutcomes.zero : PipelineOutcomes 0 := by
  have missing (s : Reading) : Ensures (halt .branch) s (ArgumentsOutcome s) := by
    have halted : ReadsArguments (halt .branch) s := halt_outcome .branch s
    exact halted.mono fun _ _ outcome => .of_outcome outcome
  constructor
  · intro nested s
    unfold Grammar.pipeline
    simp only [ensures_get, ensures_expected, ensures_pure]
    refine ⟨⟨[], true⟩, rfl, ⟨_, .record s _⟩, fun _ => ?_, fun _ _ => .inl rfl,
      fun _ => List.forall_mem_nil _⟩
    simp
  · intro nested first stages s u read
    unfold Grammar.stagesFrom
    exact unfinished_outcome .command read
  · intro first nested s present
    unfold Grammar.command?
    simp only [ensures_expected, ensures_pure]
    refine ⟨⟨_, .record s _⟩, fun _ => by simp, ?_, ?_, ?_, ?_, ?_⟩
    · rintro ready _ ⟨⟩
    · rintro ready _ ⟨⟩
    · rintro ready _ ⟨⟩
    · rintro ready _ ⟨⟩
    · intro same
      simp at same
  · intro s
    unfold Grammar.branches
    exact missing s
  · intro s opening rest front
    unfold Grammar.branchFrom
    refine (missing s.advance).mono ?_
    intro read t outcome
    have advanced : ArgumentsOutcome s .none s.advance :=
      ⟨⟨_, .advance front⟩, Bool.noConfusion,
        fun ready => .nil ((Leads.advance front).ready ready).2⟩
    exact advanced.append outcome

theorem pipelineOutcomes (bound : Nat) : PipelineOutcomes bound := by
  induction bound with
  | zero => exact .zero
  | succ bound inner =>
      exact {
        pipeline := inner.pipeline_succ
        stagesFrom := inner.stagesFrom_succ
        command? := inner.command?_succ
        branches := inner.branches_succ
        branchFrom := inner.branchFrom_succ }

/-- The pipeline of the stages that were read extends from the first token to the last command. -/
theorem StagesOutcome.finish_nested {room : Nat} {s t : Reading} {stages : Stages}
    (read : StagesOutcome room s.nextStart s stages t) (ready : s.Ready) :
    (stages.finish s.nextStart).Nested s.source := by
  have start := ready.nextStart_boundary
  have tree := read.tree ready
  rcases List.eq_nil_or_concat stages.commands with none | ⟨earlier, last, same⟩
  · unfold Stages.finish
    rw [none]
    refine .intro ⟨Nat.le_max_right _ _, start, ?_⟩ (.nil ?_) (List.forall_mem_nil _)
    · simpa using start
    · exact Nat.le_succ_of_le (Nat.le_max_right _ _)
  · rcases read.row ready (Nat.le_refl _) with none | row
    · rw [same] at none
      simp at none
    have good : last.Nested s.source := tree last (by simp [same])
    rw [same, List.concat_eq_append, List.map_append, List.map_singleton] at row
    have bounds := row.bounds (List.mem_append_right _ (List.mem_singleton.mpr rfl))
    have span : (stages.finish s.nextStart).span = ⟨s.nextStart, last.span.stop⟩ := by
      have ordered : s.nextStart ≤ last.span.stop := Nat.le_trans bounds.1 bounds.2.1
      simp [Stages.finish, same, Nat.max_eq_left ordered]
    refine .intro ?_ ?_ tree
    · rw [span]
      exact ⟨Nat.le_trans bounds.1 bounds.2.1, start, good.fits.stops⟩
    · rw [span]
      change Span.Row 1 _ (stages.commands.map Command.span) _
      rw [same, List.concat_eq_append, List.map_append, List.map_singleton]
      exact row.tight

/-- Before anything is read all tokens of the text stand in order. -/
theorem ready_start (source : String) : (Reading.start source (Token.scan source)).Ready := by
  refine ⟨?_, Text.isBoundary_zero _⟩
  have placed := Token.scanFrom_placed source.toList false
  rwa [String.ofList_toList] at placed

end Esql.Grammar
