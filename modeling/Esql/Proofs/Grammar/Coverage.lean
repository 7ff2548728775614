import Esql.Proofs.Grammar.Prefix
import Mathlib.Logic.ExistsUnique

/-!
# Where the tokens of a query are

A query that is read without an error loses no token. Its tokens are dealt out to its commands from
left to right, with one pipe between any two commands; a command extends from the first token that
it holds to the last one. The pipes within the branches of a fork belong to the fork.
-/

namespace Esql

/-- A command extends from the first of some tokens to the last one. -/
def Command.Holds (command : Command) (tokens : List Token) : Prop :=
  ∃ first others, tokens = first :: others ∧
    command.span = ⟨first.span.start, Token.stopAfter first.span.stop others⟩

/-- Tokens in order are dealt out to commands in order, with one pipe between any two commands. -/
inductive Dealt : List Token → List Command → List Token → Prop where
  | none : Dealt [] [] []
  | last {front : List Token} {command : Command} (holds : command.Holds front) :
      Dealt front [command] []
  | more {front rest pipes : List Token} {command next : Command} {later : List Command}
      {pipe : Token} (holds : command.Holds front) (found : pipe.kind = .pipe)
      (others : Dealt rest (next :: later) pipes) :
      Dealt (front ++ pipe :: rest) (command :: next :: later) (pipe :: pipes)

/-- A token that lies in none of the commands. -/
def Token.isOutside (commands : List Command) (token : Token) : Bool :=
  commands.all fun command => !command.span.covers token.span

/-- The tokens that lie in none of the commands. -/
def Token.outside (commands : List Command) (tokens : List Token) : List Token :=
  tokens.filter (isOutside commands)

/-- Every token lies in one command, except for one pipe between any two commands. -/
structure Accounted (tokens : List Token) (commands : List Command) : Prop where
  /-- A token other than a pipe lies in exactly one command. -/
  held : ∀ token ∈ tokens, token.kind ≠ .pipe →
    ∃! i : Nat, ∃ command : Command, commands[i]? = some command ∧
      command.span.covers token.span = true
  /-- Only pipes lie outside of all commands. -/
  pipes : ∀ token ∈ Token.outside commands tokens, token.kind = .pipe
  /-- There is one of them less than there are commands. -/
  count : (Token.outside commands tokens).length = commands.length - 1
  /-- Each of them lies between the two neighbours that it divides. -/
  between : ∀ (i : Nat) (pipe : Token) (left right : Command),
    (Token.outside commands tokens)[i]? = some pipe →
    commands[i]? = some left → commands[i + 1]? = some right →
    left.span.stop ≤ pipe.span.start ∧ pipe.span.stop ≤ right.span.start

section

variable {tokens : List Token} {first last : Nat}

/-- A row of tokens goes as far as the last token does. -/
theorem Token.row_stopAfter (row : Span.Row 0 first (tokens.map Token.span) last) :
    Span.Row 0 first (tokens.map Token.span) (stopAfter first tokens) ∧
      stopAfter first tokens ≤ last := by
  induction tokens generalizing first with
  | nil => exact ⟨.nil (Nat.le_refl _), row.first_le_last⟩
  | cons token tokens ih =>
      cases row with
      | cons starts ordered tail =>
          obtain ⟨inner, stops⟩ := ih tail
          exact ⟨.cons starts ordered inner, stops⟩

/-- The tokens of a row lie between the start of the first and the end of the last. -/
theorem Token.covers_of_row {token : Token} {others : List Token}
    (row : Span.Row 0 first ((token :: others).map Token.span) last) :
    ∀ other ∈ token :: others,
      (Span.mk token.span.start (stopAfter token.span.stop others)).covers other.span = true := by
  intro other member
  cases row with
  | cons starts ordered tail =>
      have inner := (Token.row_stopAfter tail).1
      rw [Span.covers_iff]
      rcases List.mem_cons.mp member with rfl | later
      · exact ⟨Nat.le_refl _, inner.first_le_last⟩
      · have bounds := inner.bounds (List.mem_map_of_mem later)
        exact ⟨Nat.le_trans ordered bounds.1, bounds.2.2⟩

/-- A command covers the tokens that it holds. -/
theorem Command.Holds.covers {command : Command} (holds : command.Holds tokens)
    (row : Span.Row 0 first (tokens.map Token.span) last) :
    ∀ token ∈ tokens, command.span.covers token.span = true := by
  obtain ⟨token, others, rfl, span⟩ := holds
  rw [span]
  exact Token.covers_of_row row

/-- A command can take the place of its tokens in a row. -/
theorem Command.Holds.row {command : Command} (holds : command.Holds tokens) {others : List Span}
    (row : Span.Row 0 first (tokens.map Token.span ++ others) last) :
    Span.Row 0 first (command.span :: others) last := by
  obtain ⟨token, more, rfl, span⟩ := holds
  obtain ⟨middle, front, back⟩ := row.split
  cases front with
  | cons starts ordered tail =>
      obtain ⟨inner, stops⟩ := Token.row_stopAfter tail
      rw [span]
      exact .cons starts (Nat.le_trans ordered inner.first_le_last)
        (back.widen stops (Nat.le_refl _))

end

namespace Dealt

variable {tokens pipes : List Token} {commands : List Command} {first last : Nat}

theorem length (dealt : Dealt tokens commands pipes) : pipes.length = commands.length - 1 := by
  induction dealt with
  | none => rfl
  | last holds => rfl
  | more holds found others ih => simp only [List.length_cons, ih, Nat.add_sub_cancel]

theorem pipe (dealt : Dealt tokens commands pipes) : ∀ token ∈ pipes, token.kind = .pipe := by
  induction dealt with
  | none => exact List.forall_mem_nil _
  | last holds => exact List.forall_mem_nil _
  | more holds found others ih => exact List.forall_mem_cons.mpr ⟨found, ih⟩

/-- The commands and the pipes between them stand in a row, in turn. -/
theorem row (dealt : Dealt tokens commands pipes)
    (row : Span.Row 0 first (tokens.map Token.span) last) :
    Span.Row 0 first (commands.map Command.span) last := by
  induction dealt generalizing first with
  | none => exact row
  | last holds =>
      rw [← List.append_nil (List.map _ _)] at row
      exact holds.row row
  | more holds found others ih =>
      rw [List.map_append] at row
      cases holds.row row with
      | cons starts ordered tail =>
          cases tail with
          | cons behind wide rest =>
              have later := ih rest
              exact .cons starts ordered (later.widen (Nat.le_trans behind wide) (Nat.le_refl _))

/-- A pipe stands between the two commands that it divides. -/
theorem between (dealt : Dealt tokens commands pipes)
    (row : Span.Row 0 first (tokens.map Token.span) last) {i : Nat} {pipe : Token}
    {left right : Command} (divider : pipes[i]? = some pipe) (before : commands[i]? = some left)
    (behind : commands[i + 1]? = some right) :
    left.span.stop ≤ pipe.span.start ∧ pipe.span.stop ≤ right.span.start := by
  induction dealt generalizing first i with
  | none => cases before
  | last holds => cases divider
  | more holds found others ih =>
      rw [List.map_append] at row
      cases holds.row row with
      | cons starts ordered tail =>
          cases tail with
          | cons following wide rest =>
              cases i with
              | succ i => exact ih rest divider before behind
              | zero =>
                  cases divider
                  cases before
                  cases behind
                  have next := (others.row rest).bounds List.mem_cons_self
                  exact ⟨following, next.1⟩

/-- Every token is one of the pipes or lies in a command. -/
theorem held (dealt : Dealt tokens commands pipes)
    (row : Span.Row 0 first (tokens.map Token.span) last) {token : Token} (member : token ∈ tokens)
    (noPipe : token.kind ≠ .pipe) :
    ∃ command ∈ commands, command.span.covers token.span = true := by
  induction dealt generalizing first with
  | none => cases member
  | last holds => exact ⟨_, List.mem_cons_self, holds.covers row token member⟩
  | more holds found others ih =>
      rw [List.map_append] at row
      obtain ⟨middle, front, back⟩ := row.split
      rcases List.mem_append.mp member with inside | behind
      · exact ⟨_, List.mem_cons_self, holds.covers front token inside⟩
      rcases List.mem_cons.mp behind with rfl | later
      · exact absurd found noPipe
      · cases back with
        | cons starts ordered tail =>
            obtain ⟨command, among, covers⟩ := ih tail later
            exact ⟨command, List.mem_cons_of_mem _ among, covers⟩

/-- The tokens outside of all commands are the pipes between them. -/
theorem outside_eq (dealt : Dealt tokens commands pipes)
    (row : Span.Row 0 first (tokens.map Token.span) last)
    (wide : ∀ token ∈ tokens, token.span.start < token.span.stop) :
    Token.outside commands tokens = pipes := by
  unfold Token.outside
  induction dealt generalizing first with
  | none => rfl
  | last holds =>
      rw [List.filter_eq_nil_iff]
      intro token member
      rw [Token.isOutside, List.all_cons, holds.covers row token member]
      exact Bool.false_ne_true
  | @more front rest pipes command next later pipe holds found others ih =>
      rw [List.map_append] at row
      obtain ⟨middle, before, _⟩ := row.split
      obtain ⟨_, behindWide⟩ := List.forall_mem_append.mp wide
      obtain ⟨pipeWide, restWide⟩ := List.forall_mem_cons.mp behindWide
      cases holds.row row with
      | cons starts ordered tail =>
          cases tail with
          | cons following ordered' behind =>
              have inside : front.filter (Token.isOutside (command :: next :: later)) = [] := by
                rw [List.filter_eq_nil_iff]
                intro token member
                rw [Token.isOutside, List.all_cons, holds.covers before token member]
                exact Bool.false_ne_true
              have divider : Token.isOutside (command :: next :: later) pipe = true := by
                unfold Token.isOutside
                rw [List.all_cons, Span.not_covers_of_stop_le pipeWide following, Bool.not_false,
                  Bool.true_and, List.all_eq_true]
                intro other member
                have bounds := (others.row behind).bounds (List.mem_map_of_mem member)
                rw [Span.not_covers_of_le_start pipeWide bounds.1, Bool.not_false]
              have beyond : ∀ token ∈ rest, Token.isOutside (command :: next :: later) token =
                  Token.isOutside (next :: later) token := by
                intro token member
                have bounds := behind.bounds (List.mem_map_of_mem member)
                have apart : command.span.stop ≤ token.span.start := by omega
                unfold Token.isOutside
                rw [List.all_cons, Span.not_covers_of_stop_le (restWide token member) apart,
                  Bool.not_false, Bool.true_and]
              rw [List.filter_append, inside, List.nil_append, List.filter_cons_of_pos divider,
                List.filter_congr beyond, ih behind restWide]

/-- Tokens that are dealt out to commands are accounted for. -/
theorem accounted (dealt : Dealt tokens commands pipes)
    (row : Span.Row 0 first (tokens.map Token.span) last)
    (wide : ∀ token ∈ tokens, token.span.start < token.span.stop) :
    Accounted tokens commands := by
  have apart := List.pairwise_map.mp (dealt.row row).pairwise
  constructor
  case held =>
    intro token member noPipe
    obtain ⟨command, among, covers⟩ := dealt.held row member noPipe
    obtain ⟨i, found⟩ := List.mem_iff_getElem?.mp among
    refine ⟨i, ⟨command, found, covers⟩, ?_⟩
    rintro j ⟨other, found', covers'⟩
    have width := wide token member
    rw [Span.covers_iff] at covers covers'
    obtain ⟨low, rfl⟩ := List.getElem?_eq_some_iff.mp found
    obtain ⟨low', rfl⟩ := List.getElem?_eq_some_iff.mp found'
    rcases Nat.lt_trichotomy j i with before | same | behind
    · have gap := List.pairwise_iff_getElem.mp apart j i low' low before
      omega
    · exact same
    · have gap := List.pairwise_iff_getElem.mp apart i j low low' behind
      omega
  case pipes =>
    rw [dealt.outside_eq row wide]
    exact dealt.pipe
  case count => rw [dealt.outside_eq row wide, dealt.length]
  case between =>
    rw [dealt.outside_eq row wide]
    intro i pipe left right divider before behind
    exact dealt.between row divider before behind

end Dealt

namespace Grammar

/-- A command that is read without an error holds the tokens read for it. -/
theorem CleanStep.holds {bound : Nat} {s u : Reading} {first : Bool} {command : Command}
    {front : List Token} (step : CleanStep bound s first command front u) (ready : s.Ready) :
    command.Holds front := by
  obtain ⟨token, more, rfl, noPipe⟩ := step.starts
  have rest : s.rest = token :: (more ++ u.rest) := step.leads.rest
  have present : s.rest ≠ [] := by simp [rest]
  have outcome := (pipelineOutcomes bound).command? first false s present
  unfold Ensures at outcome
  rw [step.run] at outcome
  refine ⟨token, more, rfl, ?_⟩
  have starts := outcome.starts ready command rfl
  have stops := step.stop ready
  rw [Reading.nextStart_eq rest] at starts
  rw [Token.stopAfter_cons] at stops
  rw [stops, ← starts]

/-- Where reading goes on without an error, the tokens left are dealt out to the commands read. -/
theorem CleanRun.dealt {bound : Nat} {s : Reading} {stages read : Stages}
    (run : CleanRun bound s stages read) (ready : s.Ready) :
    ∃ commands pipes, read.commands = stages.commands ++ commands ∧
      Dealt s.rest commands pipes ∧ (s.rest ≠ [] → commands ≠ []) := by
  induction run with
  | done ended =>
      refine ⟨[], [], (List.append_nil _).symm, ?_, absurd ended⟩
      rw [ended]
      exact .none
  | @last bound s u stages command front step ended =>
      refine ⟨[command], [], rfl, ?_, fun _ => List.cons_ne_nil _ _⟩
      rw [step.leads.rest, ended, List.append_nil]
      exact .last (step.holds ready)
  | @more bound s u stages read command front rest pipe step behind found present next ih =>
      have advanced := ((Leads.advance behind).ready (step.leads.ready ready).1).1
      obtain ⟨commands, pipes, same, dealt, some⟩ := ih advanced
      rw [Reading.advance_rest behind] at dealt some
      obtain ⟨following, later, rfl⟩ := List.exists_cons_of_ne_nil (some present)
      refine ⟨command :: following :: later, pipe :: pipes, ?_, ?_, fun _ => List.cons_ne_nil _ _⟩
      · rw [same, Stages.add, List.append_assoc, List.singleton_append]
      · rw [step.leads.rest, behind]
        exact .more (step.holds ready) found dealt

end Grammar

/-- Where no syntax error is recorded, no token of a text is dropped. -/
theorem accounted_parse {text : String} (clean : (parse text).errors = []) :
    Accounted (Token.scan text) (parse text).pipeline.commands := by
  obtain ⟨tree, errors⟩ := parse_eq text
  have run := Grammar.stagesFrom_clean _ ⟨[], false⟩ _ (Grammar.covers_start text) (by
    rw [errors, clean]
    rfl)
  have ready := Grammar.ready_start text
  obtain ⟨commands, pipes, same, dealt, _⟩ := run.dealt ready
  rw [← tree, same]
  obtain ⟨row, sound⟩ := ready.placed
  exact dealt.accounted row fun token member => (sound token member).nonempty

theorem accounted_parse_fork :
    (parse "ROW a = 1 | FORK (LIMIT 1 | LIMIT 2) (LIMIT 3) | LIMIT 4").errors = [] ∧
      Accounted (Token.scan "ROW a = 1 | FORK (LIMIT 1 | LIMIT 2) (LIMIT 3) | LIMIT 4")
        (parse "ROW a = 1 | FORK (LIMIT 1 | LIMIT 2) (LIMIT 3) | LIMIT 4").pipeline.commands := by
  have clean : (parse "ROW a = 1 | FORK (LIMIT 1 | LIMIT 2) (LIMIT 3) | LIMIT 4").errors = [] := by
    decide +kernel
  exact ⟨clean, accounted_parse clean⟩

end Esql
