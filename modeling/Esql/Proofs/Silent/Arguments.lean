import Esql.Check.Pipeline
import Esql.Proofs.Candid.Arguments
import Esql.Proofs.Silent.Expression

/-!
# Arguments tell what they record

Arguments that are all there were read without an error, but for intervals in parentheses that are
not closed. A fork records nothing itself: it opens branches, and the errors in them are theirs.
-/

namespace Esql.Grammar

/-- An assignment is marked if its target or its value is. -/
theorem tells_field? : Tells field? isUnfinished := by
  refine .tokens fun tokens => ?_
  split
  · refine (tells_requiredColumn false).bind_part ?_ (.pure rfl) ?_
    · intro target _
      refine .after .advance fun _ =>
        tells_expression.bind (fun value _ => .extent fun _ _ => .pure _) ?_
      intro value broken
      refine (yields_extent _ _).bind fun extent told => .pure ?_
      exact told.trans (by rw [broken, Bool.or_true])
    · intro target marked
      refine .after fun _ => .after fun value => (yields_extent _ _).bind fun extent told =>
        .pure ?_
      exact told.trans (by rw [marked, Bool.true_or])
  · exact tells_expression

theorem tells_filteredField? : Tells filteredField? isUnfinished := by
  refine tells_field?.bind_part ?_ (.pure rfl) ?_
  · intro field complete
    dsimp only
    rw [complete]
    refine Tells.after (.accept _) fun filtered => ?_
    split
    · refine tells_expression.bind (fun condition _ => .extent fun _ _ => .pure _) ?_
      intro condition broken
      exact (yields_extent _ _).bind fun extent told => .pure (told.trans broken)
    · exact .pure _
  · intro field marked
    dsimp only
    rw [marked]
    exact Yields.pure marked

theorem tells_fields : TellsParts fields := tells_separated (tells_operand tells_field?)

theorem tells_columnList (stars : Bool) : TellsParts (columnList stars) :=
  tells_separated (tells_columnOperand stars)

section

variable {rule : Rule (Parts Expr)} (told : TellsParts rule)

include told

theorem tells_asArguments : TellsParts (asArguments rule) :=
  told.bind (fun _ _ => .pure _) fun _ broken => .pure broken

theorem tells_clauseFrom (name : String) (start : Nat) : TellsParts (clauseFrom name start rule) :=
  told.bind (fun _ _ => .extent fun _ _ => .pure _) fun _ broken => .after fun _ => .pure broken

theorem tells_optionalClause (name : String) (keyword : Keyword) :
    TellsParts (optionalClause name keyword rule) := by
  refine .after (.accept? _) fun word? => ?_
  split
  · exact tells_clauseFrom told _ _
  · exact .pure Parts.none

end

theorem tells_sourceArgument (kind : SourceKind) (what : Expectation) :
    TellsParts (sourceArgument kind what) := by
  refine (tells_source? kind).bind ?_ ?_
  · intro source? _
    cases source? with
    | some source => exact .pure _
    | none => exact tells_halt what
  · intro source? broken
    cases source? with
    | some source =>
        have marked : source.incomplete = true := broken
        exact .pure (by simp [Parts.one, marked])
    | none => cases broken

theorem tells_bracketedMetadata (start : Nat) : TellsParts (bracketedMetadata start) := by
  refine .after (.skip 2) fun _ => tells_clauseFrom (tells_andThen (tells_columnList false) ?_) _ _
  refine .after (.accept _) fun closed => ?_
  split
  · exact .pure Parts.none
  · exact tells_halt .closeBracket

theorem tells_metadataClause : TellsParts metadataClause := by
  have bare := tells_optionalClause (tells_columnList false) "metadata" .metadata
  refine .tokens fun tokens => ?_
  split
  · split
    · exact tells_bracketedMetadata _
    · exact bare
  · exact bare

theorem tells_showArguments : TellsParts showArguments := by
  refine .tokens fun tokens => ?_
  split
  · split
    · exact .after .advance fun _ => .pure _
    · exact tells_halt .info
  · exact tells_halt .info

theorem tells_statsArguments (nested : Bool) : TellsParts (statsArguments nested) := by
  refine .get fun reading => tells_andThen ?_ (tells_optionalClause tells_fields _ _)
  split
  · exact .pure Parts.none
  · exact tells_asArguments (tells_separated (tells_operand tells_filteredField?))

theorem tells_newName (old : Column) : TellsParts (newName old) := by
  refine .after (.accept _) fun found => ?_
  split
  · exact tells_andThen (.pure _) (tells_columnOperand false)
  · exact .of_failed (.after fun _ => .pure rfl)

theorem tells_renamedColumn : TellsParts renamedColumn := by
  refine .tokens fun tokens => ?_
  split
  · exact tells_asArguments (tells_operand tells_field?)
  · refine (tells_requiredColumn true).bind_part ?_ (.pure rfl) ?_
    · intro old complete
      dsimp only
      rw [complete]
      exact tells_clauseFrom (tells_newName old) _ _
    · intro old marked
      dsimp only
      rw [marked]
      exact Yields.pure rfl

theorem tells_direction? : Tells direction? fun _ => false := by
  refine .after (.accept _) fun ascending => ?_
  split
  · exact .pure _
  · refine .after (.accept _) fun descending => ?_
    split
    · exact .pure _
    · exact .pure _

/-- The place of nulls has to be named. -/
theorem tells_nullsOrder? : Tells nullsOrder? Option.isNone := by
  have missing : Tells (do expected .firstOrLast; pure none)
      (Option.isNone : Option NullsOrder → Bool) := .of_failed (.after fun _ => .pure rfl)
  refine .tokens fun tokens => ?_
  split
  · split
    · exact .after .advance fun _ => .pure _
    split
    · exact .after .advance fun _ => .pure _
    · exact missing
  · exact missing

theorem tells_sortKey : TellsParts sortKey := by
  refine tells_expression.bind_part ?_ (.pure rfl) ?_
  · intro expr complete
    dsimp only
    rw [complete]
    refine Tells.after tells_direction? fun direction => .after (.accept _) fun ordered => ?_
    cases ordered with
    | false => exact fun s => .of_silent (.refl s)
    | true =>
        refine tells_nullsOrder?.bind (fun nulls _ => .extent fun _ _ => .pure _) ?_
        intro nulls broken
        exact .after fun _ => .pure (by simp [Parts.one, broken])
  · intro expr marked
    dsimp only
    rw [marked]
    exact Yields.after fun _ => .pure rfl

theorem tells_numberLiteral (what : Expectation) (decimals : Bool) :
    TellsParts (numberLiteral what decimals) := by
  have number (kind : LiteralKind) (value : String) : TellsParts (do
      pure (.one (← literal kind value false) false)) := fun s => .of_silent (.advance s)
  refine .tokens fun tokens => ?_
  split
  · split
    · exact number _ _
    · split
      · exact number _ _
      · exact tells_halt what
    · exact number _ _
    · exact tells_halt what
  · exact tells_halt what

theorem tells_patternOperand : TellsParts patternOperand := by
  refine .tokens fun tokens => ?_
  split
  · split
    · exact tells_operand tells_expression
    · exact tells_halt .pattern
  · exact tells_halt .pattern

theorem tells_grokArguments : TellsParts grokArguments :=
  tells_asArguments (tells_andThen (tells_operand tells_expression) tells_patternOperand)

theorem tells_settingsFrom (bound : Nat) : TellsParts (settingsFrom bound) := by
  induction bound with
  | zero => exact tells_halt .expression
  | succ bound ih =>
      refine .tokens fun tokens => ?_
      split
      · split
        · refine tells_andThen (.after (.skip 2) fun _ => ?_) ih
          refine tells_expression.bind (fun value _ => .extent fun _ _ => .pure _) ?_
          intro value broken
          exact .after fun _ => .pure (by simp [Parts.one, broken])
        · exact .pure Parts.none
      · exact .pure Parts.none

theorem tells_enrichField : TellsParts enrichField := by
  refine .tokens fun tokens => ?_
  split
  · exact tells_operand tells_field?
  · exact tells_columnOperand false

theorem tells_joinArguments : TellsParts joinArguments := by
  refine tells_andThen (tells_sourceArgument _ _) (.after (.accept? _) fun word? => ?_)
  split
  · exact tells_clauseFrom (tells_separated (tells_operand tells_expression)) _ _
  · exact tells_halt .onWord

theorem tells_outputNames : TellsParts outputNames := by
  refine tells_andThen (tells_columnOperand false) (.after (.accept _) fun comma => ?_)
  split
  · exact tells_columnOperand false
  · exact tells_halt .comma

/-- All verbs but the fork. -/
theorem tells_arguments (branches : Rule (Parts Argument)) (nested : Bool) {verb : Verb}
    (other : verb ≠ .fork) : TellsParts (arguments branches nested verb) := by
  have «from» : TellsParts fromArguments :=
    tells_andThen (tells_separated (tells_sourceArgument _ _)) tells_metadataClause
  have column := tells_columnOperand false
  have named : TellsParts (asArguments fields) := tells_asArguments tells_fields
  have listed : TellsParts (asArguments (columnList true)) :=
    tells_asArguments (tells_columnList true)
  cases verb with
  | «from» => exact «from»
  | ts => exact «from»
  | row => exact named
  | eval => exact named
  | «show» => exact tells_showArguments
  | «where» => exact tells_asArguments (tells_operand tells_expression)
  | stats => exact tells_statsArguments nested
  | inlinestats => exact tells_statsArguments nested
  | keep => exact listed
  | drop => exact listed
  | rename => exact tells_separated tells_renamedColumn
  | mvExpand => exact tells_asArguments column
  | sort => exact tells_separated tells_sortKey
  | limit => exact tells_asArguments (tells_numberLiteral _ _)
  | sample => exact tells_asArguments (tells_numberLiteral _ _)
  | dissect => exact tells_andThen tells_grokArguments (.tokens fun _ => tells_settingsFrom _)
  | grok => exact tells_grokArguments
  | enrich =>
      exact tells_andThen (tells_sourceArgument _ _)
        (tells_andThen (tells_optionalClause column _ _)
          (tells_optionalClause (tells_separated tells_enrichField) _ _))
  | join => exact tells_joinArguments
  | fork => contradiction
  | changePoint =>
      exact tells_andThen (tells_asArguments column)
        (tells_andThen (tells_optionalClause column _ _)
          (tells_optionalClause tells_outputNames _ _))

/-! ## Forks -/

/-- Between two states branches are opened and read, and nothing else happens. All of them are
complete, and they are the arguments. -/
inductive OnlyBranches : Reading → List Argument → Reading → Prop
  | nil (s : Reading) : OnlyBranches s [] s
  | cons {s u t : Reading} {opening : Token} {rest : List Token} {bound : Nat} {branch : Pipeline}
      {others : List Argument} (front : s.rest = opening :: rest)
      (opens : opening.kind = .openParen) (complete : branch.incomplete = false)
      (read : (branchFrom bound opening).run s.advance = (.one (.branch branch) false, u))
      (later : OnlyBranches u others t) : OnlyBranches s (.branch branch :: others) t

/-- A branch that is complete is all that is read of it. -/
theorem yields_branchFrom_complete (bound : Nat) (opening : Token) :
    Yields (branchFrom bound opening) fun read => read.complete = true →
      ∃ branch : Pipeline, branch.incomplete = false ∧ read = .one (.branch branch) false := by
  cases bound with
  | zero => exact .after fun _ => .pure nofun
  | succ bound =>
      refine .after fun _ => .after fun branch => .pure fun complete => ?_
      have whole : branch.incomplete = false := by simpa [Parts.one] using complete
      exact ⟨branch, whole, by rw [whole]⟩

theorem branches_only (bound : Nat) (s : Reading) :
    Ensures (branches bound) s fun read t => read.complete = true →
      OnlyBranches s read.items t := by
  have halted (s : Reading) : Ensures (halt .branch : Rule (Parts Argument)) s fun read t =>
      read.complete = true → OnlyBranches s read.items t :=
    fun complete => absurd complete Bool.false_ne_true
  induction bound generalizing s with
  | zero => exact halted s
  | succ bound ih =>
      unfold branches
      refine ensures_accept? ?_ (halted s)
      intro opening rest front opens
      have run : Ensures (branchFrom bound opening) s.advance fun read u =>
          (branchFrom bound opening).run s.advance = (read, u) := rfl
      refine (run.and ((yields_branchFrom_complete bound opening).ensures s.advance)).bind ?_
      rintro read u ⟨run, closed⟩
      split
      · rename_i complete
        obtain ⟨branch, whole, rfl⟩ := closed complete
        have rest : Ensures (do if (← get).isAt .openParen then branches bound else pure .none) u
            fun others t => others.complete = true → OnlyBranches u others.items t := by
          rw [ensures_get]
          split
          · exact ih u
          · exact fun _ => .nil u
        refine rest.bind ?_
        intro others t later complete
        exact .cons front opens whole run (later complete)
      · rename_i incomplete
        exact fun complete => absurd complete incomplete

/-! ## Commands -/

/-- An incomplete command is passed over, and the columns behind it are unknown. -/
theorem checkAll_of_incomplete (snapshot : Snapshot) (license? : Option License)
    (input : ColumnSet) {command : Command} (incomplete : command.incomplete = true)
    (later : List Command) :
    Command.checkAll snapshot license? input (command :: later) =
      Command.checkAll snapshot license? .unknown later := by
  rw [Command.checkAll, Command.after, incomplete]
  cases Verb.ofName? command.name <;> rfl

/-- What is known of the arguments of a verb that are read from one state to another. -/
structure ArgumentsTold (verb : Verb) (s : Reading) (read : Parts Argument) (t : Reading) :
    Prop where
  failed : read.complete = false → s.errors.length < t.errors.length
  silent : read.complete = true → verb ≠ .fork → Silent s t
  branches : read.complete = true → verb = .fork → OnlyBranches s read.items t

theorem arguments_told {s : Reading} (ready : s.Ready) (bound : Nat) (nested : Bool)
    (verb : Verb) :
    Ensures (arguments (branches bound) nested verb) s (ArgumentsTold verb s) := by
  have failed : Ensures (arguments (branches bound) nested verb) s fun read t =>
      read.complete = false → s.errors.length < t.errors.length := by
    refine arguments_outcome nested verb (fun _ => ?_) fun read t outcome halted => ?_
    · refine ((pipelineOutcomes bound).branches s).mono fun read t outcome halted => ?_
      exact outcome.faulty (by rw [halted]; rfl)
    · exact outcome.faulty (by rw [halted]; rfl)
  by_cases fork : verb = .fork
  · subst fork
    refine (failed.and (branches_only bound s)).mono ?_
    rintro read t ⟨faulty, only⟩
    exact ⟨faulty, fun _ other => absurd rfl other, fun complete _ => only complete⟩
  · refine (failed.and (tells_arguments (branches bound) nested fork s)).mono ?_
    rintro read t ⟨faulty, told⟩
    exact ⟨faulty, fun complete _ => told ready (by simp [complete]),
      fun _ same => absurd same fork⟩

/-- Wherever the arguments of a verb are read, they are told not to be all there only if an error
was recorded, and to be all there only if none was, but for intervals in parentheses that are not
closed and for what the branches of a fork recorded. A command is marked as its arguments tell, and
nothing is looked for in a command that is marked. -/
theorem arguments_tell {text : String} {s : Reading}
    (reached : Follows (.start text (Token.scan text)) s) (bound : Nat) (nested : Bool)
    (verb : Verb) :
    Ensures (arguments (branches bound) nested verb) s (ArgumentsTold verb s) ∧
      ∀ name first,
        Ensures (knownCommand name verb (arguments (branches bound) nested verb) first nested) s
          fun command _ => ∃ u, (u = s ∨ ∃ fault, u = s.record ⟨fault, name.span⟩) ∧
            Ensures (arguments (branches bound) nested verb) u fun read t =>
              ArgumentsTold verb u read t ∧ command.args = read.items ∧
                command.incomplete = (!read.complete) ∧
                (command.incomplete = true → ∀ snapshot license? input later,
                  Command.checkAll snapshot license? input (command :: later) =
                    Command.checkAll snapshot license? .unknown later) := by
  have ready := reached.ready (ready_start text)
  refine ⟨arguments_told ready bound nested verb, ?_⟩
  intro name first
  refine (knownCommand_made name verb _ first nested s).mono ?_
  rintro command _ ⟨u, start, made⟩
  have follows : Follows s u := by
    rcases start with rfl | ⟨fault, rfl⟩
    · exact .refl _
    · exact ⟨_, .record s _⟩
  refine ⟨u, start, arguments_told (follows.ready ready) bound nested verb, made.args,
    made.incomplete, ?_⟩
  intro marked snapshot license? input later
  exact checkAll_of_incomplete snapshot license? input marked later

theorem arguments_tell_operand :
    ∃ s, Follows (.start "FROM a | WHERE b >" (Token.scan "FROM a | WHERE b >")) s ∧
      Ensures (arguments (branches 0) false .where) s fun read t =>
        read.complete = false ∧ s.errors.length < t.errors.length := by
  have reached := follows_skip (.start "FROM a | WHERE b >" (Token.scan "FROM a | WHERE b >")) 4
  have told := (arguments_tell reached 0 false .where).1
  refine ⟨_, reached, ?_, told.failed ?_⟩
  · decide +kernel
  · decide +kernel

/-- The parenthesis of an interval is missing, which is recorded, and the condition is told to be
complete. -/
theorem not_silent_of_complete :
    ¬ ∀ (text : String) (s : Reading), Follows (.start text (Token.scan text)) s →
      ∀ (bound : Nat) (nested : Bool) (verb : Verb), verb ≠ .fork →
        Ensures (arguments (branches bound) nested verb) s fun read t =>
          read.complete = true → t.errors = s.errors := by
  intro claimed
  have reached :=
    follows_skip (.start "FROM a | WHERE (1 day" (Token.scan "FROM a | WHERE (1 day")) 4
  have same := congrArg List.length (claimed _ _ reached 0 false .where nofun (by decide +kernel))
  exact absurd same (by decide +kernel)

end Esql.Grammar
