import Esql.Proofs.Located.Expression

/-!
# Where errors in commands are found

Rules for arguments and for whole pipelines keep errors in their places, too. Besides what they look
for at the next token, they complain of the name of a command, which covers one word or two, and of
the token behind a command that could have ended.
-/

namespace Esql.Grammar

/-! ## Arguments -/

section

variable {rule : Rule (Parts Expr)} (keeps : Keeps rule)

include keeps

theorem keeps_asArguments : Keeps (asArguments rule) := .bind keeps fun _ => .pure

theorem keeps_clauseFrom (name : String) (start : Nat) : Keeps (clauseFrom name start rule) :=
  .bind keeps fun _ => .bind (keeps_extent _ _) fun _ => .pure

theorem keeps_optionalClause (name : String) (keyword : Keyword) :
    Keeps (optionalClause name keyword rule) := by
  refine .bind (keeps_accept? _) fun word => ?_
  split
  · exact keeps_clauseFrom keeps _ _
  · exact .pure

end

theorem keeps_field? : Keeps field? := by
  unfold field?
  refine .bind keeps_tokens fun tokens => ?_
  split
  · refine .bind (keeps_requiredColumn false) fun target? => ?_
    split
    · exact .pure
    · exact .bind keeps_advance fun _ => .bind keeps_expression fun _ =>
        .bind (keeps_extent _ _) fun _ => .pure
  · exact keeps_expression

theorem keeps_filteredField? : Keeps filteredField? := by
  unfold filteredField?
  refine .bind keeps_field? fun field? => ?_
  split
  · exact .pure
  · split
    · exact .pure
    · refine .bind (keeps_accept _) fun more => ?_
      split
      · exact .bind keeps_expression fun _ => .bind (keeps_extent _ _) fun _ => .pure
      · exact .pure

theorem keeps_fields : Keeps fields := keeps_separated (keeps_operand keeps_field?)

theorem keeps_columnList (stars : Bool) : Keeps (columnList stars) :=
  keeps_separated (keeps_columnOperand stars)

theorem keeps_sourceArgument (kind : SourceKind) (what : Expectation) :
    Keeps (sourceArgument kind what) := by
  refine .bind (keeps_source? kind) fun source? => ?_
  split
  · exact .pure
  · exact keeps_halt what

theorem keeps_bracketedMetadata (start : Nat) : Keeps (bracketedMetadata start) := by
  refine .bind (keeps_skip 2) fun _ =>
    keeps_clauseFrom (keeps_andThen (keeps_columnList false) ?_) _ _
  refine .bind (keeps_accept _) fun closed => ?_
  split
  · exact .pure
  · exact keeps_halt _

theorem keeps_metadataClause : Keeps metadataClause := by
  have bare := keeps_optionalClause (keeps_columnList false) "metadata" .metadata
  refine .bind keeps_tokens fun tokens => ?_
  split
  · split
    · exact keeps_bracketedMetadata _
    · exact bare
  · exact bare

theorem keeps_showArguments : Keeps showArguments := by
  refine .bind keeps_tokens fun tokens => ?_
  split
  · split
    · exact .bind keeps_advance fun _ => .pure
    · exact keeps_halt _
  · exact keeps_halt _

theorem keeps_statsArguments (nested : Bool) : Keeps (statsArguments nested) := by
  refine .bind keeps_get fun reading =>
    keeps_andThen ?_ (keeps_optionalClause keeps_fields _ _)
  split
  · exact .pure
  · exact keeps_asArguments (keeps_separated (keeps_operand keeps_filteredField?))

theorem keeps_newName (old : Column) : Keeps (newName old) := by
  refine .bind (keeps_accept _) fun found => ?_
  split
  · exact keeps_andThen .pure (keeps_columnOperand false)
  · exact .bind (keeps_expected _) fun _ => .pure

theorem keeps_renamedColumn : Keeps renamedColumn := by
  refine .bind keeps_tokens fun tokens => ?_
  split
  · exact keeps_asArguments (keeps_operand keeps_field?)
  · refine .bind (keeps_requiredColumn true) fun old? => ?_
    split
    · exact .pure
    · split
      · exact .pure
      · exact keeps_clauseFrom (keeps_newName _) _ _

theorem keeps_direction? : Keeps direction? := by
  refine .bind (keeps_accept _) fun ascending => ?_
  split
  · exact .pure
  · refine .bind (keeps_accept _) fun descending => ?_
    split <;> exact .pure

theorem keeps_nullsOrder? : Keeps nullsOrder? := by
  refine .bind keeps_tokens fun tokens => ?_
  split
  · split
    · exact .bind keeps_advance fun _ => .pure
    · split
      · exact .bind keeps_advance fun _ => .pure
      · exact keeps_missing _
  · exact keeps_missing _

theorem keeps_sortKey : Keeps sortKey := by
  refine .bind keeps_expression fun expr? => ?_
  split
  · exact .pure
  · rename_i expr
    split
    · exact .bind (keeps_extent _ _) fun _ => .pure
    · refine .bind keeps_direction? fun direction => .bind (keeps_accept _) fun ordered => ?_
      have key (nulls? : Option NullsOrder) : Keeps (do
          let incomplete := ordered && nulls?.isNone
          pure (Parts.one (Argument.sortKey
            ⟨← extent expr.span.start incomplete, expr, direction, nulls?⟩) incomplete)) :=
        .bind (keeps_extent _ _) fun _ => .pure
      cases ordered with
      | false => exact key none
      | true => exact .bind keeps_nullsOrder? key

theorem keeps_numberLiteral (what : Expectation) (decimals : Bool) :
    Keeps (numberLiteral what decimals) := by
  have number (kind : LiteralKind) (value : String) :
      Keeps (do pure (Parts.one (← literal kind value false) false)) :=
    .bind (keeps_literal kind value false) fun _ => .pure
  refine .bind keeps_tokens fun tokens => ?_
  split
  · split
    · exact number _ _
    · split
      · exact number _ _
      · exact keeps_halt what
    · exact number _ _
    · exact keeps_halt what
  · exact keeps_halt what

theorem keeps_patternOperand : Keeps patternOperand := by
  refine .bind keeps_tokens fun tokens => ?_
  split
  · split
    · exact keeps_operand keeps_expression
    · exact keeps_halt _
  · exact keeps_halt _

theorem keeps_grokArguments : Keeps grokArguments :=
  keeps_asArguments (keeps_andThen (keeps_operand keeps_expression) keeps_patternOperand)

theorem keeps_settingsFrom (bound : Nat) : Keeps (settingsFrom bound) := by
  induction bound with
  | zero => exact keeps_halt _
  | succ bound ih =>
      refine .bind keeps_tokens fun tokens => ?_
      split
      · split
        · exact keeps_andThen (.bind (keeps_skip 2) fun _ => .bind keeps_expression fun _ =>
            .bind (keeps_extent _ _) fun _ => .pure) ih
        · exact .pure
      · exact .pure

theorem keeps_enrichField : Keeps enrichField := by
  refine .bind keeps_tokens fun tokens => ?_
  split
  · exact keeps_operand keeps_field?
  · exact keeps_columnOperand false

theorem keeps_joinArguments : Keeps joinArguments := by
  refine keeps_andThen (keeps_sourceArgument _ _) (.bind (keeps_accept? _) fun word => ?_)
  split
  · exact keeps_clauseFrom (keeps_separated (keeps_operand keeps_expression)) _ _
  · exact keeps_halt _

theorem keeps_outputNames : Keeps outputNames := by
  refine keeps_andThen (keeps_columnOperand false) (.bind (keeps_accept _) fun comma => ?_)
  split
  · exact keeps_columnOperand false
  · exact keeps_halt _

theorem keeps_arguments {branches : Rule (Parts Argument)} (keeps : Keeps branches) (nested : Bool)
    (verb : Verb) : Keeps (arguments branches nested verb) := by
  have «from» : Keeps fromArguments :=
    keeps_andThen (keeps_separated (keeps_sourceArgument _ _)) keeps_metadataClause
  have column := keeps_columnOperand false
  have named : Keeps (asArguments fields) := keeps_asArguments keeps_fields
  have listed : Keeps (asArguments (columnList true)) := keeps_asArguments (keeps_columnList true)
  cases verb with
  | «from» => exact «from»
  | ts => exact «from»
  | row => exact named
  | eval => exact named
  | «show» => exact keeps_showArguments
  | «where» => exact keeps_asArguments (keeps_operand keeps_expression)
  | stats => exact keeps_statsArguments nested
  | inlinestats => exact keeps_statsArguments nested
  | keep => exact listed
  | drop => exact listed
  | rename => exact keeps_separated keeps_renamedColumn
  | mvExpand => exact keeps_asArguments column
  | sort => exact keeps_separated keeps_sortKey
  | limit => exact keeps_asArguments (keeps_numberLiteral _ _)
  | sample => exact keeps_asArguments (keeps_numberLiteral _ _)
  | dissect =>
      exact keeps_andThen keeps_grokArguments (.bind keeps_tokens fun _ => keeps_settingsFrom _)
  | grok => exact keeps_grokArguments
  | enrich =>
      exact keeps_andThen (keeps_sourceArgument _ _)
        (keeps_andThen (keeps_optionalClause column _ _)
          (keeps_optionalClause (keeps_separated keeps_enrichField) _ _))
  | join => exact keeps_joinArguments
  | fork => exact keeps
  | changePoint =>
      exact keeps_andThen (keeps_asArguments column)
        (keeps_andThen (keeps_optionalClause column _ _)
          (keeps_optionalClause keeps_outputNames _ _))

/-! ## Pipelines -/

theorem keeps_checkBoundary (display : String) (nested : Bool) :
    Keeps (checkBoundary display nested) := by
  intro s sound
  unfold checkBoundary
  simp only [ensures_get]
  split
  · split
    · rename_i token rest front
      exact sound.record (sound.ready.head front).1.fits
    · exact sound
  · exact sound

theorem keeps_finishCommand (name : CommandName) (stop : Nat) (read : Parts Argument) :
    Keeps (finishCommand name stop read) :=
  .bind keeps_get fun _ => .pure

theorem keeps_commandBody (name : CommandName) {args : Rule (Parts Argument)} (keeps : Keeps args)
    (nested : Bool) : Keeps (commandBody name args nested) := by
  refine .bind keeps fun read => .bind keeps_get fun reading => ?_
  have finish := Keeps.bind (keeps_recover nested) fun _ =>
    keeps_finishCommand name reading.lastStop read
  cases read.complete with
  | false => exact finish
  | true => exact .bind (keeps_checkBoundary name.display nested) fun _ => finish

/-- A command is complained of at its name. -/
theorem keepsAt_namedCommand {bound : Nat} (keeps : Keeps (branches bound)) (first nested : Bool)
    {name : CommandName} {s : Reading} (fits : name.span.Fits s.source) :
    KeepsAt (namedCommand bound first nested name) s := by
  intro sound
  unfold namedCommand
  split
  · have behind : Keeps (recover nested >>= fun _ =>
        finishCommand name name.span.stop .halted) :=
      .bind (keeps_recover nested) fun _ => keeps_finishCommand _ _ _
    exact behind _ (sound.record fits)
  · rename_i verb _
    have body := keeps_commandBody name (keeps_arguments keeps nested verb) nested
    dsimp only
    rw [knownCommand_eq]
    split
    · exact body _ (sound.record fits)
    · exact body s sound

theorem NameOutcome.fits {s t : Reading} {name : CommandName} (named : NameOutcome s name t)
    (ready : s.Ready) : name.span.Fits t.source := by
  have follows := named.passage.follows
  refine ⟨Nat.le_of_lt (named.nonempty ready), ?_, ?_⟩
  · rw [named.starts ready, follows.source]
    exact ready.nextStart_boundary
  · rw [named.stops ready]
    exact (follows.ready ready).stop

theorem keeps_commandName (first : Token) : Keeps (commandName first) := by
  refine .bind keeps_advance fun _ => .bind keeps_tokens fun tokens => ?_
  split
  · split
    · exact .bind keeps_advance fun _ => .pure
    · exact .pure
  · exact .pure

theorem keeps_closeBranch (start : Nat) (branch : Pipeline) : Keeps (closeBranch start branch) := by
  refine .bind (keeps_accept _) fun closed => .bind keeps_get fun reading => ?_
  dsimp only
  split
  · exact .bind (keeps_expected _) fun _ => .pure
  · exact .pure

theorem keeps_unfinished (stages : Stages) (what : Expectation) : Keeps (unfinished stages what) :=
  .bind (keeps_expected what) fun _ => .pure

/-- The rules for pipelines keep errors in their places under one bound. -/
structure KeepsPipelines (bound : Nat) : Prop where
  pipeline : ∀ nested, Keeps (pipeline bound nested)
  stagesFrom : ∀ nested stages, Keeps (stagesFrom bound nested stages)
  command? : ∀ first nested, Keeps (command? bound first nested)
  branches : Keeps (branches bound)
  branchFrom : ∀ opening, Keeps (branchFrom bound opening)

namespace KeepsPipelines

variable {bound : Nat} (inner : KeepsPipelines bound)

include inner

theorem stagesFrom_succ (nested : Bool) (stages : Stages) :
    Keeps (Grammar.stagesFrom (bound + 1) nested stages) := by
  have behind (stages : Stages) : Keeps (do
      if ← accept .pipe then
        if (← get).isAtEnd nested then unfinished stages .commandAfterPipe
        else Grammar.stagesFrom bound nested stages
      else pure stages) := by
    refine .bind (keeps_accept _) fun more => ?_
    split
    · refine .bind keeps_get fun reading => ?_
      split
      · exact keeps_unfinished _ _
      · exact inner.stagesFrom nested stages
    · exact .pure
  intro s sound
  unfold Grammar.stagesFrom
  simp only [ensures_get]
  split
  · split
    · exact keeps_unfinished _ _ s sound
    · exact sound
  · refine ensures_accept? ?_ ?_
    · intro token rest front _
      simp only [ensures_record]
      have source : s.advance.source = s.source := (Leads.advance front).source
      refine inner.stagesFrom nested stages _ (sound.advance.record ?_)
      exact source ▸ (sound.ready.head front).1.fits
    · exact Keeps.bind (inner.command? _ nested) (fun x => behind (stages.add x)) s sound

theorem command?_succ (first nested : Bool) :
    Keeps (Grammar.command? (bound + 1) first nested) := by
  intro s sound
  cases front : s.rest with
  | nil =>
      rw [Ensures, run_command?_nil first nested front]
      exact sound
  | cons token rest =>
      rw [Ensures, run_command? bound first nested front]
      change Ensures (commandAt bound first nested token) s fun _ t => t.Sound
      unfold commandAt
      split
      · rename_i starts
        refine ((commandName_outcome front starts).and (keeps_commandName token s sound)).bind ?_
        rintro name u ⟨named, later⟩
        exact keepsAt_namedCommand inner.branches first nested (named.fits sound.ready) later
      · exact Keeps.bind (keeps_expected _) (fun _ => .bind (keeps_recover _) fun _ => .pure) s sound

theorem branches_succ : Keeps (Grammar.branches (bound + 1)) := by
  unfold Grammar.branches
  refine .bind (keeps_accept? _) fun opening? => ?_
  split
  · exact keeps_halt _
  · refine keeps_andThen (inner.branchFrom _) (.bind keeps_get fun reading => ?_)
    split
    · exact inner.branches
    · exact .pure

end KeepsPipelines

theorem keepsPipelines (bound : Nat) : KeepsPipelines bound := by
  induction bound with
  | zero =>
      exact {
        pipeline := fun _ => .bind keeps_get fun _ => .bind (keeps_expected _) fun _ => .pure
        stagesFrom := fun _ stages => keeps_unfinished stages _
        command? := fun _ _ => keeps_missing _
        branches := keeps_halt _
        branchFrom := fun _ => keeps_halt _ }
  | succ bound inner =>
      exact {
        pipeline := fun nested => .bind keeps_get fun _ =>
          .bind (inner.stagesFrom nested _) fun _ => .pure
        stagesFrom := inner.stagesFrom_succ
        command? := inner.command?_succ
        branches := inner.branches_succ
        branchFrom := fun _ => .bind (inner.pipeline true) fun _ =>
          .bind (keeps_closeBranch _ _) fun _ => .pure }

/-- The errors of a text stand in the text. -/
theorem fits_errors_parse (text : String) :
    ∀ error ∈ (parse text).errors, error.span.Fits text := by
  have start : (Reading.start text (Token.scan text)).Sound :=
    ⟨ready_start text, List.forall_mem_nil _⟩
  have outcome :=
    (pipelineOutcomes (pipelineBound (Token.scan text).length)).pipeline false
      (Reading.start text (Token.scan text))
  obtain ⟨stages, _, read⟩ := outcome
  have sound := (keepsPipelines (pipelineBound (Token.scan text).length)).pipeline false _ start
  have source := read.follows.source
  intro error member
  have fits := sound.errors error member
  rwa [source] at fits

end Esql.Grammar
