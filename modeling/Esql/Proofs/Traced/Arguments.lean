import Esql.Proofs.Traced.Expression

/-!
# Tracing the leaves of commands

What a command takes after its name is made of expressions and of columns. A branch is not looked
into: its commands were read as commands.
-/

namespace Esql

namespace Grammar

variable {text : String}

/-! ## Columns and fields -/

theorem finds_requiredColumn (stars : Bool) :
    Finds text (requiredColumn stars) fun x => ∀ column ∈ x, column.Traced text := by
  refine (finds_column? stars).bind fun column? traced => ?_
  cases column? with
  | none => exact .after (.expected .columnName) fun _ => .pure nofun
  | some column => exact .pure traced

theorem finds_columnOperand (stars : Bool) :
    Finds text (columnOperand stars) (TracedExprs text) := by
  refine (finds_requiredColumn stars).bind fun column? traced => ?_
  cases column? with
  | none => exact .pure nofun
  | some column =>
      exact .pure (List.forall_mem_singleton.mpr (Expr.traced_column.mpr (traced column rfl)))

theorem finds_field? : Finds text field? (TracedIfAny text) := by
  unfold field?
  refine .tokens fun tokens => ?_
  split
  · refine (finds_requiredColumn false).bind fun target? traced => ?_
    cases target? with
    | none => exact .pure .none
    | some target =>
        refine .after .advance fun _ => finds_expression.bind fun value second =>
          .extent fun _ => .pure (.some (.of_children (.assignment target value _) ?_))
        exact traced_operands (Expr.traced_column.mpr (traced target rfl)) second
  · exact finds_expression

theorem finds_filteredField? : Finds text filteredField? (TracedIfAny text) := by
  unfold filteredField?
  refine finds_field?.bind fun field? traced => ?_
  cases field? with
  | none => exact .pure .none
  | some field =>
      dsimp only
      split
      · exact .pure traced
      · refine .after (.accept _) fun more => ?_
        split
        · exact finds_expression.bind fun condition second => .extent fun _ =>
            .pure (.some (.of_children (.filter field condition _)
              (traced_operands (traced field rfl) second)))
        · exact .pure traced

theorem finds_fields : Finds text fields (TracedExprs text) :=
  finds_separated (finds_operand finds_field?)

theorem finds_columnList (stars : Bool) : Finds text (columnList stars) (TracedExprs text) :=
  finds_separated (finds_columnOperand stars)

/-! ## Arguments -/

/-- All items of a sequence of arguments are traced. -/
abbrev TracedArguments (text : String) (read : Parts Argument) : Prop :=
  AllItems (Argument.Traced text) read

/-- An argument without operands is traced. -/
theorem traced_plain {argument : Argument} (other : argument.expr? = none)
    (plain : argument.operands = []) : argument.Traced text :=
  Argument.traced_of_operands other (plain ▸ nofun)

section

variable {rule : Rule (Parts Expr)} (traced : Finds text rule (TracedExprs text))

include traced

theorem finds_asArguments : Finds text (asArguments rule) (TracedArguments text) := by
  refine traced.bind fun read items => .pure ?_
  intro argument member
  obtain ⟨expr, inside, rfl⟩ := List.mem_map.mp member
  exact Argument.traced_expr.mpr (items expr inside)

theorem finds_clauseFrom (name : String) (start : Nat) :
    Finds text (clauseFrom name start rule) (TracedArguments text) :=
  traced.bind fun _ items => .extent fun _ =>
    .pure (List.forall_mem_singleton.mpr (Argument.traced_of_operands rfl items))

theorem finds_optionalClause (name : String) (keyword : Keyword) :
    Finds text (optionalClause name keyword rule) (TracedArguments text) := by
  refine .after (.accept? _) fun word => ?_
  split
  · exact finds_clauseFrom traced _ _
  · exact .pure nofun

end

theorem forward_source? (kind : SourceKind) : Forward (source? kind) :=
  fun s => (source?_outcome kind s).mono fun _ _ read => read.passage.follows

theorem finds_sourceArgument (kind : SourceKind) (what : Expectation) :
    Finds text (sourceArgument kind what) (TracedArguments text) := by
  refine .after (forward_source? kind) fun source? => ?_
  split
  · exact .pure (List.forall_mem_singleton.mpr (traced_plain rfl rfl))
  · exact finds_halt what

theorem finds_bracketedMetadata (start : Nat) :
    Finds text (bracketedMetadata start) (TracedArguments text) := by
  refine .skip (finds_clauseFrom (finds_andThen (finds_columnList false) ?_) _ _)
  refine .after (.accept .closeBracket) fun closed => ?_
  split
  · exact .pure nofun
  · exact finds_halt .closeBracket

theorem finds_metadataClause : Finds text metadataClause (TracedArguments text) := by
  have bare : Finds text _ (TracedArguments text) :=
    finds_optionalClause (finds_columnList false) "metadata" .metadata
  refine .tokens fun tokens => ?_
  split
  · split
    · exact finds_bracketedMetadata _
    · exact bare
  · exact bare

theorem finds_showArguments : Finds text showArguments (TracedArguments text) := by
  refine .tokens fun tokens => ?_
  split
  · split
    · exact .after .advance fun _ =>
        .pure (List.forall_mem_singleton.mpr (traced_plain rfl rfl))
    · exact finds_halt .info
  · exact finds_halt .info

theorem finds_statsArguments (nested : Bool) :
    Finds text (statsArguments nested) (TracedArguments text) := by
  refine .get fun reading => finds_andThen ?_ (finds_optionalClause finds_fields _ _)
  split
  · exact .pure nofun
  · exact finds_asArguments (finds_separated (finds_operand finds_filteredField?))

theorem finds_newName {old : Column} (traced : old.Traced text) :
    Finds text (newName old) (TracedExprs text) := by
  have first {told : Bool} : TracedExprs text (.one (.column old) told) :=
    List.forall_mem_singleton.mpr (Expr.traced_column.mpr traced)
  refine .after (.accept _) fun found => ?_
  split
  · exact finds_andThen (.pure first) (finds_columnOperand false)
  · exact .after (.expected .asWord) fun _ => .pure first

theorem finds_renamedColumn : Finds text renamedColumn (TracedArguments text) := by
  refine .tokens fun tokens => ?_
  split
  · exact finds_asArguments (finds_operand finds_field?)
  · refine (finds_requiredColumn true).bind fun old? traced => ?_
    cases old? with
    | none => exact .pure nofun
    | some old =>
        have here := traced old rfl
        dsimp only
        split
        · exact .pure (List.forall_mem_singleton.mpr
            (Argument.traced_expr.mpr (Expr.traced_column.mpr here)))
        · exact finds_clauseFrom (finds_newName here) _ _

theorem forward_direction? : Forward direction? :=
  fun s => (direction?_passage s).mono fun _ _ passage => passage.follows

theorem forward_nullsOrder? : Forward nullsOrder? :=
  fun s => (nullsOrder?_outcome s).mono fun _ _ read => read.1.follows

theorem finds_sortKey : Finds text sortKey (TracedArguments text) := by
  refine finds_expression.bind fun expr? traced => ?_
  cases expr? with
  | none => exact .pure nofun
  | some expr =>
      have part : ∀ operand ∈ [expr], operand.Traced text :=
        List.forall_mem_singleton.mpr (traced expr rfl)
      have key {direction? : Option Direction} {nulls? : Option NullsOrder} {extent : Extent} :
          (Argument.sortKey ⟨extent, expr, direction?, nulls?⟩).Traced text :=
        Argument.traced_of_operands rfl part
      dsimp only
      split
      · exact .extent fun _ => .pure (List.forall_mem_singleton.mpr key)
      · refine .after forward_direction? fun direction => .after (.accept _) fun ordered => ?_
        have one (nulls? : Option NullsOrder) : Finds text (do
            let incomplete := ordered && nulls?.isNone
            pure (.one (.sortKey ⟨← extent expr.span.start incomplete, expr, direction, nulls?⟩)
              incomplete)) (TracedArguments text) :=
          .extent fun _ => .pure (List.forall_mem_singleton.mpr key)
        cases ordered with
        | false => exact one none
        | true => exact Finds.after forward_nullsOrder? one

theorem finds_numberLiteral (what : Expectation) (decimals : Bool) :
    Finds text (numberLiteral what decimals) (TracedExprs text) := by
  intro s reached
  unfold numberLiteral
  rw [ensures_tokens]
  split
  · rename_i token rest front
    have number {kind : LiteralKind} {value : String}
        (same : token.literal? = some (kind, value)) :
        Ensures (do pure (.one (← literal kind value false) false)) s fun x t =>
          TracedExprs text x ∧ Reached text t :=
      (literal_traced reached front same false).bind fun _ _ read =>
        ⟨List.forall_mem_singleton.mpr read.1, read.2⟩
    split
    · rename_i kind
      exact number (by rw [Token.literal?, kind])
    · split
      · rename_i kind _
        exact number (by rw [Token.literal?, kind])
      · exact finds_halt what s reached
    · rename_i name kind
      exact number (by rw [Token.literal?, kind])
    · exact finds_halt what s reached
  · exact finds_halt what s reached

theorem finds_patternOperand : Finds text patternOperand (TracedExprs text) := by
  refine .tokens fun tokens => ?_
  split
  · split
    · exact finds_operand finds_expression
    · exact finds_halt .pattern
  · exact finds_halt .pattern

theorem finds_grokArguments : Finds text grokArguments (TracedArguments text) :=
  finds_asArguments (finds_andThen (finds_operand finds_expression) finds_patternOperand)

theorem finds_settingsFrom (bound : Nat) :
    Finds text (settingsFrom bound) (TracedArguments text) := by
  induction bound with
  | zero => exact finds_halt .expression
  | succ bound ih =>
      refine .tokens fun tokens => ?_
      split
      · split
        · refine finds_andThen ?_ ih
          refine .skip (finds_expression.bind fun value traced => .extent fun _ =>
            .pure (List.forall_mem_singleton.mpr (Argument.traced_of_operands rfl ?_)))
          exact fun operand member => traced operand (Option.mem_toList.mp member)
        · exact .pure nofun
      · exact .pure nofun

theorem finds_enrichField : Finds text enrichField (TracedExprs text) := by
  refine .tokens fun tokens => ?_
  split
  · exact finds_operand finds_field?
  · exact finds_columnOperand false

theorem finds_joinArguments : Finds text joinArguments (TracedArguments text) := by
  refine finds_andThen (finds_sourceArgument _ _) (.after (.accept? _) fun word => ?_)
  split
  · exact finds_clauseFrom (finds_separated (finds_operand finds_expression)) _ _
  · exact finds_halt .onWord

theorem finds_outputNames : Finds text outputNames (TracedExprs text) := by
  refine finds_andThen (finds_columnOperand false) (.after (.accept .comma) fun comma => ?_)
  split
  · exact finds_columnOperand false
  · exact finds_halt .comma

/-- The arguments of every verb are traced, if those of a fork are. -/
theorem finds_arguments {branches : Rule (Parts Argument)}
    (forked : Finds text branches (TracedArguments text)) (nested : Bool) (verb : Verb) :
    Finds text (arguments branches nested verb) (TracedArguments text) := by
  have «from» : Finds text fromArguments (TracedArguments text) :=
    finds_andThen (finds_separated (finds_sourceArgument _ _)) finds_metadataClause
  have column : Finds text (columnOperand false) (TracedExprs text) := finds_columnOperand false
  have named : Finds text (asArguments fields) (TracedArguments text) :=
    finds_asArguments finds_fields
  have listed : Finds text (asArguments (columnList true)) (TracedArguments text) :=
    finds_asArguments (finds_columnList true)
  cases verb with
  | «from» => exact «from»
  | ts => exact «from»
  | row => exact named
  | eval => exact named
  | «show» => exact finds_showArguments
  | «where» => exact finds_asArguments (finds_operand finds_expression)
  | stats => exact finds_statsArguments nested
  | inlinestats => exact finds_statsArguments nested
  | keep => exact listed
  | drop => exact listed
  | rename => exact finds_separated finds_renamedColumn
  | mvExpand => exact finds_asArguments column
  | sort => exact finds_separated finds_sortKey
  | limit => exact finds_asArguments (finds_numberLiteral _ _)
  | sample => exact finds_asArguments (finds_numberLiteral _ _)
  | dissect => exact finds_andThen finds_grokArguments (.tokens fun _ => finds_settingsFrom _)
  | grok => exact finds_grokArguments
  | enrich =>
      exact finds_andThen (finds_sourceArgument _ _)
        (finds_andThen (finds_optionalClause column _ _)
          (finds_optionalClause (finds_separated finds_enrichField) _ _))
  | join => exact finds_joinArguments
  | fork => exact forked
  | changePoint =>
      exact finds_andThen (finds_asArguments column)
        (finds_andThen (finds_optionalClause column _ _)
          (finds_optionalClause finds_outputNames _ _))

/-! ## Commands -/

theorem finds_branches (bound : Nat) : Finds text (branches bound) (TracedArguments text) := by
  induction bound with
  | zero => exact finds_halt .branch
  | succ bound ih =>
      have one (opening : Token) :
          Finds text (branchFrom bound opening) (TracedArguments text) := by
        cases bound with
        | zero => exact finds_halt .branch
        | succ bound =>
            exact .after (.pipeline bound true) fun read => .after (.closeBranch _ read) fun _ =>
              .pure (List.forall_mem_singleton.mpr (traced_plain rfl rfl))
      unfold branches
      refine .after (.accept? .openParen) fun opening? => ?_
      split
      · exact finds_halt .branch
      · refine finds_andThen (one _) (.get fun reading => ?_)
        split
        · exact ih
        · exact .pure nofun

/-- All leaves of a command were read from tokens of the text. -/
def TracedCommand (text : String) (command : Command) : Prop :=
  ∀ argument ∈ command.args, argument.Traced text

theorem finds_finishCommand {name : CommandName} {stop : Nat} {read : Parts Argument}
    (traced : TracedArguments text read) :
    Finds text (finishCommand name stop read) (TracedCommand text) :=
  .get fun _ => .pure traced

theorem finds_commandBody {name : CommandName} {args : Rule (Parts Argument)} {nested : Bool}
    (traced : Finds text args (TracedArguments text)) :
    Finds text (commandBody name args nested) (TracedCommand text) := by
  refine traced.bind fun read items => .get fun reading => ?_
  have finish : Finds text (do
      recover nested
      finishCommand name reading.lastStop read) (TracedCommand text) :=
    .after (.recover nested) fun _ => finds_finishCommand items
  split
  · exact .after (.checkBoundary _ _) fun _ => finish
  · exact finish

theorem forward_commandName (first : Token) : Forward (commandName first) :=
  fun s => (commandName_follows first s).mono fun _ _ later => (follows_skip s 1).trans later

theorem finds_command? (bound : Nat) (first nested : Bool) :
    Finds text (command? bound first nested) fun x =>
      ∀ command ∈ x, TracedCommand text command := by
  have nothing : ∀ command ∈ (none : Option Command), TracedCommand text command := by
    intro command absent
    cases absent
  have one {rule : Rule Command} (traced : Finds text rule (TracedCommand text)) :
      Finds text (do pure (some (← rule))) fun x => ∀ command ∈ x, TracedCommand text command :=
    traced.bind fun command here => .pure fun _ same => Option.some.inj same ▸ here
  cases bound with
  | zero => exact Finds.after (.expected .commandName) fun _ => .pure nothing
  | succ bound =>
      unfold command?
      refine .tokens fun tokens => ?_
      split
      · split
        · refine .after (forward_commandName _) fun name => ?_
          split
          · exact one (.after (.record _ _) fun _ => .after (.recover nested) fun _ =>
              finds_finishCommand (List.forall_mem_nil _))
          · rename_i verb _
            have body : Finds text
                (commandBody name (arguments (branches bound) nested verb) nested)
                (TracedCommand text) :=
              finds_commandBody (finds_arguments (finds_branches bound) nested verb)
            refine one ?_
            -- What precedes the arguments only records whether the verb may stand here.
            rw [knownCommand_eq]
            split
            · exact .after (.record _ _) fun _ => body
            · exact body
        · exact .after (.expected .commandName) fun _ => .after (.recover nested) fun _ =>
            .pure nothing
      · exact .pure nothing

end Grammar

/-- Every leaf of the tree of a text was read from tokens of the text, and every application is one
that the grammar makes. -/
theorem traced_visited {text : String} {command : Command}
    (visited : command ∈ Command.visitedIn (parse text).pipeline.commands) {expr : Expr}
    (below : Node.expr expr ∈ command.walk) : expr.NodeTraced text := by
  obtain ⟨last, _, read⟩ := visited_parse text
  obtain ⟨bound, first, nested, u, v, before, _, run, _⟩ := read command visited
  have traced := (Grammar.finds_command? bound first nested u before).1
  rw [run] at traced
  rcases List.mem_cons.mp below with same | inside
  · cases same
  · obtain ⟨argument, member, deeper⟩ := List.mem_flatMap.mp inside
    exact traced command rfl argument member _ deeper expr rfl

end Esql
