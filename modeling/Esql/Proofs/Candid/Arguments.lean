import Esql.Proofs.Candid.Expression

/-!
# Arguments and commands mark what they could not finish

The arguments that a verb takes are candid, and if they are all there, none of them is marked. So a
command that is not marked has no argument that is. Only a fork has branches, which are pipelines
with commands of their own.
-/

namespace Esql.Grammar

theorem yields_field? : Yields field? CandidIfAny := by
  unfold field?
  refine .after fun tokens => ?_
  split
  · refine .after fun target? => ?_
    split
    · exact .pure .none
    · refine .after fun _ => yields_expression.bind fun value candid =>
        (yields_extent _ _).bind fun extent told => .pure (.some ?_)
      refine candid_binary (.leaf trivial rfl) candid fun complete => ?_
      exact Bool.or_eq_false_iff.mp (told.symm.trans complete)
  · exact yields_expression

/-- A condition is only read behind a complete field. -/
theorem yields_filteredField? : Yields filteredField? CandidIfAny := by
  unfold filteredField?
  refine yields_field?.bind fun field? candid => ?_
  cases field? with
  | none => exact .pure .none
  | some field =>
      dsimp only
      split
      · exact .pure candid
      · rename_i finished
        refine .after fun more => ?_
        split
        · refine yields_expression.bind fun condition second =>
            (yields_extent _ _).bind fun extent told => .pure (.some ?_)
          exact candid_binary (candid field rfl) second fun complete =>
            ⟨Bool.eq_false_iff.mpr finished, told.symm.trans complete⟩
        · exact .pure candid

theorem yields_columnOperand (stars : Bool) : Yields (columnOperand stars) CandidExprs := by
  refine .after fun column? => ?_
  split
  · rename_i column
    exact .pure (.one (Expr.column column) (.leaf trivial rfl))
  · exact .pure .nil

theorem yields_fields : Yields fields CandidExprs := yields_separated (yields_operand yields_field?)

theorem yields_columnList (stars : Bool) : Yields (columnList stars) CandidExprs :=
  yields_separated (yields_columnOperand stars)

/-- An argument that is no branch. -/
def IsLeaf (argument : Argument) : Prop := argument.branch? = none

/-- What is known of a sequence of arguments without branches. -/
abbrev CandidArguments (read : Parts Argument) : Prop :=
  Accounted (fun argument => IsLeaf argument ∧ (Node.ofArgument argument).Candid)
    Argument.incomplete read

section

variable {rule : Rule (Parts Expr)} (candid : Yields rule CandidExprs)

include candid

theorem yields_asArguments : Yields (asArguments rule) CandidArguments := by
  refine candid.bind fun read accounted => .pure ⟨?_, ?_⟩
  · intro argument member
    obtain ⟨expr, inside, rfl⟩ := List.mem_map.mp member
    exact ⟨rfl, accounted.items expr inside⟩
  · intro complete argument member
    obtain ⟨expr, inside, rfl⟩ := List.mem_map.mp member
    exact accounted.finished complete expr inside

theorem yields_clauseFrom (name : String) (start : Nat) :
    Yields (clauseFrom name start rule) CandidArguments := by
  refine candid.bind fun read accounted => (yields_extent _ _).bind fun extent told => .pure ?_
  refine .single ⟨rfl, .argument rfl ?_ accounted.items⟩ ?_
  · intro complete
    exact accounted.finished (by simpa using told.symm.trans complete)
  · intro complete
    exact told.trans (by simp [complete])

theorem yields_optionalClause (name : String) (keyword : Keyword) :
    Yields (optionalClause name keyword rule) CandidArguments := by
  refine .after fun word => ?_
  split
  · exact yields_clauseFrom candid _ _
  · exact .pure .nil

end

theorem yields_sourceArgument (kind : SourceKind) (what : Expectation) :
    Yields (sourceArgument kind what) CandidArguments := by
  refine .after fun source? => ?_
  split
  · rename_i source
    exact .pure (.one (Argument.source source) ⟨rfl, .argument rfl (fun _ => nofun) nofun⟩)
  · exact yields_halt what

theorem yields_bracketedMetadata (start : Nat) :
    Yields (bracketedMetadata start) CandidArguments := by
  refine .after fun _ => yields_clauseFrom (yields_andThen (yields_columnList false) ?_) _ _
  refine .after fun closed => ?_
  split
  · exact .pure .nil
  · exact yields_halt .closeBracket

theorem yields_metadataClause : Yields metadataClause CandidArguments := by
  have bare := yields_optionalClause (yields_columnList false) "metadata" .metadata
  refine .after fun tokens => ?_
  split
  · split
    · exact yields_bracketedMetadata _
    · exact bare
  · exact bare

theorem yields_showArguments : Yields showArguments CandidArguments := by
  refine .after fun tokens => ?_
  split
  · split
    · exact .after fun _ =>
        .pure (.single ⟨rfl, .argument rfl (fun _ => nofun) nofun⟩ fun _ => rfl)
    · exact yields_halt .info
  · exact yields_halt .info

theorem yields_statsArguments (nested : Bool) : Yields (statsArguments nested) CandidArguments := by
  refine .after fun reading => yields_andThen ?_ (yields_optionalClause yields_fields _ _)
  split
  · exact .pure .nil
  · exact yields_asArguments (yields_separated (yields_operand yields_filteredField?))

theorem yields_newName (old : Column) (complete : old.incomplete = false) :
    Yields (newName old) CandidExprs := by
  have first (told : Bool) : CandidExprs (.one (.column old) told) :=
    .single (.leaf trivial rfl) fun _ => complete
  refine .after fun found => ?_
  split
  · exact yields_andThen (.pure (first false)) (yields_columnOperand false)
  · exact .after fun _ => .pure (first true)

theorem yields_renamedColumn : Yields renamedColumn CandidArguments := by
  refine .after fun tokens => ?_
  split
  · exact yields_asArguments (yields_operand yields_field?)
  · refine .after fun old? => ?_
    split
    · exact .pure .nil
    · split
      · exact .pure (.single ⟨rfl, .leaf trivial rfl⟩ nofun)
      · rename_i complete
        exact yields_clauseFrom (yields_newName _ (Bool.eq_false_iff.mpr complete)) _ _

theorem yields_sortKey : Yields sortKey CandidArguments := by
  refine yields_expression.bind fun expr? candid => ?_
  cases expr? with
  | none => exact .pure .nil
  | some expr =>
      have part : ∀ operand ∈ [expr], CandidExpr operand :=
        List.forall_mem_singleton.mpr (candid expr rfl)
      dsimp only
      split
      · refine (yields_extent _ _).bind fun extent told => .pure (.single ⟨rfl, ?_⟩ nofun)
        exact .argument rfl (fun complete => absurd (told.symm.trans complete) nofun) part
      · rename_i finished
        have closed : ∀ operand ∈ [expr], operand.incomplete = false :=
          List.forall_mem_singleton.mpr (Bool.eq_false_iff.mpr finished)
        refine .after fun direction => .after fun ordered => ?_
        have key (nulls? : Option NullsOrder) : Yields (do
            let incomplete := ordered && nulls?.isNone
            pure (.one (.sortKey ⟨← extent expr.span.start incomplete, expr, direction, nulls?⟩)
              incomplete)) CandidArguments := by
          refine (yields_extent _ _).bind fun extent told => .pure (.single ⟨rfl, ?_⟩ ?_)
          · exact .argument rfl (fun _ => closed) part
          · intro complete
            exact told.trans ((Bool.not_eq_true' _).mp complete)
        cases ordered with
        | false => exact key none
        | true => exact Yields.after fun nulls? => key nulls?

theorem yields_numberLiteral (what : Expectation) (decimals : Bool) :
    Yields (numberLiteral what decimals) CandidExprs := by
  have number (kind : LiteralKind) (value : String) : Yields (do
      pure (.one (← literal kind value false) false)) CandidExprs :=
    (yields_literal kind value false).bind fun _ read => .pure (.single read.1 fun _ => read.2)
  refine .after fun tokens => ?_
  split
  · split
    · exact number _ _
    · split
      · exact number _ _
      · exact yields_halt what
    · exact number _ _
    · exact yields_halt what
  · exact yields_halt what

theorem yields_patternOperand : Yields patternOperand CandidExprs := by
  refine .after fun tokens => ?_
  split
  · split
    · exact yields_operand yields_expression
    · exact yields_halt .pattern
  · exact yields_halt .pattern

theorem yields_grokArguments : Yields grokArguments CandidArguments :=
  yields_asArguments (yields_andThen (yields_operand yields_expression) yields_patternOperand)

theorem yields_settingsFrom (bound : Nat) : Yields (settingsFrom bound) CandidArguments := by
  induction bound with
  | zero => exact yields_halt .expression
  | succ bound ih =>
      refine .after fun tokens => ?_
      split
      · split
        · refine yields_andThen ?_ ih
          refine .after fun _ => yields_expression.bind fun value candid =>
            (yields_extent _ _).bind fun extent told => .pure (.single ⟨rfl, ?_⟩ ?_)
          · refine .argument rfl ?_ fun operand member => candid operand (Option.mem_toList.mp member)
            intro complete operand member
            obtain ⟨expr, rfl, finished⟩ := exists_of_isUnfinished (told.symm.trans complete)
            exact List.mem_singleton.mp member ▸ finished
          · intro complete
            exact told.trans (by simpa using complete)
        · exact .pure .nil
      · exact .pure .nil

theorem yields_enrichField : Yields enrichField CandidExprs := by
  refine .after fun tokens => ?_
  split
  · exact yields_operand yields_field?
  · exact yields_columnOperand false

theorem yields_joinArguments : Yields joinArguments CandidArguments := by
  refine yields_andThen (yields_sourceArgument _ _) (.after fun word => ?_)
  split
  · exact yields_clauseFrom (yields_separated (yields_operand yields_expression)) _ _
  · exact yields_halt .onWord

theorem yields_outputNames : Yields outputNames CandidExprs := by
  refine yields_andThen (yields_columnOperand false) (.after fun comma => ?_)
  split
  · exact yields_columnOperand false
  · exact yields_halt .comma

/-- All verbs but the fork. -/
theorem yields_arguments (branches : Rule (Parts Argument)) (nested : Bool) {verb : Verb}
    (other : verb ≠ .fork) : Yields (arguments branches nested verb) CandidArguments := by
  have «from» : Yields fromArguments CandidArguments :=
    yields_andThen (yields_separated (yields_sourceArgument _ _)) yields_metadataClause
  have column := yields_columnOperand false
  have named : Yields (asArguments fields) CandidArguments := yields_asArguments yields_fields
  have listed : Yields (asArguments (columnList true)) CandidArguments :=
    yields_asArguments (yields_columnList true)
  cases verb with
  | «from» => exact «from»
  | ts => exact «from»
  | row => exact named
  | eval => exact named
  | «show» => exact yields_showArguments
  | «where» => exact yields_asArguments (yields_operand yields_expression)
  | stats => exact yields_statsArguments nested
  | inlinestats => exact yields_statsArguments nested
  | keep => exact listed
  | drop => exact listed
  | rename => exact yields_separated yields_renamedColumn
  | mvExpand => exact yields_asArguments column
  | sort => exact yields_separated yields_sortKey
  | limit => exact yields_asArguments (yields_numberLiteral _ _)
  | sample => exact yields_asArguments (yields_numberLiteral _ _)
  | dissect => exact yields_andThen yields_grokArguments (.after fun _ => yields_settingsFrom _)
  | grok => exact yields_grokArguments
  | enrich =>
      exact yields_andThen (yields_sourceArgument _ _)
        (yields_andThen (yields_optionalClause column _ _)
          (yields_optionalClause (yields_separated yields_enrichField) _ _))
  | join => exact yields_joinArguments
  | fork => contradiction
  | changePoint =>
      exact yields_andThen (yields_asArguments column)
        (yields_andThen (yields_optionalClause column _ _)
          (yields_optionalClause yields_outputNames _ _))

/-! ## Commands -/

/-- What is known of a sequence of branches. -/
abbrev CandidBranches (read : Parts Argument) : Prop :=
  Accounted (fun argument => (Node.ofArgument argument).Candid) Argument.incomplete read

theorem yields_branchFrom (bound : Nat) (opening : Token) :
    Yields (branchFrom bound opening) CandidBranches := by
  cases bound with
  | zero => exact yields_halt .branch
  | succ bound =>
      refine .after fun read => .after fun branch => .pure ?_
      exact .one (Argument.branch branch) (.argument rfl (fun _ => nofun) nofun)

theorem yields_branches (bound : Nat) : Yields (branches bound) CandidBranches := by
  induction bound with
  | zero => exact yields_halt .branch
  | succ bound ih =>
      unfold branches
      refine .after fun opening? => ?_
      split
      · exact yields_halt .branch
      · refine yields_andThen (yields_branchFrom bound _) (.after fun reading => ?_)
        split
        · exact ih
        · exact .pure .nil

/-- A command is complete if its arguments are. -/
theorem yields_finishCommand (name : CommandName) (stop : Nat) {read : Parts Argument}
    (accounted : CandidBranches read) :
    Yields (finishCommand name stop read) fun command => (Node.command command).Candid := by
  refine .after fun reading => .pure (.command ?_ accounted.items)
  intro complete
  exact accounted.finished (by simpa using complete)

theorem yields_commandBody (name : CommandName) {args : Rule (Parts Argument)} (nested : Bool)
    (candid : Yields args CandidBranches) :
    Yields (commandBody name args nested) fun command => (Node.command command).Candid := by
  refine candid.bind fun read accounted => .after fun reading => ?_
  have finish := yields_finishCommand name reading.lastStop accounted
  cases read.complete with
  | false => exact Yields.after fun _ => finish
  | true => exact Yields.after fun _ => .after fun _ => finish

/-- Every command that is read is candid, its branches left closed. -/
theorem yields_command? (bound : Nat) (first nested : Bool) :
    Yields (command? bound first nested) fun read =>
      ∀ command ∈ read, (Node.command command).Candid := by
  have nothing : ∀ command ∈ (none : Option Command), (Node.command command).Candid := nofun
  have one {rule : Rule Command} (candid : Yields rule fun command => (Node.command command).Candid) :
      Yields (do pure (some (← rule))) fun read =>
        ∀ command ∈ read, (Node.command command).Candid :=
    candid.bind fun command here => .pure fun _ same => Option.some.inj same ▸ here
  cases bound with
  | zero => exact Yields.after fun _ => .pure nothing
  | succ bound =>
      unfold command?
      refine .after fun tokens => ?_
      split
      · split
        · refine .after fun name => ?_
          split
          · exact one (.after fun _ => .after fun _ => yields_finishCommand _ _ .nil)
          · rename_i verb _
            have args : Yields (arguments (branches bound) nested verb) CandidBranches := by
              by_cases fork : verb = .fork
              · subst fork
                exact yields_branches bound
              · exact (yields_arguments _ nested fork).mono fun read accounted =>
                  accounted.mono fun _ leaf => leaf.2
            refine one ?_
            rw [knownCommand_eq]
            split
            · exact .after fun _ => yields_commandBody name nested args
            · exact yields_commandBody name nested args
        · exact .after fun _ => .after fun _ => .pure nothing
      · exact .pure nothing

end Esql.Grammar
