import Esql.Meaning
import Esql.Proofs.Flow.Fields
import Esql.Proofs.Flow.Withheld
import Esql.Proofs.Grammar.Visited

/-!
# Checks without the list of the source

Where a check with the columns of the source is quiet, the check without them should be quiet too:
what is not known cannot be wrong. Five things have to be settled for that. A selection has to match
what is listed in an unknown set; a branch has to list what the branches behind it list, or it has
to be known; the first item of a list has to have a type if a later one has; no group may read what an
earlier group is named; and what an aggregation filters has to be complete.
-/

namespace Esql

/-! ## Filters of aggregated fields

Nothing is read after an expression that was closed early. So a condition behind an aggregated field
is only read when the field is complete.
-/

/-- An expression that was read to its end is so without its filter. -/
theorem Expr.unfiltered_complete {expr : Expr} (candid : (Node.expr expr).Candid)
    (complete : expr.incomplete = false) : expr.unfiltered.incomplete = false := by
  rw [unfiltered.eq_def]
  split
  · exact candid.parts_complete complete _ List.mem_cons_self
  · exact complete

namespace Command

/-- What the fields of an aggregation filter is complete. -/
def filtersComplete (command : Command) : Bool :=
  match Verb.ofName? command.name with
  | some .stats | some .inlinestats => command.fields.all fun field => !field.unfiltered.incomplete
  | _ => true

theorem filtersComplete_of_candid {command : Command} (candid : (Node.command command).Candid) :
    command.filtersComplete = true := by
  obtain ⟨_, _, parts⟩ := candid
  have fields : command.fields.all (fun field => !field.unfiltered.incomplete) = true := by
    rw [List.all_eq_true]
    intro field member
    obtain ⟨inside, complete⟩ := List.mem_filter.mp member
    obtain ⟨argument, given, found⟩ := List.mem_filterMap.mp inside
    rw [Bool.not_eq_true'] at complete ⊢
    cases argument with
    | expr e =>
        cases found
        exact Expr.unfiltered_complete (parts _ (List.mem_map_of_mem given)) complete
    | _ => cases found
  rw [filtersComplete]
  split
  · exact fields
  · exact fields
  · rfl

end Command

/-- In the tree of a text, every condition of an aggregation stands behind a complete field. -/
theorem filtersComplete_of_parse (text : String) :
    ∀ visited ∈ Command.visitedIn (parse text).pipeline.commands,
      visited.filtersComplete = true :=
  fun visited member => visited.filtersComplete_of_candid (candid_visited text visited member)

/-! ## Checks of names -/

namespace Scope

variable {scope : Scope} {part : ColumnSet}

theorem checkColumn_vaguer (related : part.Below scope.columns) {column : Column}
    (faultless : Faultless (scope.checkColumn column)) :
    checkColumn { scope with columns := part } column = [] :=
  checkColumn_eq_nil (related.lacks_eq_false (lacks_of_faultless faultless))

theorem checkPattern_vaguer (related : part.Below scope.columns) {pattern : Column}
    (faultless : Faultless (scope.checkPattern pattern)) :
    checkPattern { scope with columns := part } pattern = [] := by
  rw [checkPattern] at faultless ⊢
  split
  · rename_i plain
    rw [if_pos plain] at faultless
    exact checkColumn_vaguer related faultless
  · rename_i star
    rw [if_neg star] at faultless
    rw [if_neg]
    intro missing
    obtain ⟨known, empty⟩ := (Bool.and_eq_true _ _).mp missing
    split at faultless
    · exact Faultless.not_cons_error rfl _ _ faultless
    · rename_i matched
      rw [Bool.and_eq_true, not_and, List.isEmpty_iff, ← ne_eq] at matched
      obtain ⟨field, member⟩ := List.exists_mem_of_ne_nil _ (matched (related.known known))
      obtain ⟨inside, fits⟩ := List.mem_filter.mp member
      have listed := related.complete known (List.mem_map_of_mem inside)
      obtain ⟨twin, twinInside, same⟩ := List.mem_map.mp listed
      have found : twin ∈ part.matching pattern.name :=
        List.mem_filter.mpr ⟨twinInside, by rw [same]; exact fits⟩
      rw [List.isEmpty_iff.mp empty] at found
      contradiction

theorem checkColumnsOf_vaguer (related : part.Below scope.columns) {command : Command}
    {clause : String} (faultless : Faultless (scope.checkColumnsOf command clause)) :
    checkColumnsOf { scope with columns := part } command clause = [] :=
  List.flatMap_eq_nil_iff.mpr fun _ member => checkColumn_vaguer related (faultless.flatMap member)

theorem checkRenamings_vaguer {pairs : List (Column × Column)} (related : part.Below scope.columns)
    (faultless : Faultless (scope.checkRenamings pairs)) :
    checkRenamings { scope with columns := part } pairs = [] ∧
      (pairs.foldl ColumnSet.renamed part).Below (pairs.foldl ColumnSet.renamed scope.columns) := by
  induction pairs generalizing part scope with
  | nil => exact ⟨rfl, related⟩
  | cons columns rest ih =>
      obtain ⟨plain, present⟩ := renaming_of_faultless faultless
      rw [checkRenamings_cons plain present] at faultless
      rw [checkRenamings_cons plain (related.lacks_eq_false present)]
      exact ih (related.renamed present) faultless

end Scope

namespace Command

variable {scope : Scope} {part : ColumnSet}

theorem checkKeep_vaguer (related : part.Below scope.columns) {command : Command}
    (faultless : Faultless (command.checkKeep scope)) :
    command.checkKeep { scope with columns := part } = [] :=
  List.flatMap_eq_nil_iff.mpr fun _ member =>
    Scope.checkPattern_vaguer related (faultless.flatMap member)

theorem checkDrop_vaguer (related : part.Below scope.columns) {command : Command}
    (faultless : Faultless (command.checkDrop scope)) :
    command.checkDrop { scope with columns := part } = [] := by
  rw [checkDrop] at faultless ⊢
  split
  · rename_i all found
    rw [found] at faultless
    exact absurd faultless (Faultless.not_cons_error rfl _ _)
  · rename_i none
    rw [none] at faultless
    exact checkKeep_vaguer related faultless

theorem checkMvExpand_vaguer (related : part.Below scope.columns) {command : Command}
    (faultless : Faultless (command.checkMvExpand scope)) :
    command.checkMvExpand { scope with columns := part } = [] :=
  List.flatMap_eq_nil_iff.mpr fun _ member =>
    Scope.checkColumn_vaguer related (faultless.flatMap member)

/-- A column that is numeric is not known to be anything else. -/
theorem checkNumeric_vaguer (related : part.Below scope.columns) {column : Column}
    (faultless : Faultless (checkNumeric column scope)) :
    checkNumeric column { scope with columns := part } = [] := by
  rw [checkNumeric] at faultless
  have present : Faultless (scope.checkColumn column) := by
    split at faultless
    · rename_i clear _
      rw [clear]
      exact .nil
    · exact faultless
  have clear := Scope.checkColumn_eq_nil (Scope.lacks_of_faultless present)
  rw [checkNumeric, Scope.checkColumn_vaguer related present]
  cases known : part.type? column.name with
  | none => rfl
  | some type =>
      obtain ⟨other, same, alike⟩ := related.typed column.name type known
      rw [clear, same] at faultless
      dsimp only at faultless ⊢
      rw [@FieldType.Alike.congr _ FieldType.isNumeric rfl _ _ alike]
      split
      · rfl
      · rename_i other
        rw [if_neg other] at faultless
        exact absurd faultless (Faultless.not_cons_error rfl _ _)

theorem checkChangePoint_vaguer (related : part.Below scope.columns) {command : Command}
    (faultless : Faultless (command.checkChangePoint scope)) :
    command.checkChangePoint { scope with columns := part } = [] := by
  rw [checkChangePoint] at faultless ⊢
  split
  · rename_i value found
    rw [found] at faultless
    obtain ⟨numeric, columns⟩ := Faultless.append_iff.mp faultless
    rw [checkNumeric_vaguer related numeric]
    exact Scope.checkColumnsOf_vaguer related columns
  · rfl

/-- Of an enrichment only the columns that rows are matched on are looked up. -/
theorem checkEnrich_vaguer (related : part.Below scope.columns) {command : Command}
    {snapshot : Snapshot} (quiet : Quiet (command.checkEnrich scope snapshot)) :
    Quiet (command.checkEnrich { scope with columns := part } snapshot.withheld) := by
  rw [checkEnrich] at quiet ⊢
  split
  · exact .nil
  · rename_i source leading
    rw [leading] at quiet
    simp only [Quiet.append_iff] at quiet ⊢
    obtain ⟨⟨⟨mode, policy⟩, columns⟩, requests⟩ := quiet
    rw [Scope.checkColumnsOf_vaguer related columns.faultless]
    exact ⟨⟨⟨mode, policy⟩, .nil⟩, requests⟩

/-! ## Checks of expressions -/

/-- The lists in the expressions of a command are settled, each by the columns that the expression
sees. -/
def listsSettled (snapshot : Snapshot) (input : ColumnSet) (command : Command) : Bool :=
  match Verb.ofName? command.name with
  | none => true
  | some .row | some .eval => Expr.fieldsSettled input command.exprs
  | some .stats | some .inlinestats =>
      command.fields.all (Expr.settled input) &&
        Expr.fieldsSettled input (command.operandsOf "by")
  | some .join =>
      (complete (command.operandsOf "on")).all
        (Expr.settled (input.extend (command.joined snapshot)))
  | some _ => (command.args.flatMap Argument.exprs).all (Expr.settled input)

theorem checkJoin_vaguer (related : part.Below scope.columns) {command : Command}
    {snapshot : Snapshot}
    (settled : (complete (command.operandsOf "on")).all
      (Expr.settled (part.extend (command.joined snapshot))) = true)
    (quiet : Quiet (command.checkJoin scope snapshot)) :
    Quiet (command.checkJoin { scope with columns := part } snapshot.withheld) := by
  rw [checkJoin] at quiet ⊢
  split
  · exact .nil
  · rename_i source leading
    rw [leading] at quiet
    change Quiet
      (if snapshot.joinIndices?.any fun indices => !joinable indices source then _ else _)
    dsimp only at quiet
    split
    · rename_i unknown
      rw [if_pos unknown] at quiet
      exact quiet
    · rename_i listed
      rw [if_neg listed] at quiet
      refine .of_eq_nil (List.flatMap_eq_nil_iff.mpr fun condition member => ?_)
      have both := related.extend (Field.Vaguer.refl_all (command.joined snapshot).fields) rfl
      have clear := (quiet.flatMap member).eq_nil (Expr.grave_check condition _ .join none)
      have lists := List.all_eq_true.mp settled condition member
      exact (Expr.check_vaguer condition both lists clear).1

theorem mem_exprs_of_expr? {argument : Argument} {expr : Expr}
    (found : argument.expr? = some expr) :
    expr ∈ argument.exprs := by
  cases argument with
  | expr e => exact Option.some.inj found ▸ List.mem_singleton_self e
  | _ => contradiction

theorem mem_exprs_of_sortedBy? {argument : Argument} {expr : Expr}
    (found : argument.sortedBy? = some expr) : expr ∈ argument.exprs := by
  cases argument with
  | expr e => exact Option.some.inj found ▸ List.mem_singleton_self e
  | sortKey k => exact Option.some.inj found ▸ List.mem_singleton_self k.expr
  | _ => contradiction

section

variable {command : Command}
  (settled : ∀ expr ∈ command.args.flatMap Argument.exprs, expr.settled part = true)

include settled

theorem checkWhere_vaguer (related : part.Below scope.columns)
    (quiet : Quiet (command.checkWhere scope)) :
    command.checkWhere { scope with columns := part } = [] := by
  rw [checkWhere] at quiet ⊢
  split
  · rename_i condition first
    rw [first] at quiet
    obtain ⟨argument, inside, found⟩ := List.mem_filterMap.mp (List.mem_of_head? first)
    have member := List.mem_flatMap.mpr ⟨argument, inside, mem_exprs_of_expr? found⟩
    exact Expr.checkTyped_vaguer related (settled condition member) rfl quiet
  · rfl

theorem checkSort_vaguer (related : part.Below scope.columns)
    (quiet : Quiet (command.checkSort scope)) :
    command.checkSort { scope with columns := part } = [] := by
  refine List.flatMap_eq_nil_iff.mpr fun expr member => ?_
  obtain ⟨argument, inside, found⟩ := List.mem_filterMap.mp member
  exact (Expr.checkAt_vaguer related (settled expr (List.mem_flatMap.mpr
    ⟨argument, List.mem_of_mem_filter inside, mem_exprs_of_sortedBy? found⟩))
    (quiet.flatMap member)).1

theorem checkInput_vaguer (related : part.Below scope.columns) {place : Place}
    (quiet : Quiet (command.checkInput scope place)) :
    command.checkInput { scope with columns := part } place = [] := by
  rw [checkInput] at quiet ⊢
  split
  · rename_i input first
    rw [first] at quiet
    obtain ⟨argument, head, found⟩ :=
      Option.bind_eq_some_iff.mp (Option.filter_eq_some_iff.mp first).1
    have inside : argument ∈ command.args := List.mem_of_mem_filter (List.mem_of_head? head)
    exact Expr.checkTyped_vaguer related
      (settled input (List.mem_flatMap.mpr ⟨argument, inside, mem_exprs_of_expr? found⟩)) rfl quiet
  · rfl

theorem checkDissect_vaguer (related : part.Below scope.columns)
    (quiet : Quiet (command.checkDissect scope)) :
    Quiet (command.checkDissect { scope with columns := part }) := by
  rw [checkDissect, Quiet.append_iff] at quiet ⊢
  rw [checkInput_vaguer settled related quiet.1]
  exact ⟨.nil, quiet.2⟩

end

/-! ## Aggregations -/

theorem checkStats_vaguer (related : part.Below scope.columns) {command : Command}
    (settled : ∀ field ∈ command.fields, field.settled part = true)
    (grouped : Expr.fieldsSettled part (command.operandsOf "by") = true)
    (quiet : Quiet (command.checkStats scope)) :
    command.checkStats { scope with columns := part } = [] := by
  rw [checkStats] at quiet ⊢
  split
  · rename_i empty
    rw [if_pos empty] at quiet
    exact absurd quiet.faultless (Faultless.not_cons_error rfl _ _)
  · rename_i given
    rw [if_neg given] at quiet
    obtain ⟨fields, groups⟩ := Quiet.append_iff.mp quiet
    rw [(Scope.checkFields_vaguer related grouped groups).1, List.append_nil]
    exact List.flatMap_eq_nil_iff.mpr fun field member =>
      (Scope.checkAggregate_vaguer related (settled field member) (fields.flatMap member)).1

/-- The columns of an aggregation have vaguer types. -/
theorem aggregated_vaguer (related : part.Below scope.columns) {command : Command}
    (settled : ∀ field ∈ command.fields, field.settled part = true)
    (grouped : Expr.fieldsSettled part (command.operandsOf "by") = true)
    (apart : Expr.fieldsApart [] command.groups = true)
    (filtered : (command.fields.all fun field => !field.unfiltered.incomplete) = true)
    (quiet : Quiet (command.checkStats scope)) :
    List.Forall₂ Field.Vaguer
      (command.fields.map (aggregate part) ++ command.groups.map (group part))
      (command.fields.map (aggregate scope.columns) ++
        command.groups.map (group scope.columns)) := by
  rw [checkStats] at quiet
  split at quiet
  · exact absurd quiet.faultless (Faultless.not_cons_error rfl _ _)
  · obtain ⟨fields, groups⟩ := Quiet.append_iff.mp quiet
    refine List.rel_append ?_ ?_
    · rw [List.forall₂_map_left_iff, List.forall₂_map_right_iff, List.forall₂_same]
      intro field member
      have complete := (List.mem_filter.mp member).2
      have inner := List.all_eq_true.mp filtered field member
      rw [Bool.not_eq_true'] at complete inner
      exact aggregate_vaguer complete inner
        (Scope.checkAggregate_vaguer related (settled field member) (fields.flatMap member)).2
    · exact Scope.groups_vaguer related related (fun _ _ => ⟨rfl, rfl⟩) grouped apart groups

/-! ## Commands -/

/-- Everything on which a check without the columns of the source depends is settled. -/
def settled (snapshot : Snapshot) (input : ColumnSet) (command : Command) : Bool :=
  command.keepsListed input && command.listsSettled snapshot input
    && Expr.fieldsApart [] command.groups
    && ColumnSet.aligned (Argument.outputs snapshot input command.args)

theorem plain_vaguer {command : Command} {verb : Verb} {snapshot : Snapshot}
    (named : Verb.ofName? command.name = some verb) (related : part.Below scope.columns)
    (settled : command.settled snapshot.withheld part = true)
    (filtered : command.filtersComplete = true)
    (quiet : Quiet (command.checkPlain scope snapshot verb)) :
    Quiet (command.checkPlain { scope with columns := part } snapshot.withheld verb) ∧
      (command.plainOutput snapshot.withheld part verb).Below
        (command.plainOutput snapshot scope.columns verb) := by
  simp only [Command.settled, Bool.and_eq_true] at settled
  obtain ⟨⟨⟨kept, lists⟩, apart⟩, -⟩ := settled
  rw [listsSettled, named] at lists
  have name := Verb.name_ofName? named
  cases verb with
  | «from» => exact ⟨quiet, (ColumnSet.Below.unknown _).insertSame _⟩
  | ts => exact ⟨quiet, (ColumnSet.Below.unknown _).insertSame _⟩
  | row =>
      have grave := Scope.checkFields_vaguer related lists quiet
      refine ⟨.of_eq_nil grave.1, .refl ?_⟩
      exact (ColumnSet.Within.withFields (.refl ColumnSet.nodup_empty) command.fields).nodup
  | «show» => exact ⟨.nil, .refl (ColumnSet.nodup_ofFields _)⟩
  | eval =>
      obtain ⟨clear, below⟩ := Scope.checkFields_vaguer related lists quiet
      exact ⟨.of_eq_nil clear, below⟩
  | stats =>
      obtain ⟨fields, groups⟩ := (Bool.and_eq_true _ _).mp lists
      rw [List.all_eq_true] at fields
      rw [filtersComplete, named] at filtered
      exact ⟨.of_eq_nil (checkStats_vaguer related fields groups quiet),
        .ofFields (aggregated_vaguer related fields groups apart filtered quiet)⟩
  | inlinestats =>
      obtain ⟨fields, groups⟩ := (Bool.and_eq_true _ _).mp lists
      rw [List.all_eq_true] at fields
      rw [filtersComplete, named] at filtered
      have added := aggregated_vaguer related fields groups apart filtered quiet
      exact ⟨.of_eq_nil (checkStats_vaguer related fields groups quiet),
        related.extend (Field.Vaguer.insertAll added .nil)
          ((known_aggregates command part).trans (known_aggregates command scope.columns).symm)⟩
  | keep =>
      rw [keepsListed, ← name] at kept
      exact ⟨.of_eq_nil (checkKeep_vaguer related quiet.faultless),
        related.keep (by simpa [Verb.name] using kept)⟩
  | drop => exact ⟨.of_eq_nil (checkDrop_vaguer related quiet.faultless), related.drop _⟩
  | rename =>
      obtain ⟨clear, below⟩ := Scope.checkRenamings_vaguer related quiet.faultless
      exact ⟨.of_eq_nil clear, below⟩
  | dissect =>
      rw [List.all_eq_true] at lists
      exact ⟨checkDissect_vaguer lists related quiet, related.insertSame _⟩
  | grok =>
      rw [List.all_eq_true] at lists
      exact ⟨.of_eq_nil (checkInput_vaguer lists related quiet), related.insertSame _⟩
  | enrich =>
      exact ⟨checkEnrich_vaguer related quiet, related.adds (command.enrichOutput_adds snapshot)⟩
  | join =>
      exact ⟨checkJoin_vaguer related lists quiet, related.adds (command.joinOutput_adds snapshot)⟩
  | changePoint =>
      exact ⟨.of_eq_nil (checkChangePoint_vaguer related quiet.faultless), related.insertSame _⟩
  | «where» =>
      rw [List.all_eq_true] at lists
      exact ⟨.of_eq_nil (checkWhere_vaguer lists related quiet), related⟩
  | mvExpand => exact ⟨.of_eq_nil (checkMvExpand_vaguer related quiet.faultless), related⟩
  | sort =>
      rw [List.all_eq_true] at lists
      exact ⟨.of_eq_nil (checkSort_vaguer lists related quiet), related⟩
  | limit => exact ⟨.nil, related⟩
  | sample => exact ⟨quiet, related⟩
  | fork => exact ⟨.nil, related⟩

end Command

section

variable {snapshot : Snapshot} {license? : Option License}

mutual

/-- Where the check of a settled command with the columns of the source is quiet, so is the one
without, and what comes behind the command has vaguer types. -/
theorem Command.check_vaguer (command : Command) {part whole : ColumnSet}
    (related : part.Below whole)
    (settled : command.meets (Command.settled snapshot.withheld) snapshot.withheld part = true)
    (filtered : ∀ visited ∈ command.visited, visited.filtersComplete = true)
    (quiet : Quiet (command.check snapshot license? whole)) :
    Quiet (command.check snapshot.withheld license? part) ∧
      (command.output snapshot.withheld part).Below (command.output snapshot whole) := by
  cases command with
  | mk name qualifier? text span nameSpan args incomplete =>
      rw [Command.meets, Bool.and_eq_true] at settled
      rw [Command.visited, List.forall_mem_cons] at filtered
      let command : Command := ⟨name, qualifier?, text, span, nameSpan, args, incomplete⟩
      cases named : Verb.ofName? command.name with
      | none =>
          rw [Command.check, Command.output, Command.output, named]
          exact ⟨.nil, .refl ColumnSet.nodup_unknown⟩
      | some verb =>
          by_cases fork : verb = .fork
          · subst fork
            rw [Command.check, named] at quiet
            rw [Command.check, Command.output, Command.output, named]
            obtain ⟨count, branches⟩ := Quiet.append_iff.mp quiet
            obtain ⟨here, outputs⟩ :=
              Argument.checkBranches_vaguer args related settled.2 filtered.2 branches
            have own := settled.1
            rw [Command.settled, Bool.and_eq_true] at own
            exact ⟨Quiet.append_iff.mpr ⟨count, here⟩, related.forked outputs own.2⟩
          · rw [command.check_eq_plain named fork] at quiet ⊢
            rw [command.output_eq_plain named fork, command.output_eq_plain named fork]
            exact Command.plain_vaguer named related settled.1 filtered.1 quiet

theorem Argument.checkBranches_vaguer (arguments : List Argument) {part whole : ColumnSet}
    (related : part.Below whole)
    (settled : Argument.allMeet (Command.settled snapshot.withheld) snapshot.withheld part
      arguments = true)
    (filtered : ∀ visited ∈ Argument.visitedIn arguments, visited.filtersComplete = true)
    (quiet : Quiet (Argument.checkBranches snapshot license? whole arguments)) :
    Quiet (Argument.checkBranches snapshot.withheld license? part arguments) ∧
      List.Forall₂ ColumnSet.Below (Argument.outputs snapshot.withheld part arguments)
        (Argument.outputs snapshot whole arguments) := by
  cases arguments with
  | nil => exact ⟨.nil, .nil⟩
  | cons argument rest =>
      rw [Argument.visitedIn, List.forall_mem_append] at filtered
      cases argument with
      | branch branch =>
          cases branch with
          | mk commands span incomplete =>
              rw [Argument.allMeet, Bool.and_eq_true] at settled
              rw [Argument.visited, Pipeline.visited] at filtered
              rw [Argument.checkBranches, Quiet.append_iff] at quiet ⊢
              obtain ⟨here, output⟩ :=
                Command.checkAll_vaguer commands related settled.1 filtered.1 quiet.1
              obtain ⟨behind, outputs⟩ :=
                Argument.checkBranches_vaguer rest related settled.2 filtered.2 quiet.2
              exact ⟨⟨here, behind⟩, .cons output outputs⟩
      | _ => exact Argument.checkBranches_vaguer rest related settled filtered.2 quiet

theorem Command.checkAll_vaguer (commands : List Command) {part whole : ColumnSet}
    (related : part.Below whole)
    (settled : Command.allMeet (Command.settled snapshot.withheld) snapshot.withheld part
      commands = true)
    (filtered : ∀ visited ∈ Command.visitedIn commands, visited.filtersComplete = true)
    (quiet : Quiet (Command.checkAll snapshot license? whole commands)) :
    Quiet (Command.checkAll snapshot.withheld license? part commands) ∧
      (Command.outputOfAll snapshot.withheld part commands).Below
        (Command.outputOfAll snapshot whole commands) := by
  cases commands with
  | nil => exact ⟨.nil, related⟩
  | cons command rest =>
      rw [Command.allMeet, Bool.and_eq_true, Bool.or_eq_true] at settled
      rw [Command.visitedIn, List.forall_mem_append] at filtered
      have step : Quiet (if command.incomplete then [] else
            command.check snapshot.withheld license? part) ∧
          (command.after snapshot.withheld part).Below (command.after snapshot whole) := by
        rw [Command.after, Command.after]
        split
        · exact ⟨.nil, .refl ColumnSet.nodup_unknown⟩
        · rename_i complete
          exact Command.check_vaguer command related (settled.1.resolve_left complete) filtered.1
            (quiet.mono (Command.check_subset_checkAll rest (Bool.eq_false_iff.mpr complete)))
      rw [Command.checkAll, Quiet.append_iff] at quiet ⊢
      obtain ⟨behind, output⟩ :=
        Command.checkAll_vaguer rest step.2 settled.2 filtered.2 quiet.2
      refine ⟨⟨?_, behind⟩, output⟩
      have first := quiet.1
      split
      · rename_i verb named
        rw [named] at first
        dsimp only at first
        split
        · exact .nil
        · rename_i complete
          rw [if_neg complete] at first step
          exact Quiet.append_iff.mpr ⟨(Quiet.append_iff.mp first).1, step.1⟩
      · exact .nil

end

end

/-- A settled query that is quiet with the columns of its source is so without them. -/
theorem quiet_of_withheld {text : String} {snapshot : Snapshot} {license? : Option License}
    (quiet : Quiet ((parse text).pipeline.check snapshot license?))
    (settled : Command.allMeet (Command.settled snapshot.withheld) snapshot.withheld .empty
      (parse text).pipeline.commands = true) :
    Quiet ((parse text).pipeline.check snapshot.withheld license?) := by
  rw [Pipeline.check, Quiet.append_iff, Quiet.append_iff] at quiet ⊢
  obtain ⟨⟨commands, forks⟩, warning⟩ := quiet
  refine ⟨⟨?_, forks⟩, warning⟩
  exact (Command.checkAll_vaguer (parse text).pipeline.commands (.refl ColumnSet.nodup_empty)
    settled (filtersComplete_of_parse text) commands).1

/-- A column of the source that a branch replaces, and a branch in which it is not known. -/
theorem quiet_of_withheld_fork :
    Quiet ((parse "FROM a | FORK (EVAL x = 2) (LIMIT 1) | EVAL z = abs(x)").pipeline.check
        { columns? := some [⟨"x", "long"⟩] } none) ∧
      Command.allMeet
        (Command.settled (Snapshot.withheld { columns? := some [⟨"x", "long"⟩] }))
        (Snapshot.withheld { columns? := some [⟨"x", "long"⟩] }) .empty
        (parse "FROM a | FORK (EVAL x = 2) (LIMIT 1) | EVAL z = abs(x)").pipeline.commands = true ∧
      Quiet ((parse "FROM a | FORK (EVAL x = 2) (LIMIT 1) | EVAL z = abs(x)").pipeline.check
        (Snapshot.withheld { columns? := some [⟨"x", "long"⟩] }) none) := by
  have quiet : Quiet
      ((parse "FROM a | FORK (EVAL x = 2) (LIMIT 1) | EVAL z = abs(x)").pipeline.check
        { columns? := some [⟨"x", "long"⟩] } none) := by decide +kernel
  have settled : Command.allMeet
      (Command.settled (Snapshot.withheld { columns? := some [⟨"x", "long"⟩] }))
      (Snapshot.withheld { columns? := some [⟨"x", "long"⟩] }) .empty
      (parse "FROM a | FORK (EVAL x = 2) (LIMIT 1) | EVAL z = abs(x)").pipeline.commands =
        true := by decide +kernel
  exact ⟨quiet, settled, quiet_of_withheld quiet settled⟩

/-- Each of the five can make an error of what is not known. -/
theorem not_faultless_of_withheld :
    List.Forall
      (fun text => (parse text).errors = [] ∧
        Faultless ((parse text).pipeline.check
          { columns? := some [⟨"x", "long"⟩, ⟨"u", "unsupported"⟩] } none) ∧
        ¬ Faultless ((parse text).pipeline.check
          (Snapshot.withheld { columns? := some [⟨"x", "long"⟩, ⟨"u", "unsupported"⟩] }) none))
      ["FROM a | EVAL y = \"s\" | FORK (KEEP x) (EVAL y = 1) | EVAL z = abs(y)",
        "FROM a | FORK (LIMIT 1) (EVAL x = \"s\") | EVAL z = abs(x)",
        "FROM a | EVAL z = abs([x, \"s\"])",
        "FROM a | STATS c = count(*) BY x = \"s\", b = length(x) | WHERE b",
        "FROM a | STATS u"] := by
  rw [List.forall_iff_forall_mem]
  decide +kernel

end Esql
