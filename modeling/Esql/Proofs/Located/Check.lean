import Esql.Check.Pipeline
import Esql.Proofs.Check.Pointed
import Esql.Proofs.Diagnostic.Wording
import Esql.Proofs.Grammar.Tree
import Esql.Proofs.Grammar.Visited
import Esql.Proofs.Located.Pipeline

/-!
# Where diagnostics point

Whatever is told of a query is a finding about a part of its tree: a node, the name of a command or
the query as a whole. These stand in the text, so a diagnostic never points outside of it and never
cuts a character; and as its parameters follow from the finding, it can be worded anew.
-/

namespace Esql

/-- All diagnostics are findings about places in a text. -/
def Located (source : String) (found : List Diagnostic) : Prop :=
  ∀ diagnostic ∈ found, ∃ (finding : Finding) (span : Span),
    diagnostic = finding.about span ∧ span.Fits source

namespace Located

variable {source : String} {first second : List Diagnostic}

theorem nil : Located source [] := nofun

theorem append (here : Located source first) (there : Located source second) :
    Located source (first ++ second) :=
  List.forall_mem_append.mpr ⟨here, there⟩

theorem cons {finding : Finding} {span : Span} (fits : span.Fits source)
    (rest : Located source first) : Located source (finding.about span :: first) :=
  List.forall_mem_cons.mpr ⟨⟨finding, span, rfl, fits⟩, rest⟩

theorem single {finding : Finding} {span : Span} (fits : span.Fits source) :
    Located source [finding.about span] :=
  cons fits nil

theorem flatMap {α : Type} {check : α → List Diagnostic} {items : List α}
    (each : ∀ item ∈ items, Located source (check item)) :
    Located source (items.flatMap check) := by
  intro diagnostic member
  obtain ⟨item, inside, found⟩ := List.mem_flatMap.mp member
  exact each item inside diagnostic found

theorem map {α : Type} {finding : α → Finding} {span : α → Span} {items : List α}
    (each : ∀ item ∈ items, (span item).Fits source) :
    Located source (items.map fun item => (finding item).about (span item)) := by
  intro diagnostic member
  obtain ⟨item, inside, rfl⟩ := List.mem_map.mp member
  exact ⟨finding item, span item, rfl, each item inside⟩

end Located

variable {source : String}

/-! ## Parts of a tree -/

theorem Expr.Nested.part {expr part : Expr} (nested : expr.Nested source)
    (member : part ∈ expr.children) : part.Nested source :=
  nested.children.sound part member

theorem Expr.Nested.column {expr : Expr} (nested : expr.Nested source) {column : Column}
    (found : expr.column? = some column) : column.span.Fits source := by
  cases expr with
  | column c =>
      cases found
      exact nested.fits
  | _ => cases found

theorem Expr.Nested.literal {expr : Expr} (nested : expr.Nested source) {literal : Literal}
    (found : expr.literal? = some literal) : literal.span.Fits source := by
  cases expr with
  | literal l =>
      cases found
      exact nested.fits
  | _ => cases found

/-- Both sides of an assignment stand in the text. -/
theorem Expr.Nested.assignment {expr value : Expr} {target : Column} (nested : expr.Nested source)
    (found : expr.assignment? = some (target, value)) :
    target.span.Fits source ∧ value.Nested source := by
  rw [assignment?.eq_def] at found
  split at found
  · cases found
    exact ⟨(nested.part List.mem_cons_self).column rfl,
      nested.part (List.mem_cons_of_mem _ List.mem_cons_self)⟩
  · cases found

theorem Expr.Nested.columnAssignment {expr : Expr} {columns : Column × Column}
    (nested : expr.Nested source) (found : expr.columnAssignment? = some columns) :
    columns.1.span.Fits source ∧ columns.2.span.Fits source := by
  obtain ⟨⟨target, value⟩, assigned, rest⟩ := Option.bind_eq_some_iff.mp found
  obtain ⟨column, isColumn, same⟩ := Option.bind_eq_some_iff.mp rest
  cases same
  obtain ⟨fits, inner⟩ := nested.assignment assigned
  exact ⟨fits, inner.column isColumn⟩

theorem Expr.Nested.namedValue {expr : Expr} (nested : expr.Nested source) :
    expr.namedValue.2.Nested source :=
  (nested.of_mem_walk _ expr.namedValue_mem_walk).1

theorem Expr.Nested.unfiltered {expr : Expr} (nested : expr.Nested source) :
    expr.unfiltered.Nested source :=
  (nested.of_mem_walk _ (expr.unfiltered_walk_subset expr.unfiltered.mem_walk)).1

namespace Argument.Nested

variable {argument : Argument}

theorem operand (nested : argument.Nested source) {operand : Expr}
    (member : operand ∈ argument.operands) : operand.Nested source := by
  cases nested with
  | plain noTree fits text operands => exact operands.sound operand member
  | _ => cases member

theorem ofExpr (nested : argument.Nested source) {expr : Expr}
    (found : argument.expr? = some expr) : expr.Nested source := by
  cases nested with
  | expr nested =>
      cases found
      exact nested
  | plain noTree =>
      rw [noTree.1] at found
      cases found
  | branch => cases found

theorem ofBranch (nested : argument.Nested source) {branch : Pipeline}
    (found : argument.branch? = some branch) : branch.Nested source := by
  cases nested with
  | branch nested =>
      cases found
      exact nested
  | plain noTree =>
      rw [noTree.2] at found
      cases found
  | expr => cases found

theorem ofSource (nested : argument.Nested source) {name : Source}
    (found : argument.source? = some name) : name.span.Fits source := by
  cases argument with
  | source s =>
      cases found
      exact nested.fits
  | _ => cases found

/-- A clause and its operands. -/
theorem ofClause (nested : argument.Nested source) {clause : Clause}
    (found : argument.clause? = some clause) :
    clause.span.Fits source ∧ ∀ operand ∈ clause.operands, operand.Nested source := by
  cases argument with
  | clause c =>
      cases found
      exact ⟨nested.fits, fun _ => nested.operand⟩
  | _ => cases found

theorem ofSortedBy (nested : argument.Nested source) {expr : Expr}
    (found : argument.sortedBy? = some expr) : expr.Nested source := by
  cases argument with
  | sortKey k =>
      cases found
      exact nested.operand List.mem_cons_self
  | expr e => exact nested.ofExpr found
  | _ => cases found

/-- Both columns of a renaming, in either of its written forms. -/
theorem ofRenaming (nested : argument.Nested source) {columns : Column × Column}
    (found : argument.renaming? = some columns) :
    columns.1.span.Fits source ∧ columns.2.span.Fits source := by
  rw [renaming?.eq_def] at found
  split at found
  · cases found
  · split at found
    · rename_i clause
      obtain ⟨_, operands⟩ := nested.ofClause rfl
      rw [Clause.renaming?.eq_def] at found
      split at found
      · rename_i same
        cases found
        rw [same] at operands
        exact ⟨(operands _ List.mem_cons_self).column rfl,
          (operands _ (List.mem_cons_of_mem _ List.mem_cons_self)).column rfl⟩
      · cases found
    · obtain ⟨swapped, assigned, rfl⟩ := Option.map_eq_some_iff.mp found
      exact ((nested.ofExpr rfl).columnAssignment assigned).symm
    · cases found

end Argument.Nested

namespace Command.Nested

variable {command : Command} (nested : command.Nested source)

include nested

theorem argument {argument : Argument} (member : argument ∈ command.args) :
    argument.Nested source := by
  cases nested with
  | intro fits text row args => exact args argument member

theorem expr {expr : Expr} (member : expr ∈ command.exprs) : expr.Nested source := by
  obtain ⟨argument, inside, found⟩ := List.mem_filterMap.mp member
  exact (nested.argument inside).ofExpr found

theorem column {column : Column} (member : column ∈ command.columns) : column.span.Fits source := by
  obtain ⟨expr, inside, found⟩ := List.mem_filterMap.mp member
  exact (nested.expr inside).column found

theorem pattern {pattern : Column} (member : pattern ∈ command.patterns) :
    pattern.span.Fits source :=
  nested.column (List.mem_filter.mp member).1

theorem source_fits {name : Source} (member : name ∈ command.sources) :
    name.span.Fits source := by
  obtain ⟨argument, inside, found⟩ := List.mem_filterMap.mp member
  exact (nested.argument inside).ofSource found

theorem leadingSource {name : Source} (found : command.leadingSource? = some name) :
    name.span.Fits source := by
  obtain ⟨argument, first, isSource⟩ :=
    Option.bind_eq_some_iff.mp (Option.filter_eq_some_iff.mp found).1
  exact (nested.argument (List.mem_filter.mp (List.mem_of_head? first)).1).ofSource isSource

theorem clause {clause : Clause} (member : clause ∈ command.clauses) :
    clause.span.Fits source ∧ ∀ operand ∈ clause.operands, operand.Nested source := by
  obtain ⟨argument, inside, found⟩ := List.mem_filterMap.mp member
  exact (nested.argument inside).ofClause found

theorem operandOf {name : String} {operand : Expr} (member : operand ∈ command.operandsOf name) :
    operand.Nested source := by
  obtain ⟨clause, inside, member⟩ := exists_clause_of_operandsOf member
  exact ((nested.argument inside).ofClause rfl).2 operand member

theorem columnOf {name : String} {column : Column} (member : column ∈ command.columnsOf name) :
    column.span.Fits source := by
  obtain ⟨expr, inside, found⟩ := List.mem_filterMap.mp member
  exact (nested.operandOf inside).column found

theorem request {request : String × Column} (member : request ∈ command.requests) :
    request.2.span.Fits source := by
  obtain ⟨operand, inside, found⟩ := List.mem_filterMap.mp member
  have good := nested.operandOf (List.mem_filter.mp inside).1
  rw [requested?.eq_def] at found
  split at found
  · cases found
    exact good.fits
  · obtain ⟨columns, assigned, rfl⟩ := Option.map_eq_some_iff.mp found
    exact (good.columnAssignment assigned).2

end Command.Nested

/-! ## Expressions -/

theorem Scope.located_checkColumn (scope : Scope) {column : Column}
    (fits : column.span.Fits source) : Located source (scope.checkColumn column) := by
  rw [checkColumn]
  split
  · exact .single fits
  · exact .nil

namespace Expr

variable {expr : Expr} (nested : expr.Nested source)

include nested

/-- What is said of an expression is said of its nodes, and these stand in the text. -/
theorem located_check (scope : Scope) (place : Place) (outer? : Option String) :
    Located source (expr.check scope place outer?) := by
  intro diagnostic found
  obtain ⟨finding, -, node, member, same⟩ := expr.pointed_check scope place outer? diagnostic found
  exact ⟨finding, node.span, same, (nested.of_mem_walk node member).1.fits⟩

theorem located_checkTyped (scope : Scope) (place : Place) (fits : FieldType → Bool)
    (expected : String) : Located source (expr.checkTyped scope place fits expected) := by
  have found : Located source (expr.checkAt scope place) := located_check nested scope place none
  rw [checkTyped]
  split
  · split
    · exact .single nested.fits
    · exact found
  · exact found

end Expr

namespace Scope

theorem located_checkFields {fields : List Expr} (nested : ∀ field ∈ fields, field.Nested source)
    (scope : Scope) (place : Place) : Located source (scope.checkFields place fields) := by
  induction fields generalizing scope with
  | nil => exact .nil
  | cons field rest ih =>
      rw [List.forall_mem_cons] at nested
      rw [checkFields]
      split
      · exact ih nested.2 scope
      · exact .append (Expr.located_check nested.1 scope place none) (ih nested.2 _)

theorem located_checkAggregate (scope : Scope) {field : Expr} (nested : field.Nested source) :
    Located source (scope.checkAggregate field) := by
  have value := nested.unfiltered.namedValue.fits
  have found : Located source (field.checkAt scope .stats) :=
    Expr.located_check nested scope .stats none
  rw [checkAggregate]
  split
  · rw [checkAggregated]
    split
    · exact .single value
    · split
      · exact .single value
      · exact .nil
  · exact found

theorem located_checkPattern (scope : Scope) {pattern : Column} (fits : pattern.span.Fits source) :
    Located source (scope.checkPattern pattern) := by
  rw [checkPattern]
  split
  · exact scope.located_checkColumn fits
  · split
    · exact .single fits
    · exact .nil

theorem located_checkRenamings {pairs : List (Column × Column)}
    (fits : ∀ pair ∈ pairs, pair.1.span.Fits source ∧ pair.2.span.Fits source) (scope : Scope) :
    Located source (scope.checkRenamings pairs) := by
  induction pairs generalizing scope with
  | nil => exact .nil
  | cons pair rest ih =>
      obtain ⟨old, new⟩ := pair
      rw [List.forall_mem_cons] at fits
      obtain ⟨here, behind⟩ := fits
      rw [checkRenamings]
      split
      · rename_i pattern found
        refine .cons ?_ (ih behind scope)
        rcases List.mem_cons.mp (List.mem_of_find?_eq_some found) with rfl | inside
        · exact here.1
        · exact List.mem_singleton.mp inside ▸ here.2
      · split
        · exact ih behind _
        · exact .append (scope.located_checkColumn here.1) (ih behind scope)

end Scope

/-! ## Commands -/

namespace Command

variable {command : Command} (nested : command.Nested source) (scope : Scope)

include nested

theorem located_checkColumnsOf (clause : String) :
    Located source (scope.checkColumnsOf command clause) :=
  .flatMap fun _ member => scope.located_checkColumn (nested.columnOf (List.mem_filter.mp member).1)

theorem located_checkSources (snapshot : Snapshot) :
    Located source (command.checkSources snapshot) := by
  refine .append (.flatMap fun name member => ?_) (.flatMap fun clause member => ?_)
  · rw [Snapshot.checkSource]
    split
    · exact .nil
    · split
      · exact .nil
      · exact .single (nested.source_fits member)
  · have found := List.mem_of_find?_eq_some (Option.mem_toList.mp member)
    obtain ⟨fits, operands⟩ := nested.clause found
    rw [Clause.checkMetadata]
    refine .append ?_ (.map fun column inside => ?_)
    · split
      · exact .single fits
      · exact .nil
    · obtain ⟨operand, given, isColumn⟩ := List.mem_filterMap.mp (List.mem_filter.mp inside).1
      exact (operands operand given).column isColumn

theorem located_checkKeep : Located source (command.checkKeep scope) :=
  .flatMap fun _ member => scope.located_checkPattern (nested.pattern member)

theorem located_checkDrop : Located source (command.checkDrop scope) := by
  rw [checkDrop]
  split
  · rename_i found
    exact .single (nested.pattern (List.mem_of_find?_eq_some found))
  · exact located_checkKeep nested scope

theorem located_checkRename : Located source (command.checkRename scope) := by
  refine Scope.located_checkRenamings (fun pair member => ?_) scope
  obtain ⟨argument, inside, found⟩ := List.mem_filterMap.mp member
  exact (nested.argument inside).ofRenaming found

theorem located_checkMvExpand : Located source (command.checkMvExpand scope) :=
  .flatMap fun _ member => scope.located_checkColumn (nested.pattern member)

theorem located_checkChangePoint : Located source (command.checkChangePoint scope) := by
  rw [checkChangePoint]
  split
  · rename_i value found
    have fits := nested.column (List.mem_of_head? (Option.filter_eq_some_iff.mp found).1)
    refine .append ?_ (located_checkColumnsOf nested scope "on")
    have missing := scope.located_checkColumn fits
    rw [checkNumeric]
    split
    · split
      · exact .nil
      · exact .single fits
    · exact missing
  · exact .nil

theorem located_checkEnrich (snapshot : Snapshot) :
    Located source (command.checkEnrich scope snapshot) := by
  rw [checkEnrich]
  split
  · exact .nil
  · rename_i name found
    have fits := nested.leadingSource found
    refine .append (.append (.append ?_ ?_) (located_checkColumnsOf nested scope "on"))
      (.flatMap fun policy _ => .map fun request member => ?_)
    · rw [checkMode]
      split
      · exact .single fits
      · exact .nil
    · split
      · exact .single fits
      · exact .nil
    · exact nested.request (List.mem_filter.mp member).1

theorem located_checkJoin (snapshot : Snapshot) :
    Located source (command.checkJoin scope snapshot) := by
  rw [checkJoin]
  split
  · exact .nil
  · rename_i name found
    split
    · exact .single (nested.leadingSource found)
    · exact .flatMap fun condition member =>
        Expr.located_check (nested.operandOf (List.mem_filter.mp member).1) _ .join none

theorem located_checkWhere : Located source (command.checkWhere scope) := by
  rw [checkWhere]
  split
  · rename_i condition found
    exact Expr.located_checkTyped (nested.expr (List.mem_of_head? found)) scope .where _ _
  · exact .nil

theorem located_checkStats : Located source (command.checkStats scope) := by
  rw [checkStats]
  split
  · exact .single nested.fits
  · exact .append
      (.flatMap fun field member =>
        scope.located_checkAggregate (nested.expr (List.mem_filter.mp member).1))
      (Scope.located_checkFields (fun _ => nested.operandOf) scope .statsBy)

theorem located_checkSort : Located source (command.checkSort scope) := by
  refine .flatMap fun expr member => ?_
  obtain ⟨argument, inside, found⟩ := List.mem_filterMap.mp member
  exact Expr.located_check ((nested.argument (List.mem_filter.mp inside).1).ofSortedBy found) scope
    .sort none

theorem located_checkInput (place : Place) : Located source (command.checkInput scope place) := by
  rw [checkInput]
  split
  · rename_i input found
    obtain ⟨argument, first, isExpr⟩ :=
      Option.bind_eq_some_iff.mp (Option.filter_eq_some_iff.mp found).1
    have inside := (List.mem_filter.mp (List.mem_of_head? first)).1
    exact Expr.located_checkTyped ((nested.argument inside).ofExpr isExpr) scope place _ _
  · exact .nil

theorem located_checkDissect : Located source (command.checkDissect scope) := by
  refine .append (located_checkInput nested scope .dissect) (.flatMap fun clause member => ?_)
  obtain ⟨fits, operands⟩ := nested.clause (List.mem_filter.mp member).1
  rw [Clause.checkDissectSetting]
  split
  · exact .single fits
  · split
    · rename_i value first
      split
      · exact .nil
      · exact .single (operands value (List.mem_of_head? first)).fits
    · exact .nil

theorem located_checkSample : Located source command.checkSample := by
  rw [checkSample]
  split
  · rename_i literal found
    obtain ⟨expr, first, isLiteral⟩ := Option.bind_eq_some_iff.mp found
    split
    · exact .nil
    · exact .single ((nested.expr (List.mem_of_head? first)).literal isLiteral)
  · exact .nil

theorem located_checkPlain (snapshot : Snapshot) (verb : Verb) :
    Located source (command.checkPlain scope snapshot verb) := by
  have fields (place : Place) : Located source (scope.checkFields place command.exprs) :=
    Scope.located_checkFields (fun _ => nested.expr) scope place
  cases verb with
  | «from» => exact located_checkSources nested snapshot
  | ts => exact located_checkSources nested snapshot
  | row => exact fields .row
  | eval => exact fields .eval
  | «where» => exact located_checkWhere nested scope
  | stats => exact located_checkStats nested scope
  | inlinestats => exact located_checkStats nested scope
  | keep => exact located_checkKeep nested scope
  | drop => exact located_checkDrop nested scope
  | rename => exact located_checkRename nested scope
  | mvExpand => exact located_checkMvExpand nested scope
  | sort => exact located_checkSort nested scope
  | sample => exact located_checkSample nested
  | dissect => exact located_checkDissect nested scope
  | grok => exact located_checkInput nested scope .grok
  | enrich => exact located_checkEnrich nested scope snapshot
  | join => exact located_checkJoin nested scope snapshot
  | changePoint => exact located_checkChangePoint nested scope
  | _ => exact .nil

end Command

/-- What requires a tier is told of the name of the command. -/
theorem Command.located_checkLicense {command : Command} (named : command.Named source)
    (verb : Verb) (license? : Option License) :
    Located source (command.checkLicense verb license?) := by
  rw [checkLicense]
  split
  · exact .single named.fits
  · exact .nil

mutual

theorem Command.located_check {command : Command} (nested : command.Nested source)
    (named : ∀ visited ∈ command.visited, visited.Named source) (snapshot : Snapshot)
    (license? : Option License) (input : ColumnSet) :
    Located source (command.check snapshot license? input) := by
  cases command with
  | mk name qualifier? text span nameSpan args incomplete =>
      let command : Command := ⟨name, qualifier?, text, span, nameSpan, args, incomplete⟩
      cases known : Verb.ofName? command.name with
      | none =>
          rw [Command.check, known]
          exact .nil
      | some verb =>
          by_cases fork : verb = .fork
          · subst fork
            rw [Command.check, known]
            refine .append ?_ (Argument.located_checkBranches (fun _ => nested.argument)
              (List.forall_mem_cons.mp named).2 snapshot license? input)
            rw [Command.checkBranchCount]
            split
            · exact .single nested.fits
            · exact .nil
          · rw [command.check_eq_plain known fork]
            exact Command.located_checkPlain nested _ snapshot verb

theorem Argument.located_checkBranches {args : List Argument}
    (nested : ∀ argument ∈ args, argument.Nested source)
    (named : ∀ visited ∈ Argument.visitedIn args, visited.Named source) (snapshot : Snapshot)
    (license? : Option License) (input : ColumnSet) :
    Located source (Argument.checkBranches snapshot license? input args) := by
  cases args with
  | nil => exact .nil
  | cons argument rest =>
      rw [List.forall_mem_cons] at nested
      rw [Argument.visitedIn, List.forall_mem_append] at named
      have behind := Argument.located_checkBranches nested.2 named.2 snapshot license? input
      cases argument with
      | branch branch =>
          cases branch with
          | mk commands span incomplete =>
              have inner := (nested.1.ofBranch rfl)
              exact .append (Command.located_checkAll (fun _ => inner.command) named.1 snapshot
                license? input) behind
      | _ => exact behind

theorem Command.located_checkAll {commands : List Command}
    (nested : ∀ command ∈ commands, command.Nested source)
    (named : ∀ visited ∈ Command.visitedIn commands, visited.Named source) (snapshot : Snapshot)
    (license? : Option License) (input : ColumnSet) :
    Located source (Command.checkAll snapshot license? input commands) := by
  cases commands with
  | nil => exact .nil
  | cons command rest =>
      rw [List.forall_mem_cons] at nested
      rw [Command.visitedIn, List.forall_mem_append] at named
      rw [Command.checkAll]
      refine .append ?_ (Command.located_checkAll nested.2 named.2 snapshot license? _)
      split
      · split
        · exact .nil
        · exact .append
            (Command.located_checkLicense (named.1 command command.mem_visited) _ license?)
            (Command.located_check nested.1 named.1 snapshot license? input)
      · exact .nil

end

/-- Everything that is told of the tree of a text, its grammar aside, is told of a place in it. -/
theorem Pipeline.located_check {query : Pipeline} (nested : query.Nested source)
    (named : ∀ command ∈ Command.visitedIn query.commands, command.Named source)
    (snapshot : Snapshot) (license? : Option License) :
    Located source (query.check snapshot license?) := by
  refine .append (.append (Command.located_checkAll (fun _ => nested.command) named snapshot
    license? .empty) ?_) ?_
  · rw [checkForkCount]
    split
    · rename_i second rest forks
      have member : second ∈ query.visited :=
        (List.mem_filter.mp (List.mem_of_mem_tail (forks ▸ List.mem_cons_self))).1
      rw [Pipeline.visited_eq] at member
      exact .single (named second member).fits
    · exact .nil
  · rw [Snapshot.warning?]
    cases snapshot.failures.head? with
    | none => exact .nil
    | some reason => exact .single nested.fits

/-- A diagnostic that points at a place in a text and can be worded anew from its notice and its
parameters. -/
structure Diagnostic.Sound (source : String) (diagnostic : Diagnostic) : Prop where
  ordered : diagnostic.span.start ≤ diagnostic.span.stop
  inside : diagnostic.span.stop ≤ Text.byteLength source
  starts : Text.IsBoundary source.toList diagnostic.span.start
  stops : Text.IsBoundary source.toList diagnostic.span.stop
  severity : diagnostic.severity = diagnostic.notice.severity
  /-- The parameters are those that the wording of the notice names. -/
  params : ∀ name, name ∈ diagnostic.params.map Prod.fst ↔
    name ∈ Template.names diagnostic.notice.wording
  text : diagnostic.text = Template.fill diagnostic.notice.wording diagnostic.params

theorem Located.sound {found : List Diagnostic} (located : Located source found) :
    ∀ diagnostic ∈ found, diagnostic.Sound source := by
  intro diagnostic member
  obtain ⟨finding, span, rfl, fits⟩ := located diagnostic member
  exact ⟨fits.ordered, fits.stop_le, fits.starts, fits.stops, rfl,
    finding.mem_names_about span, rfl⟩

/-- Whatever a collaborator answers and whatever the tier is, all that is told of a text points at a
place in the text, with the severity, the parameters and the text that its notice asks for. -/
theorem validate_sound {m : Type → Type} [Monad m] (collaborator : Collaborator m)
    (license? : Option License) (text : String) :
    ∃ answer : Snapshot → List Diagnostic,
      (∀ snapshot, ∀ diagnostic ∈ answer snapshot, diagnostic.Sound text) ∧
      validate collaborator license? text = do
        return answer (← Snapshot.collect collaborator text (parse text).pipeline) := by
  refine ⟨fun snapshot =>
    (parse text).diagnostics ++ (parse text).pipeline.check snapshot license?, ?_, rfl⟩
  intro snapshot
  refine Located.sound (.append (.map (Grammar.fits_errors_parse text)) ?_)
  exact Pipeline.located_check (nested_parse text) (named_visited text) snapshot license?

end Esql
