import Esql.Proofs.Check.Aggregated
import Esql.Proofs.Traced.Aggregation
import Esql.Proofs.Traced.Arguments

/-!
# Aggregations inside aggregations

A check carries the name of the nearest aggregation along: into what is assigned and what is
filtered, through operators, lists, casts and functions that do not exist. So it tells of every call
of an aggregation that stands inside another one. What it passes over, a target or a star that
counts rows, holds no call.
-/

namespace Esql

/-- A call of an aggregation inside another one, with the nearest one around it. -/
def Enclosed.nested? (inner : Enclosed) : Option (Expr × String) := do
  let _ ← inner.node.aggregation?
  pure (inner.node, ← Expr.nearest? inner.around)

/-- The calls of aggregations inside others, in the order of a walk. -/
def Expr.nestedCalls (expr : Expr) : List (Expr × String) :=
  expr.enclosed.filterMap Enclosed.nested?

namespace Diagnostic

/-- The diagnostic says that an aggregation stands inside another one. -/
def isNesting (diagnostic : Diagnostic) : Bool := diagnostic.notice == .aggInAggFunction

/-- What is said of a call of an aggregation inside another one. -/
def ofNested (nested : Expr × String) : Diagnostic :=
  (Finding.nestedAggregation nested.1.text nested.2).about nested.1.span

end Diagnostic

/-- What is said of a node. -/
def Enclosed.nesting? (inner : Enclosed) : Option Diagnostic :=
  inner.nested?.map Diagnostic.ofNested

/-! ## Expressions -/

theorem Scope.filter_isNesting_checkValue (scope : Scope) (column : Column) :
    (scope.checkValue column).filter Diagnostic.isNesting = [] := by
  rw [checkValue, checkColumn]
  split
  · rfl
  · split <;> rfl

namespace Callable

variable (callable : Callable) (scope : Scope)

theorem filter_isNesting_checkPlace (place : Place) (span : Span) :
    (callable.checkPlace scope place span).filter Diagnostic.isNesting = [] := by
  rw [checkPlace]
  split
  · rfl
  · split <;> rfl

theorem filter_isNesting_checkCall (args : List Expr) (givens : List Given) (span : Span) :
    (callable.checkCall scope args givens span).filter Diagnostic.isNesting = [] := by
  rw [checkCall]
  split
  · rw [checkLicense]
    split <;> rfl
  · rfl
  all_goals split <;> rfl

theorem filter_isNesting_checkNesting (outer? : Option String) (extent : Extent) :
    (callable.checkNesting outer? extent).filter Diagnostic.isNesting =
      callable.checkNesting outer? extent := by
  cases outer? with
  | none => rfl
  | some outer =>
      rw [checkNesting]
      split <;> rfl

end Callable

namespace Expr

variable {text : String}

theorem map_nestedCalls (expr : Expr) :
    expr.nestedCalls.map Diagnostic.ofNested = expr.enclosed.filterMap Enclosed.nesting? :=
  List.map_filterMap

/-- Of a node that calls no aggregation only the parts are told of. -/
theorem filterMap_nesting?_of_none {expr : Expr} (plain : expr.aggregation? = none)
    (around : List Expr) :
    (expr.enclosedIn around).filterMap Enclosed.nesting? =
      (allEnclosedIn (expr :: around) expr.children).filterMap Enclosed.nesting? := by
  rw [filterMap_enclosedIn, Enclosed.nesting?, Enclosed.nested?, plain]
  rfl

/-- A callable that is found says of its call what there is to say of the node, and is around the
arguments. -/
theorem checkNesting_eq {name : String} {form : Form} {args : List Expr} {extent : Extent}
    (traced : (apply name form args extent).NodeTraced text) {callable : Callable}
    (named : Callable.named? name = some callable) (around : List Expr) :
    callable.checkNesting (nearest? around) extent =
        (Enclosed.nesting? ⟨around, apply name form args extent⟩).toList ∧
      callable.around (nearest? around) = nearest? (apply name form args extent :: around) := by
  obtain ⟨aggregation, same⟩ := Callable.isAggregationName_of_named? named
  have called : (apply name form args extent).aggregation? =
      if callable.isAggregation then some name else none := by
    rw [aggregation?_of_traced traced, functionName?, Option.filter_some, aggregation]
  rw [Callable.checkNesting.eq_def, Enclosed.nesting?, Enclosed.nested?, nearest?_cons, called,
    Callable.around, same]
  cases callable.isAggregation <;> cases nearest? around <;> exact ⟨rfl, rfl⟩

/-- A star that counts rows is a column. -/
theorem exists_column_of_countsRows {function? : Option String} {expr : Expr}
    (counts : function?.any expr.countsRows = true) : ∃ column, expr = .column column := by
  cases function? with
  | none => cases counts
  | some function =>
      rw [Option.any_some, countsRows, Bool.and_eq_true] at counts
      cases expr with
      | column c => exact ⟨c, rfl⟩
      | _ => exact absurd counts.2 Bool.false_ne_true

mutual

/-- A check that is told of the nearest aggregation tells of each call of an aggregation inside
another one. -/
theorem filter_isNesting_check (expr : Expr) (whole : expr.Whole) (traced : expr.Traced text)
    (scope : Scope) (place : Place) {outer? : Option String} {around : List Expr}
    (inside : nearest? around = outer?) :
    (expr.check scope place outer?).filter Diagnostic.isNesting =
      (expr.enclosedIn around).filterMap Enclosed.nesting? := by
  obtain ⟨complete, saturated⟩ := whole expr expr.mem_walk
  have parts {part : Expr} (member : part ∈ expr.children) : part.Whole ∧ part.Traced text :=
    ⟨whole.part member, traced.part member⟩
  -- Whatever calls no aggregation leaves the nearest one to its parts.
  have below (plain : expr.aggregation? = none) : nearest? (expr :: around) = outer? :=
    (nearest?_cons_of_none plain around).trans inside
  cases expr with
  | literal l => rw [filterMap_nesting?_of_none rfl, check]; rfl
  | column c =>
      have complete : c.incomplete = false := complete
      rw [filterMap_nesting?_of_none rfl, check, complete]
      exact scope.filter_isNesting_checkValue c
  | interval i =>
      rw [filterMap_nesting?_of_none rfl, check]
      split <;> rfl
  | list items extent =>
      have complete : extent.incomplete = false := complete
      rw [filterMap_nesting?_of_none rfl, check, complete]
      exact filter_isNesting_checkAll items (fun _ => parts) scope place none (below rfl)
  | cast value target extent =>
      have complete : extent.incomplete = false := complete
      obtain ⟨whole, traced⟩ := parts (List.mem_singleton_self value)
      rw [filterMap_nesting?_of_none rfl, check, complete, children, allEnclosedIn_singleton]
      exact filter_isNesting_check value whole traced scope place (below rfl)
  | apply name form args extent =>
      have complete : extent.incomplete = false := complete
      rw [check.eq_def]
      dsimp only
      rw [complete, if_neg Bool.false_ne_true]
      split
      · rename_i assignment
        obtain ⟨rfl, rfl⟩ : name = "=" ∧ form = .binary := by simpa using assignment
        obtain ⟨target, value, rfl⟩ := exists_operands saturated
        obtain ⟨column, rfl⟩ := traced.here.exists_target rfl rfl rfl
        obtain ⟨whole, traced⟩ := parts (.tail _ (.head _))
        rw [filterMap_nesting?_of_none rfl, children, allEnclosedIn, allEnclosedIn_singleton,
          List.filterMap_append, filterMap_nesting?_of_none rfl]
        exact filter_isNesting_check value whole traced scope place (below rfl)
      · split
        · rename_i filter
          obtain ⟨rfl, rfl⟩ : name = "where" ∧ form = .binary := by simpa using filter
          obtain ⟨filtered, condition, rfl⟩ := exists_operands saturated
          obtain ⟨whole, traced⟩ := parts (.head _)
          obtain ⟨wholeToo, tracedToo⟩ := parts (.tail _ (.head _))
          rw [filterMap_nesting?_of_none rfl, children, allEnclosedIn, allEnclosedIn_singleton,
            List.filterMap_append, List.filter_append,
            filter_isNesting_check filtered whole traced scope place (below rfl),
            filter_isNesting_check condition wholeToo tracedToo scope .statsWhere (below rfl)]
        · cases named : Callable.named? name with
          | none =>
              have plain : (apply name form args extent).aggregation? = none := by
                rw [aggregation?_of_traced traced.here, functionName?, Option.filter_some,
                  Callable.isAggregationName, named]
                rfl
              rw [filterMap_nesting?_of_none plain]
              exact filter_isNesting_checkAll args (fun _ => parts) scope place none (below plain)
          | some callable =>
              obtain ⟨told, deeper⟩ := checkNesting_eq traced.here named around
              rw [inside] at told deeper
              dsimp only
              rw [List.filter_append, List.filter_append, List.filter_append,
                callable.filter_isNesting_checkPlace, callable.filter_isNesting_checkNesting,
                callable.filter_isNesting_checkCall, List.nil_append, List.append_nil, told,
                filterMap_enclosedIn]
              exact congrArg _
                (filter_isNesting_checkAll args (fun _ => parts) scope place _ deeper.symm)

theorem filter_isNesting_checkAll (exprs : List Expr)
    (each : ∀ expr ∈ exprs, expr.Whole ∧ expr.Traced text) (scope : Scope) (place : Place)
    (function? : Option String) {outer? : Option String} {around : List Expr}
    (inside : nearest? around = outer?) :
    (checkAll scope place outer? function? exprs).filter Diagnostic.isNesting =
      (allEnclosedIn around exprs).filterMap Enclosed.nesting? := by
  cases exprs with
  | nil => rfl
  | cons expr rest =>
      obtain ⟨⟨whole, traced⟩, others⟩ := List.forall_mem_cons.mp each
      rw [checkAll, allEnclosedIn, List.filter_append, List.filterMap_append,
        filter_isNesting_checkAll rest others scope place function? inside]
      congr 1
      split
      · rename_i counts
        obtain ⟨column, rfl⟩ := exists_column_of_countsRows counts
        rw [filterMap_nesting?_of_none rfl]
        rfl
      · exact filter_isNesting_check expr whole traced scope place inside

end

end Expr

/-! ## Aggregated fields -/

/-- No finding about an expression is that it is not aggregated as it should be. -/
theorem Finding.notice_of_isOfExpr {finding : Finding} (told : finding.isOfExpr = true) :
    finding.notice ≠ .noAggFunction ∧ finding.notice ≠ .expressionNotAggClosed := by
  cases finding with
  | noAggregation command value => cases told
  | aggregationNotClosed command value => cases told
  | _ => exact ⟨nofun, nofun⟩

namespace Scope

variable {text : String} (scope : Scope)

/-- Whether a value is aggregated follows from the aggregations that it calls and the columns
outside of them. -/
theorem checkAggregated_eq {value : Expr} (traced : value.Traced text) :
    scope.checkAggregated value =
      if value.aggregations = [] then
        [(Finding.noAggregation scope.command value.text).about value.span]
      else if value.openColumns = [] then []
      else [(Finding.aggregationNotClosed scope.command value.text).about value.span] := by
  have called := Expr.hasAggregation_iff traced
  have closed : value.aggregationClosed = true ↔ value.openColumns = [] :=
    value.aggregationClosed_iff rfl
  rw [checkAggregated]
  by_cases plain : value.aggregations = []
  · rw [if_pos plain, Bool.eq_false_iff.mpr fun has => called.mp has plain]
    rfl
  · rw [if_neg plain, called.mpr plain]
    by_cases covered : value.openColumns = []
    · rw [if_pos covered, closed.mpr covered]
      rfl
    · rw [if_neg covered, Bool.eq_false_iff.mpr (covered ∘ closed.mp)]
      rfl

/-- A value is told of as not closed if it calls an aggregation and has a column outside of all. -/
theorem exists_notClosed_iff {value : Expr} (traced : value.Traced text) :
    (∃ diagnostic ∈ scope.checkAggregated value, diagnostic.notice = .expressionNotAggClosed) ↔
      value.aggregations ≠ [] ∧ value.openColumns ≠ [] := by
  rw [scope.checkAggregated_eq traced]
  split
  · rename_i plain
    simp only [List.mem_singleton, exists_eq_left]
    exact iff_of_false Notice.noConfusion fun both => both.1 plain
  · rename_i called
    split
    · rename_i covered
      exact iff_of_false (fun ⟨_, absent, _⟩ => nomatch absent) fun both => both.2 covered
    · rename_i uncovered
      simp only [List.mem_singleton, exists_eq_left]
      exact iff_of_true rfl ⟨called, uncovered⟩

/-- A value is told of as not aggregated if it calls no aggregation. -/
theorem exists_noAggregation_iff {value : Expr} (traced : value.Traced text) :
    (∃ diagnostic ∈ scope.checkAggregated value, diagnostic.notice = .noAggFunction) ↔
      value.aggregations = [] := by
  rw [scope.checkAggregated_eq traced]
  split
  · rename_i plain
    simp only [List.mem_singleton, exists_eq_left]
    exact iff_of_true rfl plain
  · rename_i called
    refine iff_of_false ?_ called
    split
    · exact fun ⟨_, absent, _⟩ => nomatch absent
    · simp only [List.mem_singleton, exists_eq_left]
      exact Notice.noConfusion

/-- Whether a field is aggregated is only said where nothing is said of its expression. -/
theorem exists_checkAggregate_iff (field : Expr) {notice : Notice}
    (own : notice = .noAggFunction ∨ notice = .expressionNotAggClosed) :
    (∃ diagnostic ∈ scope.checkAggregate field, diagnostic.notice = notice) ↔
      field.checkAt scope .stats = [] ∧
        ∃ diagnostic ∈ scope.checkAggregated field.unfiltered.namedValue.2,
          diagnostic.notice = notice := by
  rw [checkAggregate]
  cases told : field.checkAt scope .stats with
  | nil => exact (and_iff_right rfl).symm
  | cons first rest =>
      refine iff_of_false ?_ fun both => absurd both.1 (List.cons_ne_nil first rest)
      rintro ⟨diagnostic, found, rfl⟩
      have said : diagnostic ∈ field.checkAt scope .stats := by
        rw [told]
        exact found
      obtain ⟨finding, ofExpr, node, -, rfl⟩ :=
        field.pointed_check scope .stats none diagnostic said
      obtain ⟨plain, covered⟩ := Finding.notice_of_isOfExpr ofExpr
      exact own.elim plain covered

/-- What is said of an aggregated field tells of the calls of aggregations inside others. -/
theorem filter_isNesting_checkAggregate {field : Expr} (whole : field.Whole)
    (traced : field.Traced text) :
    (scope.checkAggregate field).filter Diagnostic.isNesting =
      field.nestedCalls.map Diagnostic.ofNested := by
  have nested : (field.checkAt scope .stats).filter Diagnostic.isNesting =
      field.nestedCalls.map Diagnostic.ofNested :=
    (field.filter_isNesting_check whole traced scope .stats rfl).trans field.map_nestedCalls.symm
  rw [checkAggregate]
  cases told : field.checkAt scope .stats with
  | nil =>
      rw [told] at nested
      rw [← nested]
      dsimp only
      rw [checkAggregated]
      split
      · rfl
      · split <;> rfl
  | cons first rest => rw [← nested, told]

theorem filter_isNesting_checkFields (fields : List Expr) (place : Place)
    (read : ∀ field ∈ complete fields, field.Whole ∧ field.Traced text) :
    (scope.checkFields place fields).filter Diagnostic.isNesting =
      ((complete fields).flatMap Expr.nestedCalls).map Diagnostic.ofNested := by
  induction fields generalizing scope with
  | nil => rfl
  | cons field rest ih =>
      rw [complete, List.filter_cons] at read ⊢
      cases marked : field.incomplete with
      | true =>
          rw [marked] at read
          rw [checkFields, marked]
          exact ih scope read
      | false =>
          rw [marked, Bool.not_false, if_pos rfl] at read
          obtain ⟨⟨whole, traced⟩, others⟩ := List.forall_mem_cons.mp read
          rw [checkFields, marked, if_neg Bool.false_ne_true, Bool.not_false, if_pos rfl,
            List.filter_append, List.flatMap_cons, List.map_append, ih _ others,
            Expr.map_nestedCalls]
          exact congrArg (· ++ _) (field.filter_isNesting_check whole traced scope place rfl)

end Scope

namespace Command

variable {text : String} {command : Command}

/-- A complete expression in the tree of a text was read to its end, by the grammar. -/
theorem read_of_visited (visited : command ∈ (parse text).pipeline.visited) {expr : Expr}
    (below : ∀ node ∈ expr.walk, Node.expr node ∈ command.walk)
    (complete : expr.incomplete = false) : expr.Whole ∧ expr.Traced text := by
  refine ⟨whole_of_visited visited (below expr expr.mem_walk) complete, fun node inside => ?_⟩
  rw [Pipeline.visited_eq] at visited
  exact traced_visited visited (below node inside)

theorem read_of_fields (visited : command ∈ (parse text).pipeline.visited) :
    ∀ field ∈ command.fields, field.Whole ∧ field.Traced text := by
  intro field member
  obtain ⟨given, complete⟩ := List.mem_filter.mp member
  rw [Bool.not_eq_true'] at complete
  exact read_of_visited visited (fun _ => walk_of_exprs given) complete

theorem read_of_groups (visited : command ∈ (parse text).pipeline.visited) :
    ∀ group ∈ command.groups, group.Whole ∧ group.Traced text := by
  intro group member
  obtain ⟨given, complete⟩ := List.mem_filter.mp member
  rw [Bool.not_eq_true'] at complete
  exact read_of_visited visited (fun _ => walk_of_operandsOf given) complete

theorem filter_isNesting_checkStats (visited : command ∈ (parse text).pipeline.visited)
    (scope : Scope) :
    (command.checkStats scope).filter Diagnostic.isNesting =
      ((command.fields ++ command.groups).flatMap Expr.nestedCalls).map Diagnostic.ofNested := by
  rw [checkStats]
  split
  · rename_i empty
    have nothing : command.args = [] := List.isEmpty_iff.mp empty
    rw [fields, groups, exprs, operandsOf, clause?, nothing]
    rfl
  · rw [List.filter_append, List.flatMap_append, List.map_append, groups,
      scope.filter_isNesting_checkFields _ _ (read_of_groups visited)]
    congr 1
    rw [List.filter_flatMap, List.map_flatMap]
    refine List.flatMap_congr fun field member => ?_
    obtain ⟨whole, traced⟩ := read_of_fields visited field member
    exact scope.filter_isNesting_checkAggregate whole traced

/-- In every scope, an aggregation of a text is told of the calls of aggregations that stand inside
others, in the order in which a walk comes to them, and of each with the nearest one around it. Of
a field whose expression has no fault it is told that it is not closed if and only if its value
calls an aggregation and has a column outside of all that it calls, and that it is not aggregated if
and only if its value calls none. -/
theorem aggregations_checkStats (visited : command ∈ (parse text).pipeline.visited)
    (scope : Scope) :
    (command.checkStats scope).filter Diagnostic.isNesting =
        ((command.fields ++ command.groups).flatMap Expr.nestedCalls).map Diagnostic.ofNested ∧
      ∀ field ∈ command.fields,
        field.enclosed.map Enclosed.node = field.walk ∧
        (scope.checkAggregate field).filter Diagnostic.isNesting =
          field.nestedCalls.map Diagnostic.ofNested ∧
        ((∃ diagnostic ∈ scope.checkAggregate field,
            diagnostic.notice = .expressionNotAggClosed) ↔
          field.checkAt scope .stats = [] ∧ field.unfiltered.namedValue.2.aggregations ≠ [] ∧
            field.unfiltered.namedValue.2.openColumns ≠ []) ∧
        ((∃ diagnostic ∈ scope.checkAggregate field, diagnostic.notice = .noAggFunction) ↔
          field.checkAt scope .stats = [] ∧
            field.unfiltered.namedValue.2.aggregations = []) := by
  refine ⟨filter_isNesting_checkStats visited scope, fun field member => ?_⟩
  obtain ⟨whole, traced⟩ := read_of_fields visited field member
  have value : field.unfiltered.namedValue.2.Traced text := fun node below =>
    traced node (field.unfiltered_walk_subset (field.unfiltered.namedValue_walk_subset below))
  refine ⟨field.enclosedIn_node [], scope.filter_isNesting_checkAggregate whole traced, ?_, ?_⟩
  · rw [scope.exists_checkAggregate_iff field (.inr rfl), scope.exists_notClosed_iff value]
  · rw [scope.exists_checkAggregate_iff field (.inl rfl), scope.exists_noAggregation_iff value]

/-- Aggregations under an operator, a list, a cast and a function that does not exist, then a field
with a column outside, and one without aggregation. -/
theorem aggregations_checkStats_deep :
    ∃ scope : Scope, ∃ command ∈
        (parse "FROM a | STATS max(-avg(x) + nope([min(sum(y)::long)])), avg(x) + y, y"
          ).pipeline.visited,
      (command.checkStats scope).filter Diagnostic.isNesting =
        [(Finding.nestedAggregation "avg(x)" "max").about ⟨20, 26⟩,
          (Finding.nestedAggregation "min(sum(y)::long)" "max").about ⟨35, 52⟩,
          (Finding.nestedAggregation "sum(y)" "min").about ⟨39, 45⟩] ∧
      (∃ field ∈ command.fields, ∃ diagnostic ∈ scope.checkAggregate field,
        diagnostic.notice = .expressionNotAggClosed) ∧
      ∃ field ∈ command.fields, ∃ diagnostic ∈ scope.checkAggregate field,
        diagnostic.notice = .noAggFunction := by
  have only : (aggregating
      "FROM a | STATS max(-avg(x) + nope([min(sum(y)::long)])), avg(x) + y, y").map
      (fun command => (((command.fields ++ command.groups).flatMap Expr.nestedCalls).map
          fun nested => (nested.1.text, nested.2, nested.1.span),
        command.fields.map fun field =>
          ((field.checkAt ⟨⟨[⟨"x", some .long, false⟩, ⟨"y", some .long, false⟩], true⟩, none,
              "STATS"⟩ .stats).isEmpty,
            field.unfiltered.namedValue.2.aggregations.isEmpty,
            field.unfiltered.namedValue.2.openColumns.isEmpty))) =
      [([("avg(x)", "max", ⟨20, 26⟩), ("min(sum(y)::long)", "max", ⟨35, 52⟩),
          ("sum(y)", "min", ⟨39, 45⟩)],
        [(false, false, true), (true, false, false), (true, true, false)])] := by decide +kernel
  generalize Scope.mk ⟨[⟨"x", some .long, false⟩, ⟨"y", some .long, false⟩], true⟩ none "STATS" =
    scope at only
  obtain ⟨command, found, same⟩ := List.map_eq_singleton_iff.mp only
  obtain ⟨nested, fields⟩ := Prod.mk.inj same
  have inside : command ∈ aggregating _ := found ▸ List.mem_singleton_self command
  have visited := (mem_aggregating.mp inside).1
  obtain ⟨told, each⟩ := aggregations_checkStats visited scope
  have one {read : Bool × Bool × Bool}
      (member : read ∈ [(false, false, true), (true, false, false), (true, true, false)]) :
      ∃ field ∈ command.fields, (field.checkAt scope .stats).isEmpty = read.1 ∧
        field.unfiltered.namedValue.2.aggregations.isEmpty = read.2.1 ∧
        field.unfiltered.namedValue.2.openColumns.isEmpty = read.2.2 := by
    rw [← fields] at member
    obtain ⟨field, given, rfl⟩ := List.mem_map.mp member
    exact ⟨field, given, rfl, rfl, rfl⟩
  refine ⟨scope, command, visited, ?_, ?_, ?_⟩
  · have written : Diagnostic.ofNested = (fun read : String × String × Span =>
        (Finding.nestedAggregation read.1 read.2.1).about read.2.2) ∘
        fun nested => (nested.1.text, nested.2, nested.1.span) := rfl
    rw [told, written, ← List.map_map, nested]
    rfl
  · obtain ⟨field, member, clear, called, uncovered⟩ := one (.tail _ (.head _))
    refine ⟨field, member, (each field member).2.2.1.mpr ⟨List.isEmpty_iff.mp clear, ?_, ?_⟩⟩
    · exact List.isEmpty_eq_false_iff.mp called
    · exact List.isEmpty_eq_false_iff.mp uncovered
  · obtain ⟨field, member, clear, called, -⟩ := one (.tail _ (.tail _ (.head _)))
    exact ⟨field, member, (each field member).2.2.2.mpr
      ⟨List.isEmpty_iff.mp clear, List.isEmpty_iff.mp called⟩⟩

end Command

end Esql
