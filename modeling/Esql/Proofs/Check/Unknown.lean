import Esql.Check.Fields
import Esql.Proofs.Check.Pointed
import Esql.Proofs.Columns.Lookup
import Esql.Proofs.Grammar.Visited
import Esql.Proofs.Syntax.Occurrences

/-!
# Columns that are told of

In an expression that was read to its end, a check comes to every column whose value is read, once
and in source order, whatever the functions around it are. What it says of columns is what there is
to say of each of these, and nothing else that it says is about columns. So an unknown column is told
of as often as it is read.
-/

namespace Esql

/-- The diagnostic says that a column is missing, or that its type is not supported. -/
def Diagnostic.isOfColumn (diagnostic : Diagnostic) : Bool :=
  diagnostic.notice == .unknownColumn || diagnostic.notice == .unsupportedFieldType

/-- Nothing that is said of a call is about a column. -/
theorem OfCall.filter_isOfColumn {spans : List Span} {found : List Diagnostic}
    (told : OfCall spans found) : found.filter Diagnostic.isOfColumn = [] := by
  rw [List.filter_eq_nil_iff]
  intro diagnostic member
  obtain ⟨finding, call, span, -, rfl⟩ := told diagnostic member
  cases finding with
  | wrongArgumentNumber | wrongArgumentType | expectedConstant | unsupportedLiteralOption
  | unsupportedFunction | unsupportedFunctionInClause | nestedAggregation | licenseRequired
  | licenseRequiredForSignature => exact Bool.false_ne_true
  | _ => cases call

theorem Scope.filter_checkValue (scope : Scope) (column : Column) :
    (scope.checkValue column).filter Diagnostic.isOfColumn = scope.checkValue column := by
  rw [checkValue, checkColumn]
  split
  · rfl
  · split <;> rfl

namespace Expr

/-- `count` is defined, so it is no callable that is missing. -/
theorem ne_count_of_undefined {name : String} (undefined : Callable.named? name = none) :
    name ≠ "count" := by
  rintro rfl
  have defined : (Callable.named? "count").isSome = true := by decide +kernel
  rw [undefined] at defined
  cases defined

/-- An operator with two operands has these and no more. -/
theorem exists_operands {name : String} {args : List Expr} {extent : Extent}
    (saturated : (Expr.apply name .binary args extent).Saturated) :
    ∃ left right, args = [left, right] :=
  List.length_eq_two.mp (saturated 2 rfl)

mutual

/-- What is said of the columns of an expression is what there is to say of each column whose value
is read. -/
theorem filter_check (expr : Expr) (whole : expr.Whole) (scope : Scope) (place : Place)
    (outer? : Option String) :
    (expr.check scope place outer?).filter Diagnostic.isOfColumn =
      expr.valuesRead.flatMap scope.checkValue := by
  obtain ⟨complete, saturated⟩ := whole expr expr.mem_walk
  have parts {part : Expr} (member : part ∈ expr.children) := whole.part member
  cases expr with
  | literal l => rfl
  | column c =>
      have complete : c.incomplete = false := complete
      rw [check, complete]
      exact (scope.filter_checkValue c).trans (List.append_nil _).symm
  | interval i =>
      rw [check]
      split <;> rfl
  | list items extent =>
      have complete : extent.incomplete = false := complete
      rw [check, complete]
      exact filter_checkAll items (fun _ => parts) scope place outer? none
  | cast value target extent =>
      have complete : extent.incomplete = false := complete
      rw [check, complete]
      exact filter_check value (parts (.head _)) scope place outer?
  | apply name form args extent =>
      have complete : extent.incomplete = false := complete
      rw [check.eq_def]
      dsimp only
      rw [complete, if_neg Bool.false_ne_true]
      split
      · rename_i assignment
        obtain ⟨rfl, rfl⟩ : name = "=" ∧ form = .binary := by simpa using assignment
        obtain ⟨target, value, rfl⟩ := exists_operands saturated
        rw [valuesRead_assignment]
        exact filter_check value (parts (.tail _ (.head _))) scope place outer?
      · rename_i notAssignment
        rw [valuesRead_apply notAssignment]
        split
        · rename_i filter
          obtain ⟨rfl, rfl⟩ : name = "where" ∧ form = .binary := by simpa using filter
          obtain ⟨filtered, condition, rfl⟩ := exists_operands saturated
          dsimp only
          rw [List.filter_append, filter_check filtered (parts (.head _)),
            filter_check condition (parts (.tail _ (.head _))),
            valuesReadIn_of_ne (by decide), List.flatMap_cons, List.flatMap_cons,
            List.flatMap_nil, List.append_nil, List.flatMap_append]
        · cases named : Callable.named? name with
          | none =>
              -- Under an unknown function a star is a column like any other.
              dsimp only
              rw [valuesReadIn_of_ne (ne_count_of_undefined named), ← valuesReadIn_none,
                ← filter_checkAll args (fun _ => parts) scope place outer? none]
              rfl
          | some callable =>
              have own : extent.span ∈ extent.span :: args.map span := .head _
              have placed := (callable.ofCall_checkPlace scope place own).filter_isOfColumn
              have nested := (callable.ofCall_checkNesting outer? own).filter_isOfColumn
              have called := (callable.ofCall_checkCall scope
                (givens name args (types scope.columns args)) own
                fun argument member => .tail _ (List.mem_map_of_mem member)).filter_isOfColumn
              dsimp only
              rw [List.filter_append, List.filter_append, List.filter_append, placed, nested,
                called, List.nil_append, List.nil_append, List.append_nil]
              exact filter_checkAll args (fun _ => parts) scope place (callable.around outer?)
                (some name)

theorem filter_checkAll (exprs : List Expr) (whole : ∀ expr ∈ exprs, expr.Whole) (scope : Scope)
    (place : Place) (outer? function? : Option String) :
    (checkAll scope place outer? function? exprs).filter Diagnostic.isOfColumn =
      (valuesReadIn function? exprs).flatMap scope.checkValue := by
  cases exprs with
  | nil => rfl
  | cons expr rest =>
      rw [List.forall_mem_cons] at whole
      rw [checkAll, valuesReadIn_cons, List.filter_append, List.flatMap_append,
        filter_checkAll rest whole.2 scope place outer? function?]
      congr 1
      split
      · rfl
      · exact filter_check expr whole.1 scope place outer?

end

end Expr

/-- Of several columns, those that a known set does not list are told of as unknown. -/
theorem Scope.filter_unknownColumn {scope : Scope} (known : scope.columns.known = true)
    (columns : List Column) :
    (columns.flatMap scope.checkValue).filter (·.notice == .unknownColumn) =
      (columns.filter fun column => !scope.columns.names.contains column.name).map fun column =>
        (Finding.unknownColumn column.name).about column.span := by
  induction columns with
  | nil => rfl
  | cons column rest ih =>
      rw [List.flatMap_cons, List.filter_append, ih, List.filter_cons, checkValue, checkColumn]
      by_cases listed : column.name ∈ scope.columns.names
      · have here : scope.columns.lacks column.name = false :=
          Bool.eq_false_iff.mpr fun lacking => (ColumnSet.lacks_iff.mp lacking).2 listed
        rw [List.contains_iff_mem.mpr listed, here]
        split <;> rfl
      · have missing : scope.columns.lacks column.name = true :=
          ColumnSet.lacks_iff.mpr ⟨known, listed⟩
        rw [missing, ColumnSet.type?_eq_none listed,
          Bool.eq_false_iff.mpr (listed ∘ List.contains_iff_mem.mp)]
        rfl

/-- For every text and every complete expression in its tree: of the columns that a walk comes to,
those whose values are read and that the known columns do not list are told of as unknown, each once
and in their order, whatever else is said of the expression. Not read are the targets of assignments
and the star that counts rows. -/
theorem unknownColumns_checkAt {text : String} {command : Command}
    (visited : command ∈ (parse text).pipeline.visited) {expr : Expr}
    (below : Node.expr expr ∈ command.walk) (complete : expr.incomplete = false) {scope : Scope}
    (known : scope.columns.known = true) (place : Place) :
    expr.occurrences.map Prod.fst = (Node.expr expr).columns ∧
      (expr.checkAt scope place).filter (·.notice == .unknownColumn) =
        (expr.valuesRead.filter fun column => !scope.columns.names.contains column.name).map
          fun column => (Finding.unknownColumn column.name).about column.span := by
  refine ⟨expr.occurrences_fst.trans expr.columns_node.symm, ?_⟩
  have columns := expr.filter_check (whole_of_visited visited below complete) scope place none
  have narrower : (fun diagnostic : Diagnostic => diagnostic.notice == .unknownColumn) =
      fun diagnostic => diagnostic.notice == .unknownColumn && diagnostic.isOfColumn := by
    funext diagnostic
    rw [Diagnostic.isOfColumn, Bool.and_or_distrib_left, Bool.and_self]
    cases diagnostic.notice <;> rfl
  rw [narrower, ← List.filter_filter, Expr.checkAt, columns, Scope.filter_unknownColumn known]

/-- A column that is read twice, under a function that does not exist. -/
theorem unknownColumns_checkAt_undefined :
    ∃ command ∈ (parse "FROM a | STATS m = count(*) + nope(y, [z], y::long)").pipeline.visited,
      ∃ expr, Node.expr expr ∈ command.walk ∧ expr.incomplete = false ∧
        expr.occurrences.map Prod.fst = (Node.expr expr).columns ∧
        expr.occurrences.map (fun occurrence => (occurrence.1.name, occurrence.2)) =
          [("m", .target), ("*", .rowCount), ("y", .value), ("z", .value), ("y", .value)] ∧
        (expr.checkAt ⟨⟨[⟨"z", some .long, false⟩], true⟩, none, "STATS"⟩ .stats).filter
            (·.notice == .unknownColumn) =
          [(Finding.unknownColumn "y").about ⟨35, 36⟩, (Finding.unknownColumn "y").about ⟨43, 44⟩]
    := by
  have only : (expressionsOf "FROM a | STATS m = count(*) + nope(y, [z], y::long)").filterMap
      (fun expr => expr.assignment?.map fun _ => (expr.incomplete,
        expr.occurrences.map (fun occurrence => (occurrence.1.name, occurrence.2)),
        expr.valuesRead.map fun column => (column.name, column.span))) =
      [(false, [("m", .target), ("*", .rowCount), ("y", .value), ("z", .value), ("y", .value)],
        [("y", ⟨35, 36⟩), ("z", ⟨39, 40⟩), ("y", ⟨43, 44⟩)])] := by decide +kernel
  obtain ⟨command, visited, expr, same, below⟩ := exists_visited_of_leaf only
  obtain ⟨_, -, same⟩ := Option.map_eq_some_iff.mp same
  rw [Prod.mk.injEq, Prod.mk.injEq] at same
  obtain ⟨complete, uses, read⟩ := same
  rw [← Pipeline.visited_eq] at visited
  have known : (Scope.mk ⟨[⟨"z", some .long, false⟩], true⟩ none "STATS").columns.known = true :=
    rfl
  obtain ⟨columns, unknown⟩ := unknownColumns_checkAt visited below complete known .stats
  refine ⟨command, visited, expr, below, complete, columns, uses, unknown.trans ?_⟩
  have told (columns : List Column) (names : List String) :
      ((columns.filter fun column => !names.contains column.name).map
        fun column => (Finding.unknownColumn column.name).about column.span) =
      ((columns.map fun column => (column.name, column.span)).filter
        fun named => !names.contains named.1).map
          fun named => (Finding.unknownColumn named.1).about named.2 := by
    rw [List.filter_map, List.map_map]
    rfl
  rw [told, read]
  rfl

end Esql
