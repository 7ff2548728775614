import Esql.Check.Pipeline
import Esql.Flow
import Esql.Proofs.Flow.Fields

/-!
# Types and diagnostics in one walk

What is wrong with an expression and what its type is can be found out in one walk. A call is then
typed by what the walk has found out of its arguments, at the place where they stand and under the
function around them. Neither the place, nor the function, nor the tier of the caller, nor what was
told on the way has an effect on the type. So fields that are checked one after the other see the
columns that fields which are only typed add.
-/

namespace Esql

/-- The type of a call that becomes this. -/
def Resolution.type? : Resolution → Option FieldType
  | .matched _ _ type? => type?
  | _ => none

/-- What a walk has found out of an expression: its type, if it can be told, and what is wrong. -/
structure Judgement where
  type? : Option FieldType
  found : List Diagnostic
deriving Repr, BEq, DecidableEq

namespace Judgement

/-- Nothing is known, and nothing is wrong. -/
def silent : Judgement := ⟨none, []⟩

end Judgement

/-- A column whose value is used: it has to be listed, and its type has to be supported. -/
def Scope.judgeColumn (scope : Scope) (column : Column) : Judgement :=
  match scope.columns.get? column.name with
  | some field =>
      if field.type? == some .unsupported then
        ⟨none, [(Finding.unsupportedField column.name).about column.span]⟩
      else ⟨field.type?, []⟩
  | none =>
      if scope.columns.known then
        ⟨none, [(Finding.unknownColumn column.name).about column.span]⟩
      else .silent

namespace Expr

mutual

/-- One walk over an expression at a place. `outer?` names the aggregation around it. -/
def judge (scope : Scope) (place : Place) (outer? : Option String) : Expr → Judgement
  | .literal l => if l.incomplete then .silent else ⟨l.type?, []⟩
  | .column c => if c.incomplete then .silent else scope.judgeColumn c
  | .interval i =>
      match TimeUnit.type? i.unit with
      | some type => ⟨some type, []⟩
      | none => ⟨none, [(Finding.unknownInterval i.unit).about i.span]⟩
  | .list items extent =>
      if extent.incomplete then .silent
      else
        let judged := judgeAll scope place outer? none items
        ⟨(judged.map (·.type?)).findSome? id, judged.flatMap (·.found)⟩
  | .cast value target extent =>
      if extent.incomplete then .silent
      else ⟨(FieldType.parse target).toOption, (judge scope place outer? value).found⟩
  | .apply name form args extent =>
      if extent.incomplete then .silent
      else if name == "=" && form == .binary then
        match args with
        | _ :: value :: _ => judge scope place outer? value
        | _ => .silent
      else if name == "where" && form == .binary then
        match args with
        | [] => .silent
        | [filtered] => judge scope place outer? filtered
        | filtered :: condition :: _ =>
            let judged := judge scope place outer? filtered
            ⟨judged.type?, judged.found ++ (judge scope .statsWhere outer? condition).found⟩
      else
        match Callable.named? name with
        | none =>
            ⟨none, (Finding.unknownFunction name).about extent.span ::
              (judgeAll scope place outer? none args).flatMap (·.found)⟩
        | some callable =>
            let judged := judgeAll scope place (callable.around outer?) (some name) args
            let givens := givens name args (judged.map (·.type?))
            ⟨(callable.resolve givens).type?,
              callable.checkPlace scope place extent.span
                ++ callable.checkNesting outer? extent
                ++ judged.flatMap (·.found)
                ++ callable.checkCall scope args givens extent.span⟩

/-- The same for the parts of an expression, or for the arguments of a function: a star that counts
rows is not looked at. -/
def judgeAll (scope : Scope) (place : Place) (outer? : Option String)
    (function? : Option String) : List Expr → List Judgement
  | [] => []
  | expr :: rest =>
      (if function?.any expr.countsRows then .silent else judge scope place outer? expr)
        :: judgeAll scope place outer? function? rest

end

end Expr

/-- A column is judged by its type and by what there is to say of it. -/
theorem Scope.judgeColumn_eq (scope : Scope) (column : Column) :
    scope.judgeColumn column =
      ⟨scope.columns.usableType? column.name, scope.checkValue column⟩ := by
  rw [judgeColumn, ColumnSet.usableType?, checkValue, checkColumn, ColumnSet.lacks,
    ColumnSet.has?, ColumnSet.type?]
  cases scope.columns.get? column.name with
  | none => cases scope.columns.known <;> rfl
  | some field =>
      dsimp only [Option.bind_some]
      split
      · rename_i unsupported
        rw [beq_iff_eq.mp unsupported]
        rfl
      · rename_i supported
        cases typed : field.type? with
        | none => rfl
        | some type =>
            have usable : (type != .unsupported) = true := by
              rw [typed, Option.some_beq_some, Bool.not_eq_true] at supported
              rw [bne, supported]
              rfl
            rw [Option.filter_some, usable]
            rfl

namespace Expr

/-- What is known of the arguments of a call depends on the types of those that are no star that
counts rows. -/
theorem givens_counted (function : String) (args : List Expr) (columns : ColumnSet) :
    givens function args (args.map fun argument =>
        if argument.countsRows function then none else argument.type? columns) =
      givens function args (types columns args) := by
  induction args with
  | nil => rfl
  | cons argument rest ih =>
      rw [givens, givens] at ih ⊢
      rw [List.map_cons, types, List.zipWith_cons_cons, List.zipWith_cons_cons, ih, given, given]
      split <;> rfl

theorem callType?_of_named {name : String} {callable : Callable}
    (named : Callable.named? name = some callable) (args : List Expr)
    (types : List (Option FieldType)) :
    callType? name args types = (callable.resolve (givens name args types)).type? := by
  rw [callType?, named]
  rfl

theorem callType?_of_undefined {name : String} (undefined : Callable.named? name = none)
    (args : List Expr) (types : List (Option FieldType)) : callType? name args types = none := by
  rw [callType?, undefined]
  rfl

mutual

/-- One walk over an expression finds out its type and what is wrong with it. -/
theorem judge_eq (expr : Expr) (scope : Scope) (place : Place) (outer? : Option String) :
    expr.judge scope place outer? =
      ⟨expr.type? scope.columns, expr.check scope place outer?⟩ := by
  cases expr with
  | literal l =>
      rw [judge, type?]
      split <;> rfl
  | column c =>
      rw [judge, type?, check]
      split
      · rfl
      · exact scope.judgeColumn_eq c
  | interval i =>
      rw [judge, type?, check]
      cases TimeUnit.type? i.unit <;> rfl
  | list items extent =>
      rw [judge, type?, check]
      split
      · rfl
      · obtain ⟨types, found⟩ := judgeAll_eq items scope place outer? none
        dsimp only
        rw [types, found, types_eq_map]
        rfl
  | cast value target extent =>
      rw [judge, type?, check, judge_eq value]
      split <;> rfl
  | apply name form args extent =>
      rw [judge.eq_def, type?, check.eq_def]
      dsimp only
      split
      · rfl
      · rw [appliedType?]
        split
        · match args with
          | [] => rfl
          | [_] => rfl
          | _ :: value :: _ => exact judge_eq value scope place outer?
        · split
          · match args with
            | [] => rfl
            | [filtered] => exact judge_eq filtered scope place outer?
            | filtered :: condition :: _ =>
                dsimp only
                rw [judge_eq filtered, judge_eq condition]
                rfl
          · cases named : Callable.named? name with
            | none =>
                dsimp only
                rw [callType?_of_undefined named, (judgeAll_eq args scope place outer? none).2]
            | some callable =>
                obtain ⟨types, found⟩ :=
                  judgeAll_eq args scope place (callable.around outer?) (some name)
                dsimp only
                -- The walk finds no type for a star that counts rows, and the call asks for none.
                rw [callType?_of_named named, types, found, ← givens_counted]
                rfl

theorem judgeAll_eq (exprs : List Expr) (scope : Scope) (place : Place)
    (outer? function? : Option String) :
    (judgeAll scope place outer? function? exprs).map (·.type?) =
        exprs.map (fun expr =>
          if function?.any expr.countsRows then none else expr.type? scope.columns) ∧
      (judgeAll scope place outer? function? exprs).flatMap (·.found) =
        checkAll scope place outer? function? exprs := by
  cases exprs with
  | nil => exact ⟨rfl, rfl⟩
  | cons expr rest =>
      obtain ⟨types, found⟩ := judgeAll_eq rest scope place outer? function?
      rw [judgeAll, checkAll, List.map_cons, List.map_cons, List.flatMap_cons, types, found,
        judge_eq expr]
      split <;> exact ⟨rfl, rfl⟩

end

end Expr

/-- The columns that a check of fields has built, and what it has told of on the way. -/
structure Inspection where
  columns : ColumnSet
  found : List Diagnostic
deriving Repr, BEq, DecidableEq

namespace Scope

/-- Comes to one more field: it is judged where the columns built so far are there, and its column
is added with the type that was found. A field that was closed early is passed over. -/
def inspectField (scope : Scope) (place : Place) (before : Inspection) (field : Expr) :
    Inspection :=
  if field.incomplete then before
  else
    let judged := field.judge { scope with columns := before.columns } place none
    ⟨before.columns.insert ⟨field.namedValue.1, judged.type?, true⟩, before.found ++ judged.found⟩

/-- Comes to fields one after the other. -/
def inspect (scope : Scope) (place : Place) (fields : List Expr) : Inspection :=
  fields.foldl (scope.inspectField place) ⟨scope.columns, []⟩

/-- What one more field adds is what a flow of columns adds for it. -/
theorem inspectField_eq (scope : Scope) (place : Place) (before : Inspection) {field : Expr}
    (complete : field.incomplete = false) :
    scope.inspectField place before field =
      ⟨before.columns.withField field,
        before.found ++ field.checkAt { scope with columns := before.columns } place⟩ := by
  rw [inspectField, complete, if_neg Bool.false_ne_true, field.judge_eq, ColumnSet.withField,
    Expr.type?_namedValue complete]
  rfl

/-- Behind some fields there are the columns that these add to those before, and what was told is
what there is to tell of one after the other. -/
theorem foldl_inspectField (scope : Scope) (place : Place) (fields : List Expr)
    (before : Inspection) :
    fields.foldl (scope.inspectField place) before =
      ⟨before.columns.withFields (complete fields),
        before.found ++ checkFields { scope with columns := before.columns } place fields⟩ := by
  induction fields generalizing before with
  | nil => exact congrArg (Inspection.mk before.columns) (List.append_nil _).symm
  | cons field rest ih =>
      rw [List.foldl_cons, checkFields, complete, List.filter_cons, ih]
      cases unfinished : field.incomplete with
      | true =>
          rw [inspectField, unfinished]
          rfl
      | false =>
          rw [inspectField_eq scope place before unfinished, withField_eq _ unfinished,
            List.append_assoc]
          rfl

theorem inspect_eq (scope : Scope) (place : Place) (fields : List Expr) :
    scope.inspect place fields =
      ⟨scope.columns.withFields (complete fields), scope.checkFields place fields⟩ :=
  scope.foldl_inspectField place fields ⟨scope.columns, []⟩

/-- For every command, all columns that reach it and every tier: behind any number of its fields,
the walk that checks them has built the columns that these fields add, each with its name, its type
and its mark and in its order, and has told what is wrong with them. For the type of an expression
it does not matter at which place it stands, what is around it, who asks and what is told. So the
walk over the fields of an evaluation or of a row tells what is wrong with the command, and ends with
the columns that come out of it. -/
theorem inspect_exprs (command : Command) (scope : Scope) (place : Place) :
    (∀ count, scope.inspect place (command.exprs.take count) =
      ⟨scope.columns.withFields (complete (command.exprs.take count)),
        scope.checkFields place (command.exprs.take count)⟩) ∧
    (∀ (expr : Expr) (outer? : Option String),
      expr.judge scope place outer? =
        ⟨expr.type? scope.columns, expr.check scope place outer?⟩) ∧
    ∀ snapshot,
      scope.inspect .eval command.exprs =
        ⟨command.plainOutput snapshot scope.columns .eval,
          command.checkPlain scope snapshot .eval⟩ ∧
      (scope.inspect .row command.exprs).found = command.checkPlain scope snapshot .row ∧
      (inspect { scope with columns := .empty } .row command.exprs).columns =
        command.plainOutput snapshot scope.columns .row :=
  ⟨fun count => scope.inspect_eq place (command.exprs.take count),
    fun expr outer? => expr.judge_eq scope place outer?,
    fun _ => ⟨scope.inspect_eq .eval command.exprs,
      congrArg Inspection.found (scope.inspect_eq .row command.exprs),
      congrArg Inspection.columns (inspect_eq { scope with columns := .empty } .row
        command.exprs)⟩⟩

end Scope

end Esql
