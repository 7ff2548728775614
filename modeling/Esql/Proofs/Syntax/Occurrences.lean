import Esql.Proofs.Candid.Tree
import Esql.Typing

/-!
# What columns are for

A column in an expression is read for its value, with two exceptions: the target of an assignment is
written, and a star that stands alone as an argument of `count` counts rows. The occurrences of an
expression are the columns that a walk comes to, in its order, each with what it is for.
-/

namespace Esql

/-- What a column in an expression is for. -/
inductive ColumnUse where
  /-- Its value is read. -/
  | value
  /-- A value is assigned to it. -/
  | target
  /-- It is a star that counts rows. -/
  | rowCount
deriving Repr, BEq, DecidableEq, ReflBEq, LawfulBEq

namespace Expr

/-- The columns of an expression, itself included. -/
def columns (expr : Expr) : List Column := expr.walk.filterMap column?

/-- All columns of an expression, for one use. -/
def columnsFor (use : ColumnUse) (expr : Expr) : List (Column × ColumnUse) :=
  expr.columns.map (·, use)

mutual

/-- The columns of an expression, each with what it is for. -/
def occurrences : Expr → List (Column × ColumnUse)
  | .literal _ | .interval _ => []
  | .column c => [(c, .value)]
  | .list items _ => occurrencesIn none items
  | .cast value _ _ => occurrences value
  | .apply name form args _ =>
      if name == "=" && form == .binary then
        match args with
        | [] => []
        | target :: values => target.columnsFor .target ++ occurrencesIn none values
      else occurrencesIn (some name) args

/-- The same for the parts of an expression, or for the arguments of a function. -/
def occurrencesIn (function? : Option String) : List Expr → List (Column × ColumnUse)
  | [] => []
  | expr :: rest =>
      (if function?.any expr.countsRows then expr.columnsFor .rowCount else occurrences expr)
        ++ occurrencesIn function? rest

end

/-- The columns that are there for their values. -/
def values (occurrences : List (Column × ColumnUse)) : List Column :=
  (occurrences.filter (·.2 == .value)).map Prod.fst

/-- The columns whose values an expression reads. -/
def valuesRead (expr : Expr) : List Column := values expr.occurrences

/-- The same of the parts of an expression, or of the arguments of a function. -/
def valuesReadIn (function? : Option String) (exprs : List Expr) : List Column :=
  values (occurrencesIn function? exprs)

theorem columnsFor_fst (use : ColumnUse) (expr : Expr) :
    (expr.columnsFor use).map Prod.fst = expr.columns := by
  rw [columnsFor, List.map_map]
  exact List.map_id _

theorem columns_node (expr : Expr) : (Node.expr expr).columns = expr.columns := by
  rw [Node.columns, Node.walk, List.filterMap_map]
  exact congrArg (List.filterMap column?) List.filterMap_some

mutual

/-- The occurrences are the columns of a walk. -/
theorem occurrences_fst (expr : Expr) : expr.occurrences.map Prod.fst = expr.columns := by
  cases expr with
  | literal l => rfl
  | interval i => rfl
  | column c => rfl
  | list items extent =>
      rw [occurrences, occurrencesIn_fst]
      rfl
  | cast value target extent => exact occurrences_fst value
  | apply name form args extent =>
      have parts : (Expr.apply name form args extent).columns = (walkAll args).filterMap column? :=
        rfl
      rw [occurrences.eq_def, parts]
      dsimp only
      split
      · match args with
        | [] => rfl
        | target :: values =>
            dsimp only
            rw [List.map_append, columnsFor_fst, occurrencesIn_fst, walkAll, List.filterMap_append]
            rfl
      · exact occurrencesIn_fst args (some name)

theorem occurrencesIn_fst (exprs : List Expr) (function? : Option String) :
    (occurrencesIn function? exprs).map Prod.fst = (walkAll exprs).filterMap column? := by
  cases exprs with
  | nil => rfl
  | cons expr rest =>
      rw [occurrencesIn, walkAll, List.map_append, List.filterMap_append,
        occurrencesIn_fst rest function?]
      congr 1
      split
      · exact columnsFor_fst _ expr
      · exact occurrences_fst expr

end

theorem values_append (first second : List (Column × ColumnUse)) :
    values (first ++ second) = values first ++ values second := by
  rw [values, List.filter_append, List.map_append]
  rfl

/-- What a column is for tells whether its value is read. -/
theorem values_columnsFor {use : ColumnUse} (other : use ≠ .value) (expr : Expr) :
    values (expr.columnsFor use) = [] := by
  rw [values, columnsFor, List.filter_map, List.map_map, List.map_eq_nil_iff,
    List.filter_eq_nil_iff]
  intro column _
  rw [Function.comp_apply, beq_iff_eq]
  exact other

theorem valuesReadIn_cons (function? : Option String) (expr : Expr) (rest : List Expr) :
    valuesReadIn function? (expr :: rest) =
      (if function?.any expr.countsRows then [] else expr.valuesRead)
        ++ valuesReadIn function? rest := by
  rw [valuesReadIn, occurrencesIn, values_append]
  split
  · rw [values_columnsFor ColumnUse.noConfusion]
    rfl
  · rfl

/-- The value of an assignment is read, and its target is not. -/
theorem valuesRead_assignment (target value : Expr) (extent : Extent) :
    (Expr.apply "=" .binary [target, value] extent).valuesRead = value.valuesRead := by
  change values (target.columnsFor .target ++ occurrencesIn none [value]) = _
  rw [values_append, values_columnsFor ColumnUse.noConfusion, List.nil_append]
  exact (valuesReadIn_cons none value []).trans (List.append_nil _)

theorem valuesRead_apply {name : String} {form : Form}
    (other : ¬ (name == "=" && form == .binary) = true) (args : List Expr) (extent : Extent) :
    (Expr.apply name form args extent).valuesRead = valuesReadIn (some name) args := by
  rw [valuesRead, occurrences.eq_def]
  dsimp only
  rw [if_neg other]
  rfl

/-- Only `count` counts rows. -/
theorem countsRows_of_ne {function : String} (other : function ≠ "count") (expr : Expr) :
    expr.countsRows function = false := by
  rw [countsRows, beq_eq_false_iff_ne.mpr other, Bool.false_and]

theorem valuesReadIn_of_ne {function : String} (other : function ≠ "count") (exprs : List Expr) :
    valuesReadIn (some function) exprs = exprs.flatMap valuesRead := by
  induction exprs with
  | nil => rfl
  | cons expr rest ih =>
      rw [valuesReadIn_cons, ih, Option.any_some, countsRows_of_ne other]
      rfl

theorem valuesReadIn_none (exprs : List Expr) :
    valuesReadIn none exprs = exprs.flatMap valuesRead := by
  induction exprs with
  | nil => rfl
  | cons expr rest ih =>
      rw [valuesReadIn_cons, ih]
      rfl

end Expr

end Esql
