import Esql.Proofs.Callable.Indexed
import Esql.Proofs.Syntax.Visited
import Esql.Proofs.Traced.Basic
import Esql.Typing

/-!
# Calls of aggregations

A search for aggregations goes over all functions, and whether a value is closed is asked from its
root downwards, no further than to an aggregation. In every expression that the grammar makes, both
agree with the calls of aggregations and with what these enclose. There an aggregation is always
written as a call.
-/

namespace Esql

/-! ## Nodes and what encloses them

A walk comes to the nodes of an expression one after the other. Here each of them is listed with the
nodes around it, from the nearest one outwards. On the way down nothing is ever taken off what was
around an expression to begin with.
-/

/-- A node of an expression with the nodes around it, the nearest first. -/
structure Enclosed where
  around : List Expr
  node : Expr

namespace Expr

mutual

/-- The nodes of an expression that stands in others, in the order of a walk. -/
def enclosedIn (around : List Expr) : Expr → List Enclosed
  | .apply name form args extent =>
      ⟨around, .apply name form args extent⟩
        :: allEnclosedIn (.apply name form args extent :: around) args
  | .list items extent =>
      ⟨around, .list items extent⟩ :: allEnclosedIn (.list items extent :: around) items
  | .cast value target extent =>
      ⟨around, .cast value target extent⟩
        :: enclosedIn (.cast value target extent :: around) value
  | .column c => [⟨around, .column c⟩]
  | .literal l => [⟨around, .literal l⟩]
  | .interval i => [⟨around, .interval i⟩]

def allEnclosedIn (around : List Expr) : List Expr → List Enclosed
  | [] => []
  | expr :: rest => enclosedIn around expr ++ allEnclosedIn around rest

end

/-- The nodes of an expression that stands alone. -/
def enclosed (expr : Expr) : List Enclosed := expr.enclosedIn []

theorem allEnclosedIn_singleton (around : List Expr) (expr : Expr) :
    allEnclosedIn around [expr] = expr.enclosedIn around := by
  rw [allEnclosedIn, allEnclosedIn, List.append_nil]

/-- An expression comes first and its parts behind it, with the expression around them. -/
theorem enclosedIn_eq (around : List Expr) (expr : Expr) :
    expr.enclosedIn around = ⟨around, expr⟩ :: allEnclosedIn (expr :: around) expr.children := by
  cases expr with
  | cast value target extent => rw [enclosedIn, children, allEnclosedIn_singleton]
  | _ => rfl

theorem filterMap_enclosedIn {α : Type} (read? : Enclosed → Option α) (around : List Expr)
    (expr : Expr) :
    (expr.enclosedIn around).filterMap read? =
      (read? ⟨around, expr⟩).toList
        ++ (allEnclosedIn (expr :: around) expr.children).filterMap read? := by
  rw [enclosedIn_eq]
  cases here : read? ⟨around, expr⟩ with
  | none => exact List.filterMap_cons_none here
  | some read => exact List.filterMap_cons_some here

mutual

/-- A walk comes to these nodes. -/
theorem enclosedIn_node (expr : Expr) (around : List Expr) :
    (expr.enclosedIn around).map Enclosed.node = expr.walk := by
  cases expr with
  | apply name form args extent => exact congrArg (_ :: ·) (allEnclosedIn_node args _)
  | list items extent => exact congrArg (_ :: ·) (allEnclosedIn_node items _)
  | cast value target extent => exact congrArg (_ :: ·) (enclosedIn_node value _)
  | column c => rfl
  | literal l => rfl
  | interval i => rfl

theorem allEnclosedIn_node (exprs : List Expr) (around : List Expr) :
    (allEnclosedIn around exprs).map Enclosed.node = walkAll exprs := by
  cases exprs with
  | nil => rfl
  | cons expr rest =>
      rw [allEnclosedIn, walkAll, List.map_append, enclosedIn_node expr around,
        allEnclosedIn_node rest around]

end

mutual

/-- What is around an expression is around all of its nodes. -/
theorem suffix_around (expr : Expr) (around : List Expr) :
    ∀ inner ∈ expr.enclosedIn around, around <:+ inner.around := by
  have below {parts : List Expr}
      (deeper : ∀ inner ∈ allEnclosedIn (expr :: around) parts, expr :: around <:+ inner.around) :
      ∀ inner ∈ ⟨around, expr⟩ :: allEnclosedIn (expr :: around) parts,
        around <:+ inner.around :=
    List.forall_mem_cons.mpr ⟨List.suffix_refl around, fun inner member =>
      (List.suffix_cons expr around).trans (deeper inner member)⟩
  cases expr with
  | apply name form args extent => exact below (suffix_around_all args _)
  | list items extent => exact below (suffix_around_all items _)
  | cast value target extent =>
      rw [enclosedIn_eq]
      refine below ?_
      rw [children, allEnclosedIn_singleton]
      exact suffix_around value _
  | column c => exact List.forall_mem_singleton.mpr (List.suffix_refl around)
  | literal l => exact List.forall_mem_singleton.mpr (List.suffix_refl around)
  | interval i => exact List.forall_mem_singleton.mpr (List.suffix_refl around)

theorem suffix_around_all (exprs : List Expr) (around : List Expr) :
    ∀ inner ∈ allEnclosedIn around exprs, around <:+ inner.around := by
  cases exprs with
  | nil => exact fun _ absent => nomatch absent
  | cons expr rest =>
      exact List.forall_mem_append.mpr ⟨suffix_around expr around, suffix_around_all rest around⟩

end

end Expr

/-! ## Aggregations -/

namespace Expr

/-- The aggregation that an expression calls. -/
def aggregation? : Expr → Option String
  | .apply name .call _ _ => if Callable.isAggregationName name then some name else none
  | _ => none

/-- The first aggregation that is called in a list of nodes. -/
def nearest? (around : List Expr) : Option String := around.findSome? aggregation?

/-- The aggregations that are called in an expression. -/
def aggregations (expr : Expr) : List String := expr.walk.filterMap aggregation?

end Expr

/-- A column outside of every aggregation. -/
def Enclosed.open? (inner : Enclosed) : Option Column :=
  if (Expr.nearest? inner.around).isNone then inner.node.column? else none

/-- The columns of an expression outside of every aggregation. -/
def Expr.openColumns (expr : Expr) : List Column := expr.enclosed.filterMap Enclosed.open?

/-! ## What the grammar applies -/

namespace Callable

theorem isAggregationName_of_named? {name : String} {callable : Callable}
    (named : named? name = some callable) :
    isAggregationName name = callable.isAggregation ∧ callable.name = name :=
  ⟨by rw [isAggregationName, named, Option.any_some], (mem_catalog_of_named? named).2⟩

/-- No operator, no assignment and no filter is an aggregation. -/
theorem isAggregationName_operator :
    ∀ name ∈ "=" :: "where" :: Grammar.operatorNames, isAggregationName name = false := by
  decide +kernel

end Callable

namespace Expr

variable {text : String}

/-- Whatever the grammar applies under the name of an aggregation is a call of it. -/
theorem aggregation?_of_traced {expr : Expr} (traced : expr.NodeTraced text) :
    expr.aggregation? = expr.functionName?.filter Callable.isAggregationName := by
  have other {name : String} (form : Form) (args : List Expr) (extent : Extent)
      (operator : name ∈ "=" :: "where" :: Grammar.operatorNames) :
      (apply name form args extent).aggregation? =
        (some name).filter Callable.isAggregationName := by
    rw [Option.filter_some, Callable.isAggregationName_operator name operator]
    cases form with
    | call => rw [aggregation?, Callable.isAggregationName_operator name operator]
    | _ => rfl
  cases expr with
  | apply name form args extent =>
      cases (traced : Applied text name form args extent.span) with
      | call => rfl
      | operator form args span named noCall => exact other form args extent (.tail _ (.tail _ named))
      | assignment target value => exact other .binary _ extent (.head _)
      | filter field condition => exact other .binary _ extent (.tail _ (.head _))
  | _ => rfl

/-- A search over all functions finds the aggregations that are called. -/
theorem hasAggregation_iff {expr : Expr} (traced : expr.Traced text) :
    expr.hasAggregation = true ↔ expr.aggregations ≠ [] := by
  rw [hasAggregation, List.any_eq_true, aggregations]
  constructor
  · rintro ⟨name, found, aggregation⟩
    obtain ⟨node, member, named⟩ := List.mem_filterMap.mp found
    refine List.ne_nil_of_mem (a := name) (List.mem_filterMap.mpr ⟨node, member, ?_⟩)
    rw [aggregation?_of_traced (traced node member), named, Option.filter_some, if_pos aggregation]
  · intro called
    obtain ⟨name, found⟩ := List.exists_mem_of_ne_nil _ called
    obtain ⟨node, member, called⟩ := List.mem_filterMap.mp found
    rw [aggregation?_of_traced (traced node member), Option.filter_eq_some_iff] at called
    exact ⟨name, List.mem_filterMap.mpr ⟨node, member, called.1⟩, called.2⟩

/-! ## Closed values -/

theorem nearest?_cons (expr : Expr) (around : List Expr) :
    nearest? (expr :: around) = expr.aggregation?.or (nearest? around) := by
  rw [nearest?, List.findSome?_cons]
  cases expr.aggregation? <;> rfl

theorem nearest?_cons_of_none {expr : Expr} (plain : expr.aggregation? = none)
    (around : List Expr) : nearest? (expr :: around) = nearest? around := by
  rw [nearest?_cons, plain, Option.none_or]

theorem nearest?_cons_of_some {expr : Expr} {name : String} (called : expr.aggregation? = some name)
    (around : List Expr) : nearest? (expr :: around) = some name := by
  rw [nearest?_cons, called, Option.some_or]

/-- What stands below an aggregation is not open. -/
theorem filterMap_open?_of_nearest? {around exprs : List Expr} {name : String}
    (inside : nearest? around = some name) :
    (allEnclosedIn around exprs).filterMap Enclosed.open? = [] := by
  rw [List.filterMap_eq_nil_iff]
  intro inner member
  obtain ⟨nearer, around_eq⟩ := suffix_around_all exprs around inner member
  have found : (nearest? inner.around).isNone = false := by
    rw [nearest?] at inside
    rw [nearest?, ← around_eq, List.findSome?_append, inside]
    cases nearer.findSome? aggregation? <;> rfl
  rw [Enclosed.open?, found]
  rfl

theorem aggregationClosed_apply (name : String) (form : Form) (args : List Expr) (extent : Extent) :
    (apply name form args extent).aggregationClosed =
      ((apply name form args extent).aggregation?.isSome || allAggregationClosed args) := by
  rw [aggregationClosed]
  cases form with
  | call =>
      rw [aggregation?]
      cases Callable.isAggregationName name <;> rfl
  | _ => rfl

/-- A node that is no column is open only in its parts. -/
theorem filterMap_open?_of_column? {expr : Expr} (other : expr.column? = none)
    (around : List Expr) :
    (expr.enclosedIn around).filterMap Enclosed.open? =
      (allEnclosedIn (expr :: around) expr.children).filterMap Enclosed.open? := by
  rw [filterMap_enclosedIn, Enclosed.open?, other, ite_self]
  rfl

mutual

/-- Outside of aggregations, an expression is closed if it has no open column. -/
theorem aggregationClosed_iff (expr : Expr) {around : List Expr}
    (outside : nearest? around = none) :
    expr.aggregationClosed = true ↔ (expr.enclosedIn around).filterMap Enclosed.open? = [] := by
  cases expr with
  | column c =>
      have found : Enclosed.open? ⟨around, .column c⟩ = some c := by
        rw [Enclosed.open?, outside]
        rfl
      rw [enclosedIn, List.filterMap_cons_some found]
      exact iff_of_false Bool.false_ne_true (List.cons_ne_nil c _)
  | literal l =>
      rw [filterMap_open?_of_column? rfl]
      exact iff_of_true rfl rfl
  | interval i =>
      rw [filterMap_open?_of_column? rfl]
      exact iff_of_true rfl rfl
  | list items extent =>
      rw [filterMap_open?_of_column? rfl, aggregationClosed]
      exact allAggregationClosed_iff items ((nearest?_cons_of_none rfl around).trans outside)
  | cast value target extent =>
      rw [filterMap_open?_of_column? rfl, aggregationClosed, children, allEnclosedIn_singleton]
      exact aggregationClosed_iff value ((nearest?_cons_of_none rfl around).trans outside)
  | apply name form args extent =>
      rw [filterMap_open?_of_column? rfl, aggregationClosed_apply]
      cases called : (apply name form args extent).aggregation? with
      | none =>
          exact allAggregationClosed_iff args ((nearest?_cons_of_none called around).trans outside)
      | some aggregation =>
          exact iff_of_true rfl (filterMap_open?_of_nearest? (nearest?_cons_of_some called around))

theorem allAggregationClosed_iff (exprs : List Expr) {around : List Expr}
    (outside : nearest? around = none) :
    allAggregationClosed exprs = true ↔
      (allEnclosedIn around exprs).filterMap Enclosed.open? = [] := by
  cases exprs with
  | nil => exact iff_of_true rfl rfl
  | cons expr rest =>
      rw [allAggregationClosed, Bool.and_eq_true, allEnclosedIn, List.filterMap_append,
        List.append_eq_nil_iff]
      exact and_congr (aggregationClosed_iff expr outside) (allAggregationClosed_iff rest outside)

end

end Expr

end Esql
