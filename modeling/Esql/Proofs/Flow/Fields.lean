import Esql.Proofs.Check.Quiet
import Esql.Proofs.Check.Vague
import Esql.Proofs.Syntax.Occurrences

/-!
# Fields over columns of which less is known

Fields that are checked one after the other, those of an aggregation, and values that have to be of
some type. The groups of an aggregation are checked one after the other as well, but each of them is
typed by the columns before the aggregation. So no group may read a column that an earlier group
names, or its type is not that of the expression that was checked.
-/

namespace Esql

theorem ColumnSet.usableType?_congr {first second : ColumnSet} {name : String}
    (same : first.type? name = second.type? name) :
    first.usableType? name = second.usableType? name :=
  congrArg (Option.filter _) same

namespace Expr

/-- The expression reads a column of this name. -/
def reads (name : String) (expr : Expr) : Bool :=
  expr.walk.any fun part => part.column?.any (·.name == name)

theorem reads_of_mem_children {name : String} {expr part : Expr} (member : part ∈ expr.children)
    (inside : part.reads name = true) : expr.reads name = true := by
  rw [reads, List.any_eq_true] at inside ⊢
  obtain ⟨node, below, named⟩ := inside
  exact ⟨node, walk_subset_of_child member below, named⟩

variable {first second : ColumnSet}

mutual

/-- The type of an expression depends on the types that the columns which it reads have in use. -/
theorem type?_congr (expr : Expr) (same : ∀ name, expr.reads name = true →
    first.usableType? name = second.usableType? name) :
    expr.type? first = expr.type? second := by
  cases expr with
  | literal l => rfl
  | interval i => rfl
  | cast value target extent => rfl
  | column c =>
      rw [type?, type?, same c.name (by simp [reads, walk, column?])]
  | list items extent =>
      have inside : types first items = types second items :=
        types_congr items fun item member name reads => same name <| by
          have child : item ∈ (Expr.list items extent).children := member
          exact reads_of_mem_children child reads
      rw [type?, type?, inside]
  | apply name form args extent =>
      have inside : types first args = types second args :=
        types_congr args fun argument member called reads => same called <| by
          have child : argument ∈ (Expr.apply name form args extent).children := member
          exact reads_of_mem_children child reads
      rw [type?, type?, inside]

theorem types_congr (exprs : List Expr) (same : ∀ expr ∈ exprs, ∀ name,
    expr.reads name = true → first.usableType? name = second.usableType? name) :
    types first exprs = types second exprs := by
  cases exprs with
  | nil => rfl
  | cons expr rest =>
      rw [List.forall_mem_cons] at same
      rw [types, types, type?_congr expr same.1, types_congr rest same.2]

end

/-- The value of a field has the type of the field. -/
theorem type?_namedValue {field : Expr} (complete : field.incomplete = false)
    (columns : ColumnSet) :
    field.namedValue.2.type? columns = field.type? columns := by
  rw [namedValue]
  cases assigned : field.assignment? with
  | none => rfl
  | some pair =>
      obtain ⟨target, value⟩ := pair
      rw [assignment?.eq_def] at assigned
      split at assigned
      · obtain ⟨rfl, rfl⟩ := Prod.mk.inj (Option.some.inj assigned)
        rename_i extent
        have whole : extent.incomplete = false := complete
        rw [type?, whole]
        rfl
      · contradiction

/-- A field has the type that it has without its filter. -/
theorem type?_unfiltered {field : Expr} (complete : field.incomplete = false)
    (columns : ColumnSet) :
    field.unfiltered.type? columns = field.type? columns := by
  rw [unfiltered.eq_def]
  split
  · rename_i inner rest extent
    have whole : extent.incomplete = false := complete
    conv_rhs => rw [type?, whole]
    rfl
  · rfl

/-- The lists of fields are settled, where later fields see those before them. -/
def fieldsSettled (columns : ColumnSet) : List Expr → Bool
  | [] => true
  | field :: rest =>
      if field.incomplete then fieldsSettled columns rest
      else field.settled columns && fieldsSettled (columns.withField field) rest

/-- No value of a field but a lone column reads what an earlier field is named. -/
def fieldsApart (earlier : List String) : List Expr → Bool
  | [] => true
  | field :: rest =>
      (field.namedValue.2.column?.isSome ||
          earlier.all fun name => !field.namedValue.2.reads name) &&
        fieldsApart (field.namedValue.1 :: earlier) rest

variable {scope : Scope} {part : ColumnSet}

theorem checkAt_vaguer {field : Expr} (related : part.Below scope.columns)
    (settled : field.settled part = true) {place : Place}
    (quiet : Quiet (field.checkAt scope place)) :
    field.checkAt { scope with columns := part } place = [] ∧
      Vaguer (field.type? part) (field.type? scope.columns) :=
  check_vaguer field related settled (quiet.eq_nil (grave_check field scope place none))

/-- A value that has to be of some type. What fits may not depend on the kind of shape. -/
theorem checkTyped_vaguer {value : Expr} (related : part.Below scope.columns)
    (settled : value.settled part = true) {place : Place} {fits : FieldType → Bool}
    (blind : fits .geoShape = fits .cartesianShape) {expected : String}
    (quiet : Quiet (value.checkTyped scope place fits expected)) :
    value.checkTyped { scope with columns := part } place fits expected = [] := by
  rw [checkTyped] at quiet ⊢
  split at quiet
  · split at quiet
    · exact absurd quiet.faultless (Faultless.not_cons_error rfl _ _)
    · rename_i found
      exact absurd (List.isEmpty_iff.mpr (quiet.eq_nil (grave_check value scope place none))) found
  · rename_i fitting
    obtain ⟨clear, vaguer⟩ := checkAt_vaguer related settled quiet
    rw [clear]
    split
    · rename_i given unfit
      obtain ⟨typed, misfit⟩ := Option.filter_eq_some_iff.mp unfit
      obtain ⟨other, known, alike⟩ := vaguer given typed
      rw [alike.congr blind] at misfit
      have refused : (value.type? scope.columns).filter (fun type => !fits type) = some other :=
        Option.filter_eq_some_iff.mpr ⟨known, misfit⟩
      rw [fitting] at refused
      contradiction
    · rfl

end Expr

theorem Scope.withField_eq (scope : Scope) {field : Expr} (complete : field.incomplete = false) :
    scope.withField field = { scope with columns := scope.columns.withField field } := by
  rw [withField, ColumnSet.withField, Expr.type?_namedValue complete]

theorem ColumnSet.Below.withField {part whole : ColumnSet} (related : part.Below whole)
    {field : Expr}
    (complete : field.incomplete = false)
    (typed : Vaguer (field.type? part) (field.type? whole)) :
    (part.withField field).Below (whole.withField field) := by
  rw [ColumnSet.withField, ColumnSet.withField, Expr.type?_namedValue complete,
    Expr.type?_namedValue complete]
  exact related.insert ⟨rfl, typed⟩

namespace Scope

variable {scope : Scope} {part : ColumnSet}

/-- Fields that are checked one after the other: nothing is wrong with them, and what they add has
vaguer types. -/
theorem checkFields_vaguer {fields : List Expr} (related : part.Below scope.columns)
    (settled : Expr.fieldsSettled part fields = true) {place : Place}
    (quiet : Quiet (scope.checkFields place fields)) :
    checkFields { scope with columns := part } place fields = [] ∧
      (part.withFields (complete fields)).Below (scope.columns.withFields (complete fields)) := by
  induction fields generalizing scope part with
  | nil => exact ⟨rfl, related⟩
  | cons field rest ih =>
      rw [checkFields] at quiet ⊢
      rw [Expr.fieldsSettled] at settled
      rw [Esql.complete, List.filter_cons]
      cases unfinished : field.incomplete with
      | true =>
          rw [unfinished] at quiet settled
          exact ih related settled quiet
      | false =>
          rw [unfinished, if_neg Bool.false_ne_true] at quiet settled
          rw [Bool.and_eq_true] at settled
          rw [withField_eq _ unfinished] at quiet ⊢
          obtain ⟨first, others⟩ := Quiet.append_iff.mp quiet
          obtain ⟨here, typed⟩ := Expr.checkAt_vaguer related settled.1 first
          obtain ⟨behind, after⟩ := ih (related.withField unfinished typed) settled.2 others
          exact ⟨List.append_eq_nil_iff.mpr ⟨here, behind⟩, after⟩

/-- The type of a group, by the columns before the aggregation. -/
theorem group_vaguer {base whole : ColumnSet} (origin : base.Below whole) {field : Expr}
    (typed : field.namedValue.2.column?.isSome = true ∨
      Vaguer (field.namedValue.2.type? base) (field.namedValue.2.type? whole)) :
    (Command.group base field).Vaguer (Command.group whole field) := by
  obtain ⟨⟨name, value⟩, named⟩ : ∃ pair, field.namedValue = pair := ⟨_, rfl⟩
  rw [named] at typed
  rw [Command.group, Command.group, named]
  refine ⟨rfl, ?_⟩
  cases value with
  | column c => exact origin.typed c.name
  | _ => exact typed.resolve_left Bool.false_ne_true

/-- The groups of an aggregation, of which none reads what an earlier one is named. -/
theorem groups_vaguer {groups : List Expr} {base whole : ColumnSet} (origin : base.Below whole)
    (related : part.Below scope.columns) {earlier : List String}
    (untouched : ∀ name ∉ earlier, part.type? name = base.type? name ∧
      scope.columns.type? name = whole.type? name)
    (settled : Expr.fieldsSettled part groups = true)
    (apart : Expr.fieldsApart earlier (complete groups) = true) {place : Place}
    (quiet : Quiet (scope.checkFields place groups)) :
    List.Forall₂ Field.Vaguer ((complete groups).map (Command.group base))
      ((complete groups).map (Command.group whole)) := by
  induction groups generalizing scope part earlier with
  | nil => exact .nil
  | cons field rest ih =>
      rw [checkFields] at quiet
      rw [Expr.fieldsSettled] at settled
      rw [Esql.complete, List.filter_cons] at apart ⊢
      cases unfinished : field.incomplete with
      | true =>
          rw [unfinished] at quiet settled apart
          exact ih related untouched settled apart quiet
      | false =>
          rw [unfinished, if_neg Bool.false_ne_true] at quiet settled
          rw [unfinished, Bool.not_false, if_pos rfl, Expr.fieldsApart, Bool.and_eq_true,
            Bool.or_eq_true] at apart
          rw [Bool.and_eq_true] at settled
          rw [withField_eq _ unfinished] at quiet
          obtain ⟨first, others⟩ := Quiet.append_iff.mp quiet
          obtain ⟨-, typed⟩ := Expr.checkAt_vaguer related settled.1 first
          refine .cons (group_vaguer origin (apart.1.imp_right fun free => ?_))
            (ih (related.withField unfinished typed) ?_ settled.2 apart.2 others)
          · have read : ∀ name, field.namedValue.2.reads name = true → name ∉ earlier := by
              intro name reads member
              have unread := List.all_eq_true.mp free name member
              rw [reads] at unread
              contradiction
            rw [← Expr.type?_namedValue unfinished, ← Expr.type?_namedValue unfinished,
              Expr.type?_congr _ fun name reads =>
                ColumnSet.usableType?_congr (untouched name (read name reads)).1,
              Expr.type?_congr _ fun name reads =>
                ColumnSet.usableType?_congr (untouched name (read name reads)).2] at typed
            exact typed
          · intro name new
            rw [List.mem_cons, not_or] at new
            rw [ColumnSet.withField, ColumnSet.withField, ColumnSet.type?_insert,
              ColumnSet.type?_insert, if_neg new.1, if_neg new.1]
            exact untouched name new.2

theorem grave_checkAggregated (scope : Scope) (value : Expr) :
    Grave (scope.checkAggregated value) := by
  rw [checkAggregated]
  split
  · exact .single rfl
  · split
    · exact .single rfl
    · exact .nil

/-- What an aggregated field may not hold does not depend on types. -/
theorem checkAggregate_vaguer {field : Expr} (related : part.Below scope.columns)
    (settled : field.settled part = true) (quiet : Quiet (scope.checkAggregate field)) :
    checkAggregate { scope with columns := part } field = [] ∧
      Vaguer (field.type? part) (field.type? scope.columns) := by
  rw [checkAggregate] at quiet
  split at quiet
  · rename_i clear
    obtain ⟨here, typed⟩ := Expr.checkAt_vaguer related settled (.of_eq_nil clear)
    refine ⟨?_, typed⟩
    rw [checkAggregate, here]
    exact quiet.eq_nil (scope.grave_checkAggregated _)
  · rename_i faulty
    exact absurd (quiet.eq_nil (Expr.grave_check field scope .stats none)) faulty

end Scope

theorem Command.aggregate_vaguer {part whole : ColumnSet} {field : Expr}
    (complete : field.incomplete = false) (inner : field.unfiltered.incomplete = false)
    (typed : Vaguer (field.type? part) (field.type? whole)) :
    (aggregate part field).Vaguer (aggregate whole field) := by
  refine ⟨rfl, ?_⟩
  change Vaguer (field.unfiltered.namedValue.2.type? part)
    (field.unfiltered.namedValue.2.type? whole)
  rw [Expr.type?_namedValue inner, Expr.type?_namedValue inner, Expr.type?_unfiltered complete,
    Expr.type?_unfiltered complete]
  exact typed

end Esql
