import Esql.Proofs.Check.Quiet
import Esql.Proofs.Check.Unknown
import Esql.Proofs.Located.Check

/-!
# Fields without aggregation

Whether an aggregated field holds an aggregation is only looked at where nothing was said of its
expression. A column that is not supported is warned of, and a warning counts as something that was
said. So a field that reads such a column and has no other fault is told of by no error, though
nothing in it is aggregated.
-/

namespace Esql

/-- What is said of a column is an error unless the column is not supported. -/
theorem Scope.unsupported_of_harmless {scope : Scope} {column : Column} {diagnostic : Diagnostic}
    (found : diagnostic ∈ scope.checkValue column) (harmless : diagnostic.isError = false) :
    scope.columns.type? column.name = some .unsupported := by
  rw [checkValue, checkColumn] at found
  split at found
  · rename_i unsupported
    exact beq_iff_eq.mp unsupported
  · split at found
    · obtain rfl := List.mem_singleton.mp found
      cases harmless
    · cases found

/-- Where no error is said of an expression, something is said of it if and only if it reads a
column that is not supported. -/
theorem Expr.checkAt_ne_nil_iff {expr : Expr} (whole : expr.Whole) {scope : Scope} {place : Place}
    (faultless : Faultless (expr.checkAt scope place)) :
    expr.checkAt scope place ≠ [] ↔
      ∃ column ∈ expr.valuesRead, scope.columns.type? column.name = some .unsupported := by
  have columns : (expr.checkAt scope place).filter Diagnostic.isOfColumn =
      expr.valuesRead.flatMap scope.checkValue := expr.filter_check whole scope place none
  constructor
  · intro told
    obtain ⟨diagnostic, rest, split⟩ := List.exists_cons_of_ne_nil told
    have found : diagnostic ∈ expr.checkAt scope place := split ▸ List.mem_cons_self
    have harmless := faultless diagnostic found
    have grave := expr.grave_check scope place none diagnostic found
    -- Whatever is said is an error or such a warning, so here it is about a column.
    rw [Diagnostic.isGrave, harmless, Bool.false_or] at grave
    have warned : diagnostic.isOfColumn = true := by
      rw [Diagnostic.isOfColumn, grave, Bool.or_true]
    have member := List.mem_filter.mpr ⟨found, warned⟩
    rw [columns] at member
    obtain ⟨column, read, said⟩ := List.mem_flatMap.mp member
    exact ⟨column, read, Scope.unsupported_of_harmless said harmless⟩
  · rintro ⟨column, read, unsupported⟩ clear
    rw [clear, List.filter_nil] at columns
    have silent := List.flatMap_eq_nil_iff.mp columns.symm column read
    rw [Scope.checkValue, unsupported] at silent
    cases silent

namespace Scope

variable {scope : Scope} {field : Expr}

/-- What is said of an aggregated field is said of places in the field. -/
theorem covers_checkAggregate {source : String} (nested : field.Nested source) :
    ∀ diagnostic ∈ scope.checkAggregate field, field.span.covers diagnostic.span = true := by
  have inside (part : Expr) (member : part ∈ field.walk) := (nested.of_mem_walk part member).2
  have value := inside _ (field.unfiltered_walk_subset field.unfiltered.namedValue_mem_walk)
  intro diagnostic found
  rw [checkAggregate] at found
  split at found
  · rw [checkAggregated] at found
    split at found
    · obtain rfl := List.mem_singleton.mp found
      exact value
    · split at found
      · obtain rfl := List.mem_singleton.mp found
        exact value
      · cases found
  · obtain ⟨finding, -, node, member, rfl⟩ := field.pointed_check scope .stats none diagnostic found
    exact inside node member

/-- A field without aggregation has no error if and only if it reads a column that is not supported
and has no other fault. -/
theorem faultless_checkAggregate_iff (whole : field.Whole)
    (plain : field.unfiltered.namedValue.2.hasAggregation = false) :
    Faultless (scope.checkAggregate field) ↔
      Faultless (field.checkAt scope .stats) ∧
        ∃ column ∈ field.valuesRead, scope.columns.type? column.name = some .unsupported := by
  cases told : field.checkAt scope .stats with
  | nil =>
      have unread : ¬ ∃ column ∈ field.valuesRead,
          scope.columns.type? column.name = some .unsupported := fun reads =>
        (Expr.checkAt_ne_nil_iff whole (told ▸ Faultless.nil)).mpr reads told
      rw [checkAggregate, told, checkAggregated, plain]
      exact ⟨fun faultless => absurd faultless (Faultless.not_cons_error rfl _ _),
        fun reads => absurd reads.2 unread⟩
  | cons first rest =>
      rw [checkAggregate, told]
      refine iff_self_and.mpr fun faultless => ?_
      exact (Expr.checkAt_ne_nil_iff whole (told ▸ faultless)).mp
        (told ▸ List.cons_ne_nil first rest)

end Scope

namespace Command

/-- The expressions of a complete command are complete. -/
theorem exprs_complete {command : Command} (candid : (Node.command command).Candid)
    (whole : command.incomplete = false) : ∀ expr ∈ command.exprs, expr.incomplete = false :=
  fun expr member =>
    (candid.of_mem_walk (fun _ => Node.noConfusion) whole (.expr expr) (mem_walk_of_exprs member)).1

/-- What is said of an aggregated field is said of its command. -/
theorem checkAggregate_subset_check {command : Command}
    (title : command.name = "stats" ∨ command.name = "inlinestats") {field : Expr}
    (member : field ∈ command.fields) (snapshot : Snapshot) (license? : Option License)
    (input : ColumnSet) :
    Scope.checkAggregate ⟨input, license?, command.displayName⟩ field ⊆
      command.check snapshot license? input := by
  have given : command.args.isEmpty = false := by
    obtain ⟨argument, inside, -⟩ := List.mem_filterMap.mp (List.mem_filter.mp member).1
    exact List.isEmpty_eq_false_iff.mpr (List.ne_nil_of_mem inside)
  have stats : command.check snapshot license? input =
      command.checkStats ⟨input, license?, command.displayName⟩ := by
    rcases title with title | title
    · have named : Verb.ofName? command.name = some .stats := by rw [title]; rfl
      exact command.check_eq_plain named (by decide) snapshot license? input
    · have named : Verb.ofName? command.name = some .inlinestats := by rw [title]; rfl
      exact command.check_eq_plain named (by decide) snapshot license? input
  intro diagnostic found
  rw [stats, checkStats, given]
  exact List.mem_append_left _ (List.mem_flatMap.mpr ⟨field, member, found⟩)

/-- For every complete aggregation of a text and all columns, tiers and schemas: whatever is said of
a field is part of what is said of the command, at places in the field. If the value of the field
holds no aggregation, there is an error among it, unless the field reads a column that is not
supported and has no other fault. Then all that is said of the field are warnings. -/
theorem exists_error_checkAggregate {text : String} {command : Command}
    (visited : command ∈ (parse text).pipeline.visited)
    (title : command.name = "stats" ∨ command.name = "inlinestats")
    (whole : command.incomplete = false) {field : Expr} (member : field ∈ command.exprs)
    (plain : field.unfiltered.namedValue.2.hasAggregation = false) (snapshot : Snapshot)
    (license? : Option License) (input : ColumnSet) :
    (∀ diagnostic ∈ Scope.checkAggregate ⟨input, license?, command.displayName⟩ field,
      diagnostic ∈ command.check snapshot license? input ∧
        field.span.covers diagnostic.span = true) ∧
    ((∃ diagnostic ∈ Scope.checkAggregate ⟨input, license?, command.displayName⟩ field,
        diagnostic.isError = true) ↔
      ¬ (Faultless (field.checkAt ⟨input, license?, command.displayName⟩ .stats) ∧
        ∃ column ∈ field.valuesRead, input.type? column.name = some .unsupported)) := by
  have inside := visited
  rw [Pipeline.visited_eq] at inside
  have nested := (nested_visited text command inside).expr member
  have complete := exprs_complete (candid_visited text command inside) whole field member
  have read := whole_of_visited visited (mem_walk_of_exprs member) complete
  have field_mem : field ∈ command.fields := List.mem_filter.mpr ⟨member, by rw [complete]; rfl⟩
  refine ⟨fun diagnostic found => ⟨?_, Scope.covers_checkAggregate nested diagnostic found⟩, ?_⟩
  · exact checkAggregate_subset_check title field_mem snapshot license? input found
  · rw [← Faultless.not_iff, not_iff_not]
    exact Scope.faultless_checkAggregate_iff read plain

/-- The fields without aggregation of the complete aggregations of a text. -/
def unaggregated (text : String) : List (Command × Expr) :=
  (aggregating text).flatMap fun command =>
    (command.exprs.filter fun field =>
      !field.unfiltered.namedValue.2.hasAggregation).map (command, ·)

/-- A text with one field without aggregation. -/
theorem exists_of_unaggregated {α : Type} {read : Command × Expr → α} {text : String} {value : α}
    (only : (unaggregated text).map read = [value]) :
    ∃ command ∈ (parse text).pipeline.visited, command.name = "stats" ∧
      command.incomplete = false ∧ ∃ field ∈ command.exprs,
        field.unfiltered.namedValue.2.hasAggregation = false ∧ read (command, field) = value := by
  obtain ⟨pair, found, read⟩ := List.map_eq_singleton_iff.mp only
  have inside : pair ∈ unaggregated text := found ▸ List.mem_cons_self
  obtain ⟨command, aggregating, member⟩ := List.mem_flatMap.mp inside
  obtain ⟨visited, title, whole⟩ := mem_aggregating.mp aggregating
  obtain ⟨field, plain, rfl⟩ := List.mem_map.mp member
  rw [List.mem_filter, Bool.not_eq_true'] at plain
  exact ⟨command, visited, title, whole, field, plain.1, plain.2, read⟩

/-- A field with a name and a filter. -/
theorem exists_error_checkAggregate_filtered :
    ∃ command ∈ (parse "FROM a | STATS m = abs(x) + 1 WHERE x > 0").pipeline.visited,
      command.name = "stats" ∧ command.incomplete = false ∧ ∃ field ∈ command.exprs,
        field.unfiltered.namedValue.2.hasAggregation = false ∧
        ∃ diagnostic ∈ command.check {} none ⟨[⟨"x", some .long, false⟩], true⟩,
          diagnostic.isError = true ∧ field.span.covers diagnostic.span = true := by
  have only : (unaggregated "FROM a | STATS m = abs(x) + 1 WHERE x > 0").map
      (fun pair => pair.2.valuesRead.map (·.name)) = [["x", "x"]] := by decide +kernel
  obtain ⟨command, visited, title, whole, field, member, plain, read⟩ :=
    exists_of_unaggregated only
  obtain ⟨said, faulty⟩ := exists_error_checkAggregate visited (.inl title) whole member plain {}
    none ⟨[⟨"x", some .long, false⟩], true⟩
  have supported : ¬ ∃ column ∈ field.valuesRead,
      (ColumnSet.mk [⟨"x", some .long, false⟩] true).type? column.name = some .unsupported := by
    rintro ⟨column, inside, unsupported⟩
    have same : column.name ∈ ["x", "x"] := read ▸ List.mem_map_of_mem inside
    rw [List.mem_cons, List.mem_singleton, or_self] at same
    rw [same] at unsupported
    exact absurd unsupported (by decide)
  obtain ⟨diagnostic, found, error⟩ := faulty.mpr fun both => supported both.2
  exact ⟨command, visited, title, whole, field, member, plain, diagnostic,
    (said diagnostic found).1, error, (said diagnostic found).2⟩

/-- A column that is not supported hides that nothing is aggregated. -/
theorem not_exists_error_checkAggregate :
    ¬ ∀ (text : String) (command : Command), command ∈ (parse text).pipeline.visited →
      (parse text).errors = [] → command.name = "stats" ∨ command.name = "inlinestats" →
      command.incomplete = false → ∀ field ∈ command.exprs,
        field.unfiltered.namedValue.2.hasAggregation = false →
        ∀ (snapshot : Snapshot) (license? : Option License) (input : ColumnSet),
          ∃ diagnostic ∈ command.check snapshot license? input,
            diagnostic.isError = true ∧ field.span.covers diagnostic.span = true := by
  intro faulty
  have only : (unaggregated "FROM a | STATS u").map
      (fun pair => (pair.1.check {} none ⟨[⟨"u", some .unsupported, false⟩], true⟩).map
        (·.isError)) = [[false]] := by decide +kernel
  have clean : (parse "FROM a | STATS u").errors = [] := by decide +kernel
  obtain ⟨command, visited, title, whole, field, member, plain, read⟩ :=
    exists_of_unaggregated only
  obtain ⟨diagnostic, found, error, -⟩ := faulty _ command visited clean (.inl title) whole field
    member plain {} none ⟨[⟨"u", some .unsupported, false⟩], true⟩
  have harmless : diagnostic.isError ∈ [false] := read ▸ List.mem_map_of_mem found
  rw [error, List.mem_singleton] at harmless
  cases harmless

end Command

end Esql
