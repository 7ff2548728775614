import Esql.Check.Columns
import Esql.Check.Pipeline
import Esql.Proofs.Check.Pointed

/-!
# Checks without errors and quiet checks

Besides errors a check can warn of a column whose type is not supported. Everything that is said of
an expression is one of the two, and some checks are only made where nothing was said. So a check
counts as quiet here if neither is found, and then nothing at all was said of expressions.
-/

namespace Esql

/-! ## Checks without errors

What is known when a check finds no error: a name that is checked is not missing for certain, and
renamings are of columns that may be there.
-/

/-- No diagnostic of a list is an error. -/
def Faultless (found : List Diagnostic) : Prop := ∀ diagnostic ∈ found, diagnostic.isError = false

instance (found : List Diagnostic) : Decidable (Faultless found) :=
  inferInstanceAs (Decidable (∀ diagnostic ∈ found, diagnostic.isError = false))

namespace Faultless

variable {first second : List Diagnostic}

theorem nil : Faultless [] := nofun

theorem not_iff : ¬ Faultless first ↔ ∃ diagnostic ∈ first, diagnostic.isError = true := by
  simp [Faultless]

theorem mono (faultless : Faultless second) (fewer : first ⊆ second) : Faultless first :=
  fun diagnostic found => faultless diagnostic (fewer found)

theorem append_iff : Faultless (first ++ second) ↔ Faultless first ∧ Faultless second :=
  List.forall_mem_append

theorem flatMap {α : Type} {check : α → List Diagnostic} {items : List α} {item : α}
    (faultless : Faultless (items.flatMap check)) (member : item ∈ items) :
    Faultless (check item) :=
  fun diagnostic found => faultless diagnostic (List.mem_flatMap.mpr ⟨item, member, found⟩)

end Faultless

/-- A diagnostic about an error is a fault. -/
theorem Faultless.not_cons_error {finding : Finding} (error : finding.notice.severity = .error)
    (span : Span) (rest : List Diagnostic) : ¬ Faultless (finding.about span :: rest) := by
  intro faultless
  have harmless : (finding.notice.severity == .error) = false :=
    faultless _ List.mem_cons_self
  rw [error] at harmless
  contradiction

theorem Scope.lacks_of_faultless {scope : Scope} {column : Column}
    (faultless : Faultless (scope.checkColumn column)) :
    scope.columns.lacks column.name = false := by
  rw [checkColumn] at faultless
  split at faultless
  · exact absurd faultless (Faultless.not_cons_error rfl _ _)
  · exact Bool.eq_false_iff.mpr (by assumption)

theorem Scope.checkColumn_eq_nil {scope : Scope} {column : Column}
    (present : scope.columns.lacks column.name = false) : scope.checkColumn column = [] := by
  rw [checkColumn, present]
  rfl

/-- A renaming without stars, of a column that may be there, is carried out. -/
theorem Scope.checkRenamings_cons {scope : Scope} {columns : Column × Column}
    (plain : [columns.1, columns.2].find? (fun column => Text.hasStar column.name) = none)
    (present : scope.columns.lacks columns.1.name = false) (rest : List (Column × Column)) :
    scope.checkRenamings (columns :: rest) =
      { scope with columns := scope.columns.renamed columns }.checkRenamings rest := by
  obtain ⟨old, new⟩ := columns
  dsimp only at plain present
  rw [checkRenamings, plain, checkColumn_eq_nil present, ColumnSet.renamed, present]
  rfl

/-- Renamings without errors have no stars and are of columns that may be there. -/
theorem Scope.renaming_of_faultless {scope : Scope} {columns : Column × Column}
    {rest : List (Column × Column)}
    (faultless : Faultless (scope.checkRenamings (columns :: rest))) :
    [columns.1, columns.2].find? (fun column => Text.hasStar column.name) = none ∧
      scope.columns.lacks columns.1.name = false := by
  obtain ⟨old, new⟩ := columns
  rw [checkRenamings] at faultless
  cases pattern : [old, new].find? fun column => Text.hasStar column.name with
  | some found =>
      rw [pattern] at faultless
      exact absurd faultless (Faultless.not_cons_error rfl _ _)
  | none =>
      rw [pattern] at faultless
      refine ⟨rfl, ?_⟩
      cases found : scope.checkColumn old with
      | nil => exact lacks_of_faultless (found ▸ Faultless.nil)
      | cons diagnostic others =>
          rw [found] at faultless
          exact lacks_of_faultless (found ▸ (Faultless.append_iff.mp faultless).1)

/-! ## Quiet checks -/

/-- The diagnostic is an error, or warns of a column whose type is not supported. -/
def Diagnostic.isGrave (diagnostic : Diagnostic) : Bool :=
  diagnostic.isError || diagnostic.notice == .unsupportedFieldType

/-- No diagnostic is grave. -/
def Quiet (found : List Diagnostic) : Prop := ∀ diagnostic ∈ found, diagnostic.isGrave = false

/-- All diagnostics are grave. -/
def Grave (found : List Diagnostic) : Prop := ∀ diagnostic ∈ found, diagnostic.isGrave = true

instance (found : List Diagnostic) : Decidable (Quiet found) :=
  inferInstanceAs (Decidable (∀ diagnostic ∈ found, diagnostic.isGrave = false))

namespace Quiet

variable {first second : List Diagnostic}

theorem nil : Quiet [] := nofun

theorem of_eq_nil (empty : first = []) : Quiet first := empty ▸ nil

theorem mono (quiet : Quiet second) (fewer : first ⊆ second) : Quiet first :=
  fun diagnostic found => quiet diagnostic (fewer found)

theorem append_iff : Quiet (first ++ second) ↔ Quiet first ∧ Quiet second :=
  List.forall_mem_append

theorem flatMap {α : Type} {check : α → List Diagnostic} {items : List α} {item : α}
    (quiet : Quiet (items.flatMap check)) (member : item ∈ items) : Quiet (check item) :=
  fun diagnostic found => quiet diagnostic (List.mem_flatMap.mpr ⟨item, member, found⟩)

theorem faultless (quiet : Quiet first) : Faultless first :=
  fun diagnostic found => (Bool.or_eq_false_iff.mp (quiet diagnostic found)).1

theorem eq_nil (quiet : Quiet first) (grave : Grave first) : first = [] := by
  cases first with
  | nil => rfl
  | cons diagnostic _ =>
      have harmless := quiet diagnostic List.mem_cons_self
      rw [grave diagnostic List.mem_cons_self] at harmless
      contradiction

end Quiet

namespace Grave

theorem nil : Grave [] := nofun

theorem single {finding : Finding} {span : Span} (grave : (finding.about span).isGrave = true) :
    Grave [finding.about span] :=
  List.forall_mem_singleton.mpr grave

end Grave

theorem Finding.isGrave_about {finding : Finding} (told : finding.isOfExpr = true) (span : Span) :
    (finding.about span).isGrave = true := by
  cases finding <;> first | rfl | cases told

/-- Whatever is said of an expression is grave. -/
theorem Expr.grave_check (expr : Expr) (scope : Scope) (place : Place) (outer? : Option String) :
    Grave (expr.check scope place outer?) := by
  intro diagnostic found
  obtain ⟨finding, told, node, -, rfl⟩ := expr.pointed_check scope place outer? diagnostic found
  exact finding.isGrave_about told node.span

end Esql
