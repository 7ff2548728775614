import Esql.Check.Fields
import Esql.Proofs.Callable.Indexed
import Esql.Proofs.Callable.Steady
import Esql.Proofs.Syntax.Visited

/-!
# Expressions under two tiers

Of an expression a higher tier is told what a lower one is told, some signatures aside that require
a tier. Only aggregations have such signatures. So where an aggregation is refused, and the
signature with it, an expression is without faults for both tiers or for none. Only in the field of
an aggregation can all faults go with the tier.
-/

namespace Esql

/-! ## The catalog -/

namespace Callable

/-- No tier is required of every use, and only of an aggregation for some. -/
def tiersAggregations (callable : Callable) : Bool :=
  callable.license?.isNone &&
    ((callable.isAggregation && callable.places == [.stats]) ||
      callable.signatures.all (·.license?.isNone))

theorem tiersAggregations_of_named? {name : String} {callable : Callable}
    (named : named? name = some callable) : callable.tiersAggregations = true := by
  have all : catalog.all tiersAggregations = true := by decide +kernel
  exact List.all_eq_true.mp all callable (mem_catalog_of_named? named).1

variable {callable : Callable}

theorem license?_eq_none (tiers : callable.tiersAggregations = true) : callable.license? = none :=
  Option.isNone_iff_eq_none.mp ((Bool.and_eq_true _ _).mp tiers).1

theorem signatures_of_tiersAggregations (tiers : callable.tiersAggregations = true) :
    (∀ signature ∈ callable.signatures, signature.license? = none) ∨
      callable.isAggregation = true ∧ callable.places = [.stats] := by
  rw [tiersAggregations, Bool.and_eq_true, Bool.or_eq_true, Bool.and_eq_true, beq_iff_eq] at tiers
  refine tiers.2.symm.imp_left fun free signature member => ?_
  exact Option.isNone_iff_eq_none.mp (List.all_eq_true.mp free signature member)

end Callable

/-! ## What a tier adds -/

/-- The second list of diagnostics is the first one without some signatures that require a tier. -/
structure Lifted (lower upper : List Diagnostic) : Prop where
  kept : upper ⊆ lower
  lifted : ∀ diagnostic ∈ lower,
    diagnostic ∈ upper ∨ diagnostic.notice = .licenseRequiredForSignature

namespace Lifted

variable {lower upper : List Diagnostic}

theorem refl (found : List Diagnostic) : Lifted found found :=
  ⟨List.Subset.refl found, fun _ => .inl⟩

theorem append {otherLower otherUpper : List Diagnostic} (here : Lifted lower upper)
    (there : Lifted otherLower otherUpper) :
    Lifted (lower ++ otherLower) (upper ++ otherUpper) where
  kept := List.append_subset.mpr
    ⟨List.subset_append_of_subset_left _ here.kept, List.subset_append_of_subset_right _ there.kept⟩
  lifted := by
    rw [List.forall_mem_append]
    exact ⟨fun diagnostic found => (here.lifted diagnostic found).imp_left (List.mem_append_left _),
      fun diagnostic found => (there.lifted diagnostic found).imp_left (List.mem_append_right _)⟩

theorem flatMap {α : Type} {checkLower checkUpper : α → List Diagnostic} {items : List α}
    (each : ∀ item ∈ items, Lifted (checkLower item) (checkUpper item)) :
    Lifted (items.flatMap checkLower) (items.flatMap checkUpper) := by
  induction items with
  | nil => exact .refl []
  | cons item rest ih =>
      rw [List.forall_mem_cons] at each
      exact each.1.append (ih each.2)

theorem eq_nil (related : Lifted [] upper) : upper = [] :=
  List.subset_nil.mp related.kept

end Lifted

section

variable {columns : ColumnSet} {command : String} {lower : License} {upper? : Option License}

namespace Scope

/-- A tier that the higher caller lacks is lacked by the lower one. -/
theorem lacking?_of_raised (raised : ∀ upper ∈ upper?, upper.allows lower = true)
    {required? : Option License} {tier : License}
    (lacks : (Scope.mk columns upper? command).lacking? required? = some tier) :
    (Scope.mk columns (some lower) command).lacking? required? = some tier := by
  cases upper? with
  | none => contradiction
  | some upper =>
      change Option.filter _ _ = _ at lacks
      change Option.filter _ _ = _
      rw [Option.filter_eq_some_iff, Bool.not_eq_true'] at lacks ⊢
      refine ⟨lacks.1, Bool.eq_false_iff.mpr fun allowed => ?_⟩
      rw [License.allows_trans (raised upper rfl) allowed] at lacks
      exact Bool.noConfusion lacks.2

end Scope

namespace Callable

variable {callable : Callable}

theorem checkLicense_eq (unlicensed : callable.license? = none) (scope : Scope)
    (signature : Signature) (span : Span) : callable.checkLicense scope signature span =
      ((scope.lacking? signature.license?).map fun required =>
        (Finding.licenseRequiredForSignature (Text.upper callable.name) signature.describe
          required).about span).toList := by
  rw [checkLicense, unlicensed, Scope.lacking?_none]
  cases scope.lacking? signature.license? <;> rfl

theorem lifted_checkLicense (raised : ∀ upper ∈ upper?, upper.allows lower = true)
    (unlicensed : callable.license? = none) (signature : Signature) (span : Span) :
    Lifted (callable.checkLicense ⟨columns, some lower, command⟩ signature span)
      (callable.checkLicense ⟨columns, upper?, command⟩ signature span) := by
  rw [checkLicense_eq unlicensed, checkLicense_eq unlicensed]
  cases lacks : (Scope.mk columns upper? command).lacking? signature.license? with
  | some tier =>
      rw [Scope.lacking?_of_raised raised lacks]
      exact .refl _
  | none =>
      refine ⟨List.nil_subset _, fun diagnostic found => .inr ?_⟩
      obtain ⟨tier, -, rfl⟩ := Option.map_eq_some_iff.mp (Option.mem_toList.mp found)
      rfl

theorem lifted_checkCall (raised : ∀ upper ∈ upper?, upper.allows lower = true)
    (unlicensed : callable.license? = none) (args : List Expr) (givens : List Given) (span : Span) :
    Lifted (callable.checkCall ⟨columns, some lower, command⟩ args givens span)
      (callable.checkCall ⟨columns, upper?, command⟩ args givens span) := by
  rw [checkCall, checkCall]
  cases callable.resolve givens with
  | matched signature _ _ => exact lifted_checkLicense raised unlicensed signature span
  | _ => exact .refl _

/-- Without tiers of signatures, a call is checked alike under all tiers. -/
theorem checkCall_congr (unlicensed : callable.license? = none)
    (free : ∀ signature ∈ callable.signatures, signature.license? = none) (args : List Expr)
    (givens : List Given) (span : Span) :
    callable.checkCall ⟨columns, some lower, command⟩ args givens span =
      callable.checkCall ⟨columns, upper?, command⟩ args givens span := by
  rw [checkCall, checkCall]
  cases resolved : callable.resolve givens with
  | matched signature index type? =>
      have member := mem_of_chosen? (matched_iff.mp resolved).1
      dsimp only
      rw [checkLicense_eq unlicensed, checkLicense_eq unlicensed, free signature member,
        Scope.lacking?_none, Scope.lacking?_none]
  | _ => rfl

/-- A call without faults for the higher tier has none for the lower one either, unless it is one of
an aggregation where those may stand. -/
theorem checkCall_eq_nil (tiers : callable.tiersAggregations = true) {place : Place}
    {span : Span} (allowed : callable.checkPlace ⟨columns, upper?, command⟩ place span = [])
    {args : List Expr} {givens : List Given}
    (clear : callable.checkCall ⟨columns, upper?, command⟩ args givens span = []) :
    callable.checkCall ⟨columns, some lower, command⟩ args givens span = [] ∨
      place = .stats ∧ callable.isAggregation = true := by
  rcases signatures_of_tiersAggregations tiers with free | ⟨aggregation, places⟩
  · rw [checkCall_congr (license?_eq_none tiers) free]
    exact .inl clear
  · refine .inr ⟨?_, aggregation⟩
    rw [checkPlace, places] at allowed
    split at allowed
    · rename_i listed
      exact List.mem_singleton.mp (List.contains_iff_mem.mp listed)
    · split at allowed <;> contradiction

end Callable

namespace Expr

mutual

/-- Of an expression, the higher tier is told what the lower one is told, some signatures aside. -/
theorem lifted_check (raised : ∀ upper ∈ upper?, upper.allows lower = true) (expr : Expr)
    (place : Place) (outer? : Option String) :
    Lifted (expr.check ⟨columns, some lower, command⟩ place outer?)
      (expr.check ⟨columns, upper?, command⟩ place outer?) := by
  cases expr with
  | literal l => exact .refl []
  | column c =>
      rw [check, check]
      exact .refl _
  | interval i =>
      rw [check, check]
      exact .refl _
  | list items extent =>
      rw [check, check]
      split
      · exact .refl []
      · exact lifted_checkAll raised items place outer? none
  | cast value target extent =>
      rw [check, check]
      split
      · exact .refl []
      · exact lifted_check raised value place outer?
  | apply name form args extent =>
      rw [check.eq_def, check.eq_def]
      dsimp only
      split
      · exact .refl []
      · split
        · match args with
          | [] => exact .refl []
          | [_] => exact .refl []
          | _ :: value :: _ => exact lifted_check raised value place outer?
        · split
          · match args with
            | [] => exact .refl []
            | [filtered] => exact lifted_check raised filtered place outer?
            | filtered :: condition :: _ =>
                exact (lifted_check raised filtered place outer?).append
                  (lifted_check raised condition .statsWhere outer?)
          · cases named : Callable.named? name with
            | none => exact (Lifted.refl [_]).append (lifted_checkAll raised args place outer? none)
            | some callable =>
                have unlicensed :=
                  Callable.license?_eq_none (Callable.tiersAggregations_of_named? named)
                exact ((Lifted.refl _).append
                  (lifted_checkAll raised args place (callable.around outer?) (some name))).append
                  (Callable.lifted_checkCall raised unlicensed args _ extent.span)

theorem lifted_checkAll (raised : ∀ upper ∈ upper?, upper.allows lower = true)
    (exprs : List Expr) (place : Place) (outer? function? : Option String) :
    Lifted (checkAll ⟨columns, some lower, command⟩ place outer? function? exprs)
      (checkAll ⟨columns, upper?, command⟩ place outer? function? exprs) := by
  cases exprs with
  | nil => exact .refl []
  | cons expr rest =>
      rw [checkAll, checkAll]
      refine Lifted.append ?_ (lifted_checkAll raised rest place outer? function?)
      split
      · exact .refl []
      · exact lifted_check raised expr place outer?

end

theorem hasAggregation_of_part {part expr : Expr} (inside : part ∈ expr.children)
    (aggregated : part.hasAggregation = true) : expr.hasAggregation = true := by
  rw [hasAggregation, List.any_eq_true] at aggregated ⊢
  obtain ⟨name, member, aggregation⟩ := aggregated
  obtain ⟨applied, walked, same⟩ := List.mem_filterMap.mp member
  have below : applied ∈ expr.walk := walk_subset_of_child inside walked
  exact ⟨name, List.mem_filterMap.mpr ⟨applied, below, same⟩, aggregation⟩

theorem hasAggregation_of_named? {name : String} {form : Form} {args : List Expr} {extent : Extent}
    {callable : Callable} (named : Callable.named? name = some callable)
    (aggregation : callable.isAggregation = true) :
    (apply name form args extent).hasAggregation = true := by
  rw [hasAggregation, walk, List.any_eq_true]
  refine ⟨name, List.mem_filterMap.mpr ⟨_, List.mem_cons_self, rfl⟩, ?_⟩
  rw [Callable.isAggregationName, named]
  exact aggregation

mutual

/-- An expression without faults for the higher tier has none for the lower one either, unless it
is an aggregated value with an aggregation in it. -/
theorem check_eq_nil (expr : Expr) {place : Place} {outer? : Option String}
    (clear : expr.check ⟨columns, upper?, command⟩ place outer? = []) :
    expr.check ⟨columns, some lower, command⟩ place outer? = [] ∨
      place = .stats ∧ expr.hasAggregation = true := by
  cases expr with
  | literal l => exact .inl clear
  | column c => exact .inl clear
  | interval i => exact .inl clear
  | list items extent =>
      rw [check] at clear ⊢
      split
      · exact .inl rfl
      · rename_i complete
        rw [if_neg complete] at clear
        exact (checkAll_eq_nil items clear).imp_right fun ⟨stats, item, member, aggregated⟩ =>
          ⟨stats, hasAggregation_of_part member aggregated⟩
  | cast value target extent =>
      rw [check] at clear ⊢
      split
      · exact .inl rfl
      · rename_i complete
        rw [if_neg complete] at clear
        exact (check_eq_nil value clear).imp_right fun ⟨stats, aggregated⟩ =>
          ⟨stats, hasAggregation_of_part (List.mem_singleton_self value) aggregated⟩
  | apply name form args extent =>
      rw [check.eq_def] at clear ⊢
      dsimp only at clear ⊢
      split at clear
      · rename_i closed
        rw [if_pos closed]
        exact .inl rfl
      · rename_i complete
        rw [if_neg complete]
        split at clear
        · rename_i assigned
          rw [if_pos assigned]
          match args with
          | [] => exact .inl rfl
          | [_] => exact .inl rfl
          | _ :: value :: _ =>
              exact (check_eq_nil value clear).imp_right fun ⟨stats, aggregated⟩ =>
                ⟨stats, hasAggregation_of_part (.tail _ (.head _)) aggregated⟩
        · rename_i notAssigned
          rw [if_neg notAssigned]
          split at clear
          · rename_i restricted
            rw [if_pos restricted]
            match args with
            | [] => exact .inl rfl
            | [filtered] =>
                exact (check_eq_nil filtered clear).imp_right fun ⟨stats, aggregated⟩ =>
                  ⟨stats, hasAggregation_of_part (.head _) aggregated⟩
            | filtered :: condition :: _ =>
                obtain ⟨here, there⟩ := List.append_eq_nil_iff.mp clear
                refine (check_eq_nil filtered here).imp (fun none => ?_)
                  fun ⟨stats, aggregated⟩ =>
                    ⟨stats, hasAggregation_of_part (.head _) aggregated⟩
                exact List.append_eq_nil_iff.mpr
                  ⟨none, (check_eq_nil condition there).resolve_right fun aggregated =>
                    Place.noConfusion aggregated.1⟩
          · rename_i notRestricted
            rw [if_neg notRestricted]
            cases named : Callable.named? name with
            | none =>
                rw [named] at clear
                contradiction
            | some callable =>
                rw [named] at clear
                simp only [List.append_eq_nil_iff] at clear ⊢
                obtain ⟨⟨⟨allowed, nesting⟩, parts⟩, call⟩ := clear
                have tiers := Callable.tiersAggregations_of_named? named
                rcases checkAll_eq_nil args parts with inside | ⟨stats, arg, member, aggregated⟩
                · exact (Callable.checkCall_eq_nil tiers allowed call).imp
                    (⟨⟨⟨allowed, nesting⟩, inside⟩, ·⟩) fun ⟨stats, aggregation⟩ =>
                      ⟨stats, hasAggregation_of_named? named aggregation⟩
                · exact .inr ⟨stats, hasAggregation_of_part member aggregated⟩

theorem checkAll_eq_nil (exprs : List Expr) {place : Place} {outer? function? : Option String}
    (clear : checkAll ⟨columns, upper?, command⟩ place outer? function? exprs = []) :
    checkAll ⟨columns, some lower, command⟩ place outer? function? exprs = [] ∨
      place = .stats ∧ ∃ expr ∈ exprs, expr.hasAggregation = true := by
  cases exprs with
  | nil => exact .inl rfl
  | cons expr rest =>
      rw [checkAll, List.append_eq_nil_iff] at clear ⊢
      have first : (if function?.any expr.countsRows then [] else
            expr.check ⟨columns, some lower, command⟩ place outer?) = [] ∨
          place = .stats ∧ expr.hasAggregation = true := by
        split
        · exact .inl rfl
        · rename_i counted
          rw [if_neg counted] at clear
          exact check_eq_nil expr clear.1
      rcases first with here | ⟨stats, aggregated⟩
      · exact (checkAll_eq_nil rest clear.2).imp (⟨here, ·⟩)
          fun ⟨stats, other, member, aggregated⟩ =>
          ⟨stats, other, .tail _ member, aggregated⟩
      · exact .inr ⟨stats, expr, .head _, aggregated⟩

end

end Expr

end

end Esql
