import Esql.Check.Pipeline
import Esql.Proofs.Check.Tiers

/-!
# Queries under two tiers

A caller with a higher tier is told what a caller with a lower one is told, what requires a tier
aside. There is one exception. Whether the value of an aggregation is closed is only asked where
nothing else is wrong with it, so for the lower tier a missing signature can hide that it is not.
-/

namespace Esql

/-- The second list of diagnostics is the first one without some that require a tier, and with some
that those hide. -/
structure Eased (hides : Diagnostic → Diagnostic → Prop) (lower upper : List Diagnostic) :
    Prop where
  kept : ∀ diagnostic ∈ upper, diagnostic ∈ lower ∨ ∃ missing ∈ lower, hides missing diagnostic
  lifted : ∀ diagnostic ∈ lower, diagnostic ∈ upper ∨ diagnostic.notice = .licenseRequired ∨
    diagnostic.notice = .licenseRequiredForSignature

namespace Eased

variable {hides : Diagnostic → Diagnostic → Prop} {lower upper : List Diagnostic}

theorem of_lifted (related : Lifted lower upper) : Eased hides lower upper where
  kept _ found := .inl (related.kept found)
  lifted diagnostic found := (related.lifted diagnostic found).imp_right .inr

theorem refl (found : List Diagnostic) : Eased hides found found := .of_lifted (.refl found)

theorem mono {others : Diagnostic → Diagnostic → Prop} (related : Eased hides lower upper)
    (implies : ∀ missing diagnostic, hides missing diagnostic → others missing diagnostic) :
    Eased others lower upper where
  kept diagnostic found := (related.kept diagnostic found).imp_right
    fun ⟨missing, member, hidden⟩ => ⟨missing, member, implies missing diagnostic hidden⟩
  lifted := related.lifted

theorem append {otherLower otherUpper : List Diagnostic} (here : Eased hides lower upper)
    (there : Eased hides otherLower otherUpper) :
    Eased hides (lower ++ otherLower) (upper ++ otherUpper) where
  kept := by
    rw [List.forall_mem_append]
    constructor
    · intro diagnostic found
      exact (here.kept diagnostic found).imp (List.mem_append_left _)
        fun ⟨missing, member, hidden⟩ => ⟨missing, List.mem_append_left _ member, hidden⟩
    · intro diagnostic found
      exact (there.kept diagnostic found).imp (List.mem_append_right _)
        fun ⟨missing, member, hidden⟩ => ⟨missing, List.mem_append_right _ member, hidden⟩
  lifted := by
    rw [List.forall_mem_append]
    exact ⟨fun diagnostic found => (here.lifted diagnostic found).imp_left (List.mem_append_left _),
      fun diagnostic found => (there.lifted diagnostic found).imp_left (List.mem_append_right _)⟩

theorem flatMap {α : Type} {checkLower checkUpper : α → List Diagnostic} {items : List α}
    (each : ∀ item ∈ items, Eased hides (checkLower item) (checkUpper item)) :
    Eased hides (items.flatMap checkLower) (items.flatMap checkUpper) := by
  induction items with
  | nil => exact .refl []
  | cons item rest ih =>
      rw [List.forall_mem_cons] at each
      exact each.1.append (ih each.2)

end Eased

/-- The first diagnostic misses a tier in a field of an aggregation, the second one says that the
value of the field is not closed. -/
def Command.Hides (command : Command) (tier : License) (missing diagnostic : Diagnostic) : Prop :=
  ∃ field ∈ command.fields,
    (∃ columns, missing ∈ field.checkAt ⟨columns, some tier, command.displayName⟩ .stats) ∧
      missing.notice = .licenseRequiredForSignature ∧
      diagnostic = (Finding.aggregationNotClosed command.displayName
        field.unfiltered.namedValue.2.text).about field.unfiltered.namedValue.2.span

/-- The same in a field of one of several commands. -/
def HiddenAmong (commands : List Command) (tier : License) (missing diagnostic : Diagnostic) :
    Prop :=
  ∃ command ∈ commands, command.Hides tier missing diagnostic

theorem Eased.among {fewer more : List Command} {tier : License} {lower upper : List Diagnostic}
    (related : Eased (HiddenAmong fewer tier) lower upper) (subset : fewer ⊆ more) :
    Eased (HiddenAmong more tier) lower upper :=
  related.mono fun _ _ ⟨command, member, hidden⟩ => ⟨command, subset member, hidden⟩

section

variable {columns : ColumnSet} {name : String} {lower : License} {upper? : Option License}

/-! ## Fields -/

namespace Expr

theorem lifted_checkAt (raised : ∀ upper ∈ upper?, upper.allows lower = true) (expr : Expr)
    (place : Place) : Lifted (expr.checkAt ⟨columns, some lower, name⟩ place)
      (expr.checkAt ⟨columns, upper?, name⟩ place) :=
  lifted_check raised expr place none

/-- Where no aggregation may stand, an expression is without faults for both tiers or for none. -/
theorem checkAt_eq_nil_iff (raised : ∀ upper ∈ upper?, upper.allows lower = true) (expr : Expr)
    {place : Place} (other : place ≠ .stats) :
    expr.checkAt ⟨columns, some lower, name⟩ place = [] ↔
      expr.checkAt ⟨columns, upper?, name⟩ place = [] := by
  constructor
  · intro clear
    have related : Lifted [] (expr.checkAt ⟨columns, upper?, name⟩ place) :=
      clear ▸ expr.lifted_checkAt raised place
    exact related.eq_nil
  · intro clear
    exact (check_eq_nil expr clear).resolve_right fun aggregated => other aggregated.1

theorem lifted_checkTyped (raised : ∀ upper ∈ upper?, upper.allows lower = true) (expr : Expr)
    {place : Place} (other : place ≠ .stats) (fits : FieldType → Bool) (expected : String) :
    Lifted (expr.checkTyped ⟨columns, some lower, name⟩ place fits expected)
      (expr.checkTyped ⟨columns, upper?, name⟩ place fits expected) := by
  have related : Lifted (expr.checkAt ⟨columns, some lower, name⟩ place)
      (expr.checkAt ⟨columns, upper?, name⟩ place) := expr.lifted_checkAt raised place
  rw [checkTyped, checkTyped]
  cases (expr.type? columns).filter fun type => !fits type with
  | none => exact related
  | some given =>
      dsimp only
      by_cases clear : expr.checkAt ⟨columns, upper?, name⟩ place = []
      · rw [clear, (checkAt_eq_nil_iff raised expr other).mpr clear]
        exact .refl _
      · have faulty := mt (checkAt_eq_nil_iff raised expr other).mp clear
        rw [← List.isEmpty_iff] at clear faulty
        rw [if_neg clear, if_neg faulty]
        exact related

/-- The same of the value of a field, in which the faults of the field are. -/
theorem check_namedValue_eq_nil {field : Expr} {outer? : Option String}
    (clear : field.check ⟨columns, upper?, name⟩ .stats outer? = []) :
    field.check ⟨columns, some lower, name⟩ .stats outer? = [] ∨
      field.namedValue.2.hasAggregation = true := by
  rw [namedValue]
  cases assigned : field.assignment? with
  | none => exact (check_eq_nil field clear).imp_right And.right
  | some pair =>
      obtain ⟨target, value⟩ := pair
      rw [assignment?.eq_def] at assigned
      split at assigned
      · obtain ⟨rfl, rfl⟩ := Prod.mk.inj (Option.some.inj assigned)
        rename_i extent
        rw [check] at clear ⊢
        split
        · exact .inl rfl
        · rename_i complete
          rw [if_neg complete] at clear
          exact (check_eq_nil _ clear).imp_right And.right
      · contradiction

/-- The same of an aggregated field: no aggregation may stand in its condition. -/
theorem checkAt_unfiltered_eq_nil {field : Expr}
    (clear : field.checkAt ⟨columns, upper?, name⟩ .stats = []) :
    field.checkAt ⟨columns, some lower, name⟩ .stats = [] ∨
      field.unfiltered.namedValue.2.hasAggregation = true := by
  rw [unfiltered.eq_def]
  split
  · rename_i filtered conditions extent
    cases conditions with
    | nil =>
        rw [checkAt, check] at clear ⊢
        split
        · exact .inl rfl
        · rename_i complete
          rw [if_neg complete] at clear
          exact check_namedValue_eq_nil clear
    | cons condition _ =>
        rw [checkAt, check] at clear ⊢
        split
        · exact .inl rfl
        · rename_i complete
          rw [if_neg complete] at clear
          obtain ⟨value, restriction⟩ := List.append_eq_nil_iff.mp clear
          have there : condition.check ⟨columns, some lower, name⟩ .statsWhere none = [] :=
            (check_eq_nil condition restriction).resolve_right fun aggregated =>
              Place.noConfusion aggregated.1
          exact (check_namedValue_eq_nil value).imp_left fun here =>
            List.append_eq_nil_iff.mpr ⟨here, there⟩
  · exact check_namedValue_eq_nil clear

end Expr

namespace Scope

variable (raised : ∀ upper ∈ upper?, upper.allows lower = true)

include raised

theorem lifted_checkFields (place : Place) (fields : List Expr) :
    Lifted (Scope.checkFields ⟨columns, some lower, name⟩ place fields)
      (Scope.checkFields ⟨columns, upper?, name⟩ place fields) := by
  induction fields generalizing columns with
  | nil => exact .refl []
  | cons field rest ih =>
      rw [checkFields, checkFields]
      split
      · exact ih
      · exact (field.lifted_checkAt raised place).append ih

/-- Only what a missing signature hides is news to the higher tier. -/
theorem eased_checkAggregate {command : Command} {field : Expr} (member : field ∈ command.fields) :
    Eased (command.Hides lower)
      (Scope.checkAggregate ⟨columns, some lower, command.displayName⟩ field)
      (Scope.checkAggregate ⟨columns, upper?, command.displayName⟩ field) := by
  have related : Lifted (field.checkAt ⟨columns, some lower, command.displayName⟩ .stats)
      (field.checkAt ⟨columns, upper?, command.displayName⟩ .stats) :=
    field.lifted_checkAt raised .stats
  cases above : field.checkAt ⟨columns, upper?, command.displayName⟩ .stats with
  | cons first rest =>
      rw [above] at related
      obtain ⟨other, others, below⟩ :=
        List.exists_cons_of_ne_nil (List.ne_nil_of_mem (related.kept List.mem_cons_self))
      rw [checkAggregate, checkAggregate, above, below]
      rw [below] at related
      exact .of_lifted related
  | nil =>
      rw [above] at related
      cases below : field.checkAt ⟨columns, some lower, command.displayName⟩ .stats with
      | nil =>
          rw [checkAggregate, checkAggregate, above, below]
          exact .refl _
      | cons missing others =>
          have aggregated := (Expr.checkAt_unfiltered_eq_nil above).resolve_left
            (fun none => List.cons_ne_nil _ _ (below.symm.trans none))
          rw [below] at related
          have waived := fun diagnostic found =>
            (related.lifted diagnostic found).resolve_left List.not_mem_nil
          rw [checkAggregate, checkAggregate, above, below]
          refine ⟨fun diagnostic found => .inr ⟨missing, List.mem_cons_self, field, member, ?_⟩,
            fun diagnostic found => .inr (.inr (waived diagnostic found))⟩
          refine ⟨⟨columns, below ▸ List.mem_cons_self⟩, waived missing List.mem_cons_self, ?_⟩
          change diagnostic ∈ Scope.checkAggregated _ _ at found
          rw [checkAggregated, aggregated] at found
          split at found
          · contradiction
          · split at found
            · exact List.mem_singleton.mp found
            · contradiction

omit raised

theorem checkRenamings_congr (pairs : List (Column × Column)) :
    Scope.checkRenamings ⟨columns, some lower, name⟩ pairs =
      Scope.checkRenamings ⟨columns, upper?, name⟩ pairs := by
  induction pairs generalizing columns with
  | nil => rfl
  | cons pair rest ih =>
      obtain ⟨old, new⟩ := pair
      rw [checkRenamings, checkRenamings, ih, ih]
      rfl

end Scope

/-! ## Commands -/

namespace Command

variable (raised : ∀ upper ∈ upper?, upper.allows lower = true)

include raised

theorem lifted_checkWhere (command : Command) :
    Lifted (command.checkWhere ⟨columns, some lower, name⟩)
      (command.checkWhere ⟨columns, upper?, name⟩) := by
  rw [checkWhere, checkWhere]
  cases command.exprs.head? with
  | none => exact .refl []
  | some condition =>
      have other : Place.where ≠ .stats := nofun
      exact condition.lifted_checkTyped raised other _ _

theorem lifted_checkSort (command : Command) :
    Lifted (command.checkSort ⟨columns, some lower, name⟩)
      (command.checkSort ⟨columns, upper?, name⟩) :=
  .flatMap fun expr _ => expr.lifted_checkAt raised .sort

theorem lifted_checkInput (command : Command) {place : Place} (other : place ≠ .stats) :
    Lifted (command.checkInput ⟨columns, some lower, name⟩ place)
      (command.checkInput ⟨columns, upper?, name⟩ place) := by
  rw [checkInput, checkInput]
  split
  · rename_i input _
    exact input.lifted_checkTyped raised other _ _
  · exact .refl []

theorem lifted_checkJoin (command : Command) (snapshot : Snapshot) :
    Lifted (command.checkJoin ⟨columns, some lower, name⟩ snapshot)
      (command.checkJoin ⟨columns, upper?, name⟩ snapshot) := by
  rw [checkJoin, checkJoin]
  split
  · exact .refl []
  · dsimp only
    split
    · exact .refl _
    · exact .flatMap fun condition _ => condition.lifted_check raised .join none

theorem eased_checkStats (command : Command) :
    Eased (command.Hides lower)
      (command.checkStats ⟨columns, some lower, command.displayName⟩)
      (command.checkStats ⟨columns, upper?, command.displayName⟩) := by
  rw [checkStats, checkStats]
  split
  · exact .refl _
  · exact (Eased.flatMap fun _ member => Scope.eased_checkAggregate raised member).append
      (.of_lifted (Scope.lifted_checkFields raised .statsBy _))

theorem eased_checkPlain (command : Command) (snapshot : Snapshot) (verb : Verb) :
    Eased (command.Hides lower)
      (command.checkPlain ⟨columns, some lower, command.displayName⟩ snapshot verb)
      (command.checkPlain ⟨columns, upper?, command.displayName⟩ snapshot verb) := by
  cases verb with
  | row => exact .of_lifted (Scope.lifted_checkFields raised .row _)
  | eval => exact .of_lifted (Scope.lifted_checkFields raised .eval _)
  | «where» => exact .of_lifted (command.lifted_checkWhere raised)
  | stats => exact command.eased_checkStats raised
  | inlinestats => exact command.eased_checkStats raised
  | sort => exact .of_lifted (command.lifted_checkSort raised)
  | dissect =>
      have input : Lifted (command.checkInput ⟨columns, some lower, command.displayName⟩ .dissect)
          (command.checkInput ⟨columns, upper?, command.displayName⟩ .dissect) :=
        command.lifted_checkInput raised nofun
      exact .of_lifted (input.append (.refl _))
  | grok => exact .of_lifted (command.lifted_checkInput raised nofun)
  | join => exact .of_lifted (command.lifted_checkJoin raised snapshot)
  | rename =>
      change Eased _ (Scope.checkRenamings _ _) (Scope.checkRenamings _ _)
      rw [Scope.checkRenamings_congr]
      exact .refl _
  | _ => exact .refl _

theorem eased_checkLicense {hides : Diagnostic → Diagnostic → Prop} (command : Command)
    (verb : Verb) :
    Eased hides (command.checkLicense verb (some lower)) (command.checkLicense verb upper?) := by
  rw [checkLicense, checkLicense]
  cases above : (Scope.mk .unknown upper? command.displayName).lacking? verb.license? with
  | some tier =>
      rw [Scope.lacking?_of_raised raised above]
      exact .refl _
  | none =>
      refine ⟨nofun, fun diagnostic found => .inr (.inl ?_)⟩
      split at found
      · rw [List.mem_singleton.mp found]
        rfl
      · contradiction

end Command

mutual

/-- A command under two tiers: what is news to the higher one is hidden in it or in a branch. -/
theorem Command.eased_checkCommand (raised : ∀ upper ∈ upper?, upper.allows lower = true)
    (snapshot : Snapshot) (command : Command) (input : ColumnSet) :
    Eased (HiddenAmong command.visited lower)
      (command.check snapshot (some lower) input) (command.check snapshot upper? input) := by
  cases command with
  | mk name qualifier? text span nameSpan args incomplete =>
      let command : Command := ⟨name, qualifier?, text, span, nameSpan, args, incomplete⟩
      rw [Command.visited]
      cases named : Verb.ofName? command.name with
      | none =>
          rw [Command.check, Command.check, named]
          exact .refl []
      | some verb =>
          by_cases fork : verb = .fork
          · subst fork
            rw [Command.check, Command.check, named]
            exact (Eased.refl _).append <|
              (Argument.eased_checkBranches raised snapshot args input).among
                (List.subset_cons_self _ _)
          · rw [command.check_eq_plain named fork, command.check_eq_plain named fork]
            exact (command.eased_checkPlain raised snapshot verb).mono
              fun _ _ hidden => ⟨command, List.mem_cons_self, hidden⟩

theorem Argument.eased_checkBranches (raised : ∀ upper ∈ upper?, upper.allows lower = true)
    (snapshot : Snapshot) (arguments : List Argument) (input : ColumnSet) :
    Eased (HiddenAmong (Argument.visitedIn arguments) lower)
      (Argument.checkBranches snapshot (some lower) input arguments)
      (Argument.checkBranches snapshot upper? input arguments) := by
  cases arguments with
  | nil => exact .refl []
  | cons argument rest =>
      have behind : Eased (HiddenAmong (argument.visited ++ Argument.visitedIn rest) lower)
          (Argument.checkBranches snapshot (some lower) input rest)
          (Argument.checkBranches snapshot upper? input rest) :=
        (Argument.eased_checkBranches raised snapshot rest input).among
          (List.subset_append_right _ _)
      cases argument with
      | branch branch =>
          cases branch with
          | mk commands span incomplete =>
              exact ((Command.eased_checkAll raised snapshot commands input).among
                (List.subset_append_left _ _)).append behind
      | _ => exact behind

theorem Command.eased_checkAll (raised : ∀ upper ∈ upper?, upper.allows lower = true)
    (snapshot : Snapshot) (commands : List Command) (input : ColumnSet) :
    Eased (HiddenAmong (Command.visitedIn commands) lower)
      (Command.checkAll snapshot (some lower) input commands)
      (Command.checkAll snapshot upper? input commands) := by
  cases commands with
  | nil => exact .refl []
  | cons command rest =>
      rw [Command.checkAll, Command.checkAll]
      refine Eased.append ?_ <|
        (Command.eased_checkAll raised snapshot rest (command.after snapshot input)).among
          (List.subset_append_right _ _)
      split
      · split
        · exact .refl []
        · rename_i verb _ _
          exact (command.eased_checkLicense raised verb).append <|
            (Command.eased_checkCommand raised snapshot command input).among
              (List.subset_append_left _ _)
      · exact .refl []

end

end

/-- With a higher tier, or without one, what a query is told only loses what requires a tier, and
only gains what a missing signature hides in the same field of an aggregation. -/
theorem Pipeline.eased_check {lower : License} {upper? : Option License}
    (raised : ∀ upper ∈ upper?, upper.allows lower = true) (query : Pipeline)
    (snapshot : Snapshot) :
    Eased (HiddenAmong query.visited lower)
      (query.check snapshot (some lower)) (query.check snapshot upper?) := by
  cases query with
  | mk commands span incomplete =>
      exact ((Command.eased_checkAll raised snapshot commands .empty).append (.refl _)).append
        (.refl _)

/-- A tier that is missing for shapes hides that the value is not closed. -/
theorem Pipeline.eased_check_shapes :
    (∀ upper ∈ some License.enterprise, upper.allows .basic = true) ∧
      Eased
        (HiddenAmong
          (parse "FROM a | STATS st_extent_agg(to_geoshape(k)) IS NULL AND b").pipeline.visited
          .basic)
        ((parse "FROM a | STATS st_extent_agg(to_geoshape(k)) IS NULL AND b").pipeline.check
          { columns? := some [⟨"k", "keyword"⟩, ⟨"b", "boolean"⟩] } (some .basic))
        ((parse "FROM a | STATS st_extent_agg(to_geoshape(k)) IS NULL AND b").pipeline.check
          { columns? := some [⟨"k", "keyword"⟩, ⟨"b", "boolean"⟩] } (some .enterprise)) := by
  have raised : ∀ upper ∈ some License.enterprise, upper.allows .basic = true :=
    fun _ same => Option.some.inj same ▸ rfl
  exact ⟨raised, Pipeline.eased_check raised _ _⟩

/-- For the higher tier the value is found not to be closed. -/
theorem Pipeline.not_check_subset :
    (parse "FROM a | STATS st_extent_agg(to_geoshape(k)) IS NULL AND b").errors = [] ∧
      ¬ (parse "FROM a | STATS st_extent_agg(to_geoshape(k)) IS NULL AND b").pipeline.check
          { columns? := some [⟨"k", "keyword"⟩, ⟨"b", "boolean"⟩] } (some .enterprise) ⊆
        (parse "FROM a | STATS st_extent_agg(to_geoshape(k)) IS NULL AND b").pipeline.check
          { columns? := some [⟨"k", "keyword"⟩, ⟨"b", "boolean"⟩] } (some .basic) := by
  decide +kernel

end Esql
