import Esql.Proofs.Callable.Overloads
import Esql.Proofs.Check.Quiet
import Esql.Proofs.Columns.Below

/-!
# Expressions over columns of which less is known

An expression in which nothing is wrong stays so when less is known of the columns, and its type
gets vaguer. A list has the type of the first item whose type is known. So the type of a list may
change when the type of its first item is lost; the lists of the expression have to be settled.
-/

namespace Esql

namespace Expr

mutual

/-- In every list either the first item has a type or none has. -/
def settled (columns : ColumnSet) : Expr → Bool
  | .literal _ | .column _ | .interval _ => true
  | .list items _ =>
      allSettled columns items &&
        ((types columns items).head?.all (·.isSome) || (types columns items).all (·.isNone))
  | .cast value _ _ => settled columns value
  | .apply _ _ args _ => allSettled columns args

def allSettled (columns : ColumnSet) : List Expr → Bool
  | [] => true
  | expr :: rest => settled columns expr && allSettled columns rest

end

mutual

/-- The type of a constant does not depend on columns. -/
theorem type?_of_isConstant (expr : Expr) (constant : expr.isConstant = true)
    (first second : ColumnSet) : expr.type? first = expr.type? second := by
  cases expr with
  | literal l => rfl
  | interval i => rfl
  | column c => contradiction
  | cast value target extent => rfl
  | list items extent =>
      rw [isConstant] at constant
      rw [type?, type?, types_of_areConstant items constant first second]
  | apply name form args extent =>
      rw [isConstant, Bool.and_eq_true] at constant
      rw [type?, type?, types_of_areConstant args constant.2 first second]

theorem types_of_areConstant (exprs : List Expr) (constant : areConstant exprs = true)
    (first second : ColumnSet) : types first exprs = types second exprs := by
  cases exprs with
  | nil => rfl
  | cons expr rest =>
      rw [areConstant, Bool.and_eq_true] at constant
      rw [types, types, type?_of_isConstant expr constant.1 first second,
        types_of_areConstant rest constant.2 first second]

end

theorem type?_of_string {literal : Literal} (string : literal.kind = .string)
    (columns : ColumnSet) :
    ∀ type ∈ (Expr.literal literal).type? columns, type = .keyword := by
  intro type typed
  rw [Expr.type?, Literal.type?, string] at typed
  split at typed
  · contradiction
  · exact (Option.some.inj typed).symm

/-- Of an argument no less is known than of its type. -/
theorem given_vaguer (function : String) (argument : Expr) {part whole : ColumnSet}
    (vaguer : argument.countsRows function = true ∨
      Vaguer (argument.type? part) (argument.type? whole)) :
    (given function argument (argument.type? part)).Vaguer
      (given function argument (argument.type? whole)) := by
  rw [given, given]
  split
  · exact ⟨rfl, rfl, rfl, .refl _, fun _ => rfl, nofun⟩
  · rename_i counted
    refine ⟨rfl, rfl, rfl, vaguer.resolve_left counted,
      fun constant => type?_of_isConstant argument constant part whole, ?_⟩
    intro quoted
    obtain ⟨literal, found⟩ := Option.isSome_iff_exists.mp quoted
    obtain ⟨read, string⟩ := Option.filter_eq_some_iff.mp found
    cases argument with
    | literal l =>
        obtain rfl := Option.some.inj read
        exact type?_of_string (beq_iff_eq.mp string) whole
    | _ => contradiction

theorem givens_vaguer (function : String) {args : List Expr} {part whole : ColumnSet}
    (vaguer : ∀ argument ∈ args, argument.countsRows function = true ∨
      Vaguer (argument.type? part) (argument.type? whole)) :
    List.Forall₂ Given.Vaguer (givens function args (types part args))
      (givens function args (types whole args)) := by
  induction args with
  | nil => exact .nil
  | cons argument rest ih =>
      rw [List.forall_mem_cons] at vaguer
      exact .cons (given_vaguer function argument vaguer.1) (ih vaguer.2)

theorem length_givens (function : String) (args : List Expr) (columns : ColumnSet) :
    (givens function args (types columns args)).length = args.length := by
  rw [givens, types_eq_map, List.length_zipWith, List.length_map, Nat.min_self]

/-- The type of a settled list. -/
theorem findSome?_vaguer {vagues exacts : List (Option FieldType)}
    (vaguer : List.Forall₂ Vaguer vagues exacts)
    (settled : (vagues.head?.all (·.isSome) || vagues.all (·.isNone)) = true) :
    Vaguer (vagues.findSome? id) (exacts.findSome? id) := by
  rcases Bool.or_eq_true_iff.mp settled with first | absent
  · cases vaguer with
    | nil => exact .refl _
    | cons head _ =>
        obtain ⟨type, typed⟩ := Option.isSome_iff_exists.mp first
        obtain ⟨other, same, alike⟩ := head type typed
        rw [typed, same]
        exact Vaguer.some_iff.mpr ⟨other, rfl, alike⟩
  · have none : vagues.findSome? id = .none := by
      rw [List.findSome?_eq_none_iff]
      exact fun type? member =>
        Option.isNone_iff_eq_none.mp (List.all_eq_true.mp absent type? member)
    rw [none]
    exact .none _

end Expr

/-! ## Calls without faults -/

/-- What is wrong with an argument is wrong with one that is there, and a type that is turned down
is known. -/
def Resolution.concerns (args : List Given) : Resolution → Prop
  | .matched .. | .wrongArity _ => True
  | .wrongType _ _ position _ =>
      ∃ given, args[position]? = some given ∧ given.type?.isSome = true
  | .notConstant position | .unsupportedValue position _ => position < args.length

namespace Signature

variable {signature : Signature} {args : List Given}

theorem typed_of_firstMismatch?From {start position : Nat}
    (mismatch : signature.firstMismatch?From start args = some position) :
    start ≤ position ∧
      ∃ given, args[position - start]? = some given ∧ given.type?.isSome = true := by
  induction args generalizing start with
  | nil => contradiction
  | cons given rest ih =>
      rw [firstMismatch?From] at mismatch
      split at mismatch
      · rename_i rejected
        obtain rfl := Option.some.inj mismatch
        refine ⟨Nat.le_refl _, given, by rw [Nat.sub_self]; rfl, ?_⟩
        rw [rejects] at rejected
        split at rejected
        · rename_i typed
          rw [typed]
          rfl
        · contradiction
      · obtain ⟨behind, found, here, typed⟩ := ih mismatch
        refine ⟨by omega, found, ?_, typed⟩
        rw [show position - start = position - (start + 1) + 1 by omega]
        exact here

theorem concerns_of_firstValueFault?From {start : Nat} {fault : Resolution} {earlier : List Given}
    (length : earlier.length = start)
    (found : signature.firstValueFault?From start args = some fault) :
    fault.concerns (earlier ++ args) := by
  induction args generalizing start earlier with
  | nil => contradiction
  | cons given rest ih =>
      rw [firstValueFault?From] at found
      split at found
      · rename_i faulty
        obtain rfl := Option.some.inj found
        have inside : start < (earlier ++ given :: rest).length := by
          rw [List.length_append, List.length_cons]
          omega
        rw [valueFault?] at faulty
        split at faulty
        · contradiction
        · split at faulty
          · obtain rfl := Option.some.inj faulty
            exact inside
          · split at faulty
            · split at faulty
              · obtain rfl := Option.some.inj faulty
                exact inside
              · contradiction
            · contradiction
      · rw [List.append_cons]
        refine ih ?_ found
        rw [List.length_append, length]
        rfl

end Signature

namespace Callable

variable {callable : Callable} {args : List Given}

theorem mem_of_closest? {count : Nat} {candidates : List (Signature × Nat)}
    {candidate : Signature × Nat} (closest : closest? count candidates = some candidate) :
    candidate ∈ candidates := by
  induction candidates generalizing candidate with
  | nil => contradiction
  | cons first rest ih =>
      rw [closest?] at closest
      split at closest
      · obtain rfl := Option.some.inj closest
        exact List.mem_cons_self
      · rename_i later found
        split at closest
        · obtain rfl := Option.some.inj closest
          exact List.mem_cons_of_mem _ (ih found)
        · obtain rfl := Option.some.inj closest
          exact List.mem_cons_self

theorem concerns_resolve (callable : Callable) (args : List Given) :
    (callable.resolve args).concerns args := by
  rw [resolve]
  split
  · rename_i signature index _
    cases fault : signature.firstValueFault?From 0 args with
    | none => exact trivial
    | some other => exact @Signature.concerns_of_firstValueFault?From _ _ _ _ [] rfl fault
  · rename_i absent
    split
    · rename_i signature index closest
      split
      · rename_i fits
        have refused := List.find?_eq_none.mp absent _ (mem_of_closest? closest)
        rw [Signature.accepts, fits, Bool.true_and, Bool.not_eq_true, Option.isNone_eq_false_iff,
          Option.isSome_iff_exists] at refused
        obtain ⟨position, first⟩ := refused
        rw [first]
        exact (Signature.typed_of_firstMismatch?From first).2
      · exact trivial
    · exact trivial

/-- A call about which there is nothing to say is matched, by a signature that the tier allows. -/
theorem matched_of_checkCall_eq_nil {scope : Scope} {exprs : List Expr} {span : Span}
    (length : args.length = exprs.length) (clear : callable.checkCall scope exprs args span = []) :
    ∃ signature index type?, callable.resolve args = .matched signature index type? ∧
      callable.checkLicense scope signature span = [] := by
  have concerns := concerns_resolve callable args
  rw [checkCall] at clear
  split at clear <;> rename_i resolved <;> rw [resolved] at concerns
  · exact ⟨_, _, _, resolved, clear⟩
  · contradiction
  · obtain ⟨given, here, typed⟩ := concerns
    obtain ⟨type, known⟩ := Option.isSome_iff_exists.mp typed
    obtain ⟨inside, -⟩ := List.getElem?_eq_some_iff.mp here
    rw [here, Option.bind_some, known, List.getElem?_eq_getElem (length ▸ inside)] at clear
    contradiction
  · rw [List.getElem?_eq_getElem (length ▸ concerns)] at clear
    contradiction
  · rw [List.getElem?_eq_getElem (length ▸ concerns)] at clear
    contradiction

theorem checkLicense_eq_nil_iff {scope : Scope} {signature : Signature} {span : Span} :
    callable.checkLicense scope signature span = [] ↔
      scope.lacking? callable.license? = none ∧ scope.lacking? signature.license? = none := by
  rw [checkLicense]
  cases scope.lacking? callable.license? <;> cases scope.lacking? signature.license? <;> simp

/-- A call about which there is nothing to say stays so when less is known of its arguments. -/
theorem checkCall_vaguer (steady : callable.Steady) {scope : Scope} {exprs : List Expr}
    {span : Span}
    {vagues exacts : List Given} (vaguer : List.Forall₂ Given.Vaguer vagues exacts)
    (length : exacts.length = exprs.length)
    (clear : callable.checkCall scope exprs exacts span = []) :
    callable.checkCall scope exprs vagues span = [] ∧
      ∃ first firstIndex firstType? second secondIndex secondType?,
        callable.resolve vagues = .matched first firstIndex firstType? ∧
        callable.resolve exacts = .matched second secondIndex secondType? ∧
        Vaguer firstType? secondType? := by
  obtain ⟨second, secondIndex, secondType?, matched, allowed⟩ :=
    matched_of_checkCall_eq_nil length clear
  obtain ⟨first, firstIndex, firstType?, tried, license, typed⟩ := steady.matched vaguer matched
  refine ⟨?_, first, firstIndex, firstType?, second, secondIndex, secondType?, tried, matched,
    typed⟩
  rw [checkCall, tried]
  rw [checkLicense_eq_nil_iff] at allowed
  refine checkLicense_eq_nil_iff.mpr ⟨allowed.1, ?_⟩
  rcases license with free | same
  · rw [free, Scope.lacking?_none]
  · rw [same, allowed.2]

end Callable

/-! ## Expressions -/

theorem ColumnSet.Below.usableType?_vaguer {part whole : ColumnSet} (related : part.Below whole)
    (name : String) : Vaguer (part.usableType? name) (whole.usableType? name) := by
  intro type usable
  obtain ⟨known, supported⟩ := Option.filter_eq_some_iff.mp usable
  obtain ⟨other, same, alike⟩ := related.typed name type known
  refine ⟨other, Option.filter_eq_some_iff.mpr ⟨same, ?_⟩, alike⟩
  rcases alike with rfl | ⟨-, shape⟩
  · exact supported
  · cases other <;> first | contradiction | rfl

theorem Scope.checkValue_vaguer {scope : Scope} {part : ColumnSet}
    (related : part.Below scope.columns) {column : Column} (clear : scope.checkValue column = []) :
    checkValue { scope with columns := part } column = [] := by
  rw [checkValue] at clear ⊢
  split at clear
  · contradiction
  · rename_i supported
    have usable : ¬ (part.type? column.name == some .unsupported) = true := by
      rw [beq_iff_eq] at supported ⊢
      intro unsupported
      obtain ⟨other, same, rfl | ⟨shape, -⟩⟩ := related.typed column.name _ unsupported
      · exact supported same
      · contradiction
    rw [if_neg usable]
    refine checkColumn_eq_nil (related.lacks_eq_false ?_)
    rw [checkColumn] at clear
    split at clear
    · contradiction
    · exact Bool.eq_false_iff.mpr (by assumption)

namespace Expr

variable {scope : Scope} {part : ColumnSet}

mutual

/-- Nothing is wrong with an expression over columns of which less is known, if its lists are
settled, and its type is vaguer. -/
theorem check_vaguer (expr : Expr) (related : part.Below scope.columns)
    (settled : expr.settled part = true) {place : Place} {outer? : Option String}
    (clear : expr.check scope place outer? = []) :
    expr.check { scope with columns := part } place outer? = [] ∧
      Vaguer (expr.type? part) (expr.type? scope.columns) := by
  cases expr with
  | literal l => exact ⟨rfl, .refl _⟩
  | column c =>
      rw [check] at clear ⊢
      rw [type?, type?]
      split
      · exact ⟨rfl, .refl _⟩
      · rename_i complete
        rw [if_neg complete] at clear
        exact ⟨Scope.checkValue_vaguer related clear, related.usableType?_vaguer c.name⟩
  | interval i => exact ⟨clear, .refl _⟩
  | list items extent =>
      rw [Expr.settled, Bool.and_eq_true] at settled
      rw [check] at clear ⊢
      rw [type?, type?]
      split
      · exact ⟨rfl, .refl _⟩
      · rename_i complete
        rw [if_neg complete] at clear
        obtain ⟨here, typed⟩ := checkAll_vaguer items related settled.1 clear
        refine ⟨here, findSome?_vaguer ?_ settled.2⟩
        rw [types_eq_map, types_eq_map, List.forall₂_map_left_iff, List.forall₂_map_right_iff,
          List.forall₂_same]
        exact fun item member => (typed item member).resolve_left Bool.false_ne_true
  | cast value target extent =>
      rw [Expr.settled] at settled
      rw [check] at clear ⊢
      rw [type?, type?]
      split
      · exact ⟨rfl, .refl _⟩
      · rename_i complete
        rw [if_neg complete] at clear
        exact ⟨(check_vaguer value related settled clear).1, .refl _⟩
  | apply name form args extent =>
      rw [Expr.settled] at settled
      rw [check.eq_def] at clear ⊢
      rw [type?, type?]
      dsimp only at clear ⊢
      split
      · exact ⟨rfl, .refl _⟩
      · rename_i complete
        rw [if_neg complete] at clear
        rw [appliedType?, appliedType?]
        split
        · rename_i assignment
          rw [if_pos assignment] at clear
          match args, settled, clear with
          | [], _, _ => exact ⟨rfl, .refl _⟩
          | [_], _, _ => exact ⟨rfl, .refl _⟩
          | _ :: value :: _, settled, clear =>
              simp only [allSettled, Bool.and_eq_true] at settled
              exact check_vaguer value related settled.2.1 clear
        · rename_i notAssignment
          rw [if_neg notAssignment] at clear
          split
          · rename_i filter
            rw [if_pos filter] at clear
            match args, settled, clear with
            | [], _, _ => exact ⟨rfl, .refl _⟩
            | [filtered], settled, clear =>
                simp only [allSettled, Bool.and_eq_true] at settled
                exact check_vaguer filtered related settled.1 clear
            | filtered :: condition :: _, settled, clear =>
                simp only [allSettled, Bool.and_eq_true] at settled
                obtain ⟨first, second⟩ := List.append_eq_nil_iff.mp clear
                obtain ⟨here, typed⟩ := check_vaguer filtered related settled.1 first
                obtain ⟨there, -⟩ := check_vaguer condition related settled.2.1 second
                exact ⟨List.append_eq_nil_iff.mpr ⟨here, there⟩, typed⟩
          · rename_i notFilter
            rw [if_neg notFilter] at clear
            cases named : Callable.named? name with
            | none =>
                rw [named] at clear
                contradiction
            | some callable =>
                rw [named] at clear
                simp only [List.append_eq_nil_iff] at clear ⊢
                obtain ⟨⟨⟨placed, nested⟩, parts⟩, call⟩ := clear
                obtain ⟨inside, typed⟩ := checkAll_vaguer args related settled parts
                have vaguer := givens_vaguer name typed
                obtain ⟨here, _, _, _, _, _, _, tried, matched, result⟩ :=
                  Callable.checkCall_vaguer (Callable.steady_of_named? named) vaguer
                    (length_givens name args scope.columns) call
                refine ⟨⟨⟨⟨placed, nested⟩, inside⟩, here⟩, ?_⟩
                rw [callType?, callType?, named]
                simp only [Option.bind_eq_bind, Option.bind_some, tried, matched]
                exact result

theorem checkAll_vaguer (exprs : List Expr) (related : part.Below scope.columns)
    (settled : allSettled part exprs = true) {place : Place} {outer? function? : Option String}
    (clear : checkAll scope place outer? function? exprs = []) :
    checkAll { scope with columns := part } place outer? function? exprs = [] ∧
      ∀ expr ∈ exprs, function?.any expr.countsRows = true ∨
        Vaguer (expr.type? part) (expr.type? scope.columns) := by
  cases exprs with
  | nil => exact ⟨rfl, nofun⟩
  | cons expr rest =>
      rw [allSettled, Bool.and_eq_true] at settled
      rw [checkAll, List.append_eq_nil_iff] at clear ⊢
      rw [List.forall_mem_cons]
      obtain ⟨behind, typed⟩ := checkAll_vaguer rest related settled.2 clear.2
      by_cases counted : function?.any expr.countsRows = true
      · rw [if_pos counted] at clear ⊢
        exact ⟨⟨rfl, behind⟩, .inl counted, typed⟩
      · rw [if_neg counted] at clear ⊢
        obtain ⟨here, type⟩ := check_vaguer expr related settled.1 clear.1
        exact ⟨⟨here, behind⟩, .inr type, typed⟩

end

end Expr

end Esql
