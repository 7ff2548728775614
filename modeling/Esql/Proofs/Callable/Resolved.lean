import Esql.Proofs.Callable.Steady

/-!
# What a call is resolved to

A call is resolved by the earliest signature that fits the number of its arguments and rejects none
of them. If there is one, only the value of an argument can still be objected to. If all signatures
that fit reject an argument, the one whose least number of arguments is nearest explains why, and if
none fits, the number of arguments is wrong.
-/

namespace Esql

/-- The item at a position is the first of which something holds. -/
structure FirstAt {α : Type} (holds : Nat → α → Prop) (items : List α) (position : Nat)
    (item : α) : Prop where
  here : items[position]? = some item
  found : holds position item
  before : ∀ earlier < position, ∀ other ∈ items[earlier]?, ¬ holds earlier other

namespace FirstAt

variable {α : Type} {holds : Nat → α → Prop} {first item : α} {rest : List α} {position : Nat}

theorem mem {items : List α} (at' : FirstAt holds items position item) : item ∈ items :=
  List.mem_of_getElem? at'.here

theorem le {items : List α} {other : α} {place : Nat} (at' : FirstAt holds items position item)
    (here : items[place]? = some other) (found : holds place other) : position ≤ place :=
  Nat.le_of_not_lt fun less => at'.before place less other here found

theorem head (found : holds 0 first) : FirstAt holds (first :: rest) 0 first :=
  ⟨rfl, found, nofun⟩

theorem tail (other : ¬ holds 0 first)
    (later : FirstAt (fun place => holds (place + 1)) rest position item) :
    FirstAt holds (first :: rest) (position + 1) item := by
  refine ⟨later.here, later.found, ?_⟩
  rintro (_ | earlier) less skipped member
  · obtain rfl := Option.some.inj member
    exact other
  · exact later.before earlier (Nat.lt_of_succ_lt_succ less) skipped member

end FirstAt

/-- The first result of a search through a list, whose items are counted from a position on. -/
def firstResult? {α β : Type} (search : Nat → α → Option β) : Nat → List α → Option β
  | _, [] => none
  | start, item :: rest => (search start item).or (firstResult? search (start + 1) rest)

section

variable {α β : Type} {search : Nat → α → Option β} {start : Nat} {items : List α}

theorem firstAt_of_firstResult? {result : β}
    (found : firstResult? search start items = some result) :
    ∃ place item, search (start + place) item = some result ∧
      FirstAt (fun place item => (search (start + place) item).isSome = true) items place item := by
  induction items generalizing start with
  | nil => contradiction
  | cons first rest ih =>
      rw [firstResult?] at found
      cases here : search start first with
      | some other =>
          rw [here, Option.some_or] at found
          exact ⟨0, first, here.trans found, .head (Option.isSome_of_eq_some here)⟩
      | none =>
          rw [here, Option.none_or] at found
          obtain ⟨place, item, yields, later⟩ := ih found
          have shift (place : Nat) : start + 1 + place = start + (place + 1) := by omega
          simp only [shift] at yields later
          exact ⟨place + 1, item, yields, .tail (by simp [here]) later⟩

theorem not_isSome_of_firstResult? (none : firstResult? search start items = none) :
    ∀ place, ∀ item ∈ items[place]?, search (start + place) item = .none := by
  induction items generalizing start with
  | nil => exact nofun
  | cons first rest ih =>
      rw [firstResult?, Option.or_eq_none_iff] at none
      rintro (_ | place) item member
      · obtain rfl := Option.some.inj member
        exact none.1
      · have later := ih none.2 place item member
        rwa [Nat.add_assoc, Nat.add_comm 1] at later

end

namespace Signature

variable {signature : Signature} {args : List Given} {position : Nat} {given : Given}

/-- The type of an argument is known, and the parameter at its position does not accept it. -/
def Rejects (signature : Signature) (position : Nat) (given : Given) : Prop :=
  ∃ param type, signature.param? position = some param ∧ given.type? = some type ∧
    param.type.accepts type given.quoted = false

theorem rejects_iff : signature.rejects position given = true ↔
    signature.Rejects position given := by
  rw [rejects, Rejects]
  cases signature.param? position <;> cases given.type? <;> simp

/-- The signature fits the number of arguments and rejects none of them. -/
structure Takes (signature : Signature) (args : List Given) : Prop where
  fits : signature.fitsArity args.length = true
  rejectsNone : ∀ position, ∀ given ∈ args[position]?, ¬ signature.Rejects position given

/-- What a signature objects to in the value of an argument, its type aside. -/
inductive Objects (signature : Signature) (position : Nat) (given : Given) : Resolution → Prop where
  | notConstant {param : Parameter} (found : signature.param? position = some param)
      (constantOnly : param.constantOnly = true) (varies : given.constant = false) :
      Objects signature position given (.notConstant position)
  | unsupportedValue {param : Parameter} {accepted : List String} {value : String}
      (found : signature.param? position = some param)
      (constant : param.constantOnly = true → given.constant = true)
      (closed : param.accepted? = some accepted) (quoted : given.quoted = true)
      (written : given.value? = some value)
      (other : ∀ word ∈ accepted, Text.sameWord word value = false) :
      Objects signature position given (.unsupportedValue position accepted)

theorem valueFault?_eq_some_iff {fault : Resolution} :
    signature.valueFault? position given = some fault ↔
      signature.Objects position given fault := by
  constructor
  · intro found
    rw [valueFault?] at found
    split at found
    · contradiction
    · rename_i param here
      split at found
      · rename_i varies
        rw [Bool.and_eq_true, Bool.not_eq_true'] at varies
        obtain rfl := Option.some.inj found
        exact .notConstant here varies.1 varies.2
      · rename_i constant
        split at found
        · rename_i accepted value closed written
          split at found
          · rename_i wrong
            rw [Bool.and_eq_true, Bool.not_eq_true', List.any_eq_false] at wrong
            obtain rfl := Option.some.inj found
            refine .unsupportedValue here ?_ closed wrong.1 written
              fun word member => Bool.eq_false_of_not_eq_true (wrong.2 word member)
            simpa using constant
          · contradiction
        · contradiction
  · rintro (⟨here, constantOnly, varies⟩ |
      @⟨param, accepted, value, here, constant, closed, quoted, written, other⟩)
    · simp [valueFault?, here, constantOnly, varies]
    · have noConstant : (param.constantOnly && !given.constant) = false := by
        rw [Bool.and_eq_false_imp, Bool.not_eq_false']
        exact constant
      have noWord : (accepted.any (Text.sameWord · value)) = false := by
        rw [List.any_eq_false]
        exact fun word member => Bool.eq_false_iff.mp (other word member)
      simp [valueFault?, here, noConstant, closed, written, quoted, noWord]

/-- The first objection to the value of an argument. -/
theorem firstValueFault?From_eq (signature : Signature) (position : Nat) (args : List Given) :
    signature.firstValueFault?From position args =
      firstResult? signature.valueFault? position args := by
  induction args generalizing position with
  | nil => rfl
  | cons given rest ih =>
      rw [firstValueFault?From, firstResult?, ih]
      cases signature.valueFault? position given <;> rfl

theorem firstMismatch?From_eq (signature : Signature) (position : Nat) (args : List Given) :
    signature.firstMismatch?From position args =
      firstResult? (fun place given => if signature.rejects place given then some place else none)
        position args := by
  induction args generalizing position with
  | nil => rfl
  | cons given rest ih =>
      rw [firstMismatch?From, firstResult?, ih]
      cases signature.rejects position given <;> rfl

theorem firstAt_of_firstMismatch? (found : signature.firstMismatch? args = some position) :
    ∃ given, FirstAt signature.Rejects args position given := by
  rw [firstMismatch?, firstMismatch?From_eq] at found
  obtain ⟨place, given, yields, first⟩ := firstAt_of_firstResult? found
  simp only [Nat.zero_add] at yields first
  split at yields
  · obtain rfl := Option.some.inj yields
    refine ⟨given, first.here, rejects_iff.mp ‹_›, fun earlier less other member rejected => ?_⟩
    exact first.before earlier less other member (by rw [rejects_iff.mpr rejected]; rfl)
  · contradiction

theorem takes_iff : signature.accepts args = true ↔ signature.Takes args := by
  rw [accepts, Bool.and_eq_true, Option.isNone_iff_eq_none]
  constructor
  · rintro ⟨fits, none⟩
    rw [firstMismatch?, firstMismatch?From_eq] at none
    refine ⟨fits, fun position given member rejected => ?_⟩
    have passed := not_isSome_of_firstResult? none position given member
    rw [Nat.zero_add, rejects_iff.mpr rejected] at passed
    contradiction
  · rintro ⟨fits, none⟩
    refine ⟨fits, Option.eq_none_iff_forall_ne_some.mpr fun position found => ?_⟩
    obtain ⟨given, first⟩ := firstAt_of_firstMismatch? found
    exact none position given first.here first.found

end Signature

namespace Callable

variable {callable : Callable} {args : List Given} {count : Nat}

/-- The signature fits a number of arguments, and no other one that fits is nearer to it in its
least number of arguments. -/
structure Nearest (callable : Callable) (count : Nat) (signature : Signature) : Prop where
  fits : signature.fitsArity count = true
  least : ∀ other ∈ callable.signatures, other.fitsArity count = true →
    gap signature.minArgs count ≤ gap other.minArgs count

/-- What a call can be resolved to. -/
inductive Resolves (callable : Callable) (args : List Given) : Resolution → Prop where
  /-- No signature fits the number of arguments. -/
  | wrongArity
      (unfit : ∀ signature ∈ callable.signatures, signature.fitsArity args.length = false) :
      Resolves callable args (.wrongArity callable.arityPhrase)
  /-- Signatures fit, but each of them rejects an argument. The nearest one explains which. -/
  | wrongType {signature : Signature} {index position : Nat} {given : Given} {param : Parameter}
      (fitting : ∃ other ∈ callable.signatures, other.fitsArity args.length = true)
      (turnedDown : ∀ other ∈ callable.signatures, other.fitsArity args.length = true →
        ∃ place, ∃ rejected ∈ args[place]?, other.Rejects place rejected)
      (nearest :
        FirstAt (fun _ => callable.Nearest args.length) callable.signatures index signature)
      (rejected : FirstAt signature.Rejects args position given)
      (expected : signature.param? position = some param) :
      Resolves callable args (.wrongType signature index position param.type)
  /-- The earliest signature that takes the arguments objects to the value of one. -/
  | objected {signature : Signature} {index position : Nat} {given : Given} {fault : Resolution}
      (chosen : FirstAt (fun _ other => other.Takes args) callable.signatures index signature)
      (first : FirstAt (fun place other => ∃ fault, signature.Objects place other fault)
        args position given)
      (objects : signature.Objects position given fault) :
      Resolves callable args fault
  /-- The earliest signature that takes the arguments objects to no value. -/
  | matched {signature : Signature} {index : Nat}
      (chosen : FirstAt (fun _ other => other.Takes args) callable.signatures index signature)
      (faultless : ∀ position, ∀ given ∈ args[position]?, ∀ fault,
        ¬ signature.Objects position given fault) :
      Resolves callable args (.matched signature index (signature.resultType? args))

/-! ## The earliest signature that takes the arguments -/

theorem firstAt_of_chosen? {signature : Signature} {index : Nat}
    (chosen : callable.chosen? args = some (signature, index)) :
    FirstAt (fun _ other => other.Takes args) callable.signatures index signature := by
  obtain ⟨accepted, place, short, same, earlier⟩ := List.find?_eq_some_iff_getElem.mp chosen
  rw [List.getElem_zipIdx, Nat.zero_add, Prod.mk.injEq] at same
  obtain ⟨rfl, rfl⟩ := same
  rw [List.length_zipIdx] at short
  refine ⟨List.getElem?_eq_getElem short, Signature.takes_iff.mp accepted, ?_⟩
  intro before less other member takes
  have passed := earlier before less
  rw [List.getElem_zipIdx] at passed
  obtain ⟨_, rfl⟩ := List.getElem?_eq_some_iff.mp member
  rw [Signature.takes_iff.mpr takes] at passed
  contradiction

theorem not_takes_of_chosen? (none : callable.chosen? args = none) :
    ∀ signature ∈ callable.signatures, ¬ signature.Takes args := by
  intro signature member takes
  obtain ⟨index, short, rfl⟩ := List.mem_iff_getElem.mp member
  have tried : (callable.signatures[index], index) ∈ callable.signatures.zipIdx := by
    rw [List.mem_zipIdx_iff_getElem?]
    exact List.getElem?_eq_getElem short
  exact List.find?_eq_none.mp none _ tried (Signature.takes_iff.mpr takes)

/-! ## The signature that explains why none takes them -/

theorem arityDistance_eq_zero {signature : Signature} :
    signature.arityDistance count = 0 ↔ signature.fitsArity count = true := by
  rw [Signature.arityDistance, Signature.fitsArity, Bool.and_eq_true, decide_eq_true_iff]
  split
  · omega
  · cases signature.maxArgs? with
    | none => simp; omega
    | some most => simp; omega

theorem explainsBetter_iff {first second : Signature} :
    explainsBetter count first second = true ↔
      second.arityDistance count < first.arityDistance count ∨
        second.arityDistance count = first.arityDistance count ∧
          gap second.minArgs count < gap first.minArgs count := by
  rw [explainsBetter, Bool.or_eq_true, Bool.and_eq_true, decide_eq_true_iff, decide_eq_true_iff,
    beq_iff_eq]

/-- The closest signature is the first than which none explains better. -/
theorem closest?_first (count : Nat) {candidates : List (Signature × Nat)}
    (given : candidates ≠ []) :
    ∃ best place, closest? count candidates = some best ∧
      FirstAt (fun _ candidate => ∀ other ∈ candidates,
        ¬ explainsBetter count candidate.1 other.1 = true) candidates place best := by
  induction candidates with
  | nil => contradiction
  | cons candidate rest ih =>
      by_cases last : rest = []
      · subst last
        refine ⟨candidate, 0, rfl, .head ?_⟩
        rw [List.forall_mem_singleton, explainsBetter_iff]
        omega
      obtain ⟨later, place, found, first⟩ := ih last
      rw [closest?, found]
      dsimp only
      split
      · rename_i better
        refine ⟨later, place + 1, rfl, .tail ?_ ⟨first.here, ?_, ?_⟩⟩
        · exact fun none => none later (.tail _ first.mem) better
        · refine List.forall_mem_cons.mpr ⟨?_, first.found⟩
          rw [explainsBetter_iff] at better ⊢
          omega
        · intro earlier less other member none
          exact first.before earlier less other member
            fun another inside => none another (.tail _ inside)
      · rename_i worse
        refine ⟨candidate, 0, rfl, .head (List.forall_mem_cons.mpr ⟨?_, fun other inside => ?_⟩)⟩
        · rw [explainsBetter_iff]
          omega
        · have below := first.found other inside
          rw [explainsBetter_iff] at worse below ⊢
          omega

/-- No signature explains a failed call better than one if it is a nearest one that fits. -/
theorem not_explainsBetter_iff {signature : Signature}
    (some : ∃ other ∈ callable.signatures, other.fitsArity count = true) :
    (∀ candidate ∈ callable.signatures.zipIdx,
      ¬ explainsBetter count signature candidate.1 = true) ↔ callable.Nearest count signature := by
  have all : (∀ candidate ∈ callable.signatures.zipIdx,
      ¬ explainsBetter count signature candidate.1 = true) ↔
        ∀ other ∈ callable.signatures, ¬ explainsBetter count signature other = true := by
    rw [← List.forall_mem_map (f := Prod.fst) (P := fun other =>
      ¬ explainsBetter count signature other = true), List.zipIdx_map_fst]
  rw [all]
  simp only [explainsBetter_iff]
  constructor
  · intro none
    obtain ⟨fitting, inside, fits⟩ := some
    have zero := arityDistance_eq_zero.mpr fits
    have here : signature.arityDistance count = 0 := by
      have below := none fitting inside
      omega
    refine ⟨arityDistance_eq_zero.mp here, fun other member fits => ?_⟩
    have below := none other member
    have zero := arityDistance_eq_zero.mpr fits
    omega
  · rintro ⟨fits, least⟩ other member
    have here := arityDistance_eq_zero.mpr fits
    rintro (less | ⟨same, nearer⟩)
    · omega
    · have below := least other member (arityDistance_eq_zero.mp (same.trans here))
      omega

/-- If some signature fits, the closest one is the first among the nearest of those that fit. -/
theorem closest?_nearest (some : ∃ other ∈ callable.signatures, other.fitsArity count = true) :
    ∃ best index, closest? count callable.signatures.zipIdx = .some (best, index) ∧
      FirstAt (fun _ => callable.Nearest count) callable.signatures index best := by
  have given : callable.signatures.zipIdx ≠ [] := by
    obtain ⟨other, member, -⟩ := some
    rw [ne_eq, List.zipIdx_eq_nil_iff]
    exact List.ne_nil_of_mem member
  obtain ⟨⟨best, index⟩, place, found, first⟩ := closest?_first count given
  simp only [not_explainsBetter_iff some] at first
  have here := first.here
  rw [List.getElem?_zipIdx, Option.map_eq_some_iff] at here
  obtain ⟨signature, here, same⟩ := here
  rw [Nat.zero_add, Prod.mk.injEq] at same
  obtain ⟨rfl, rfl⟩ := same
  refine ⟨signature, place, found, here, first.found, fun earlier less other member => ?_⟩
  refine first.before earlier less (other, earlier) ?_
  rw [List.getElem?_zipIdx, Option.mem_def.mp member, Nat.zero_add]
  rfl

/-- The closest signature is one of those that were tried. -/
theorem mem_signatures_of_closest? {best : Signature × Nat}
    (found : closest? count callable.signatures.zipIdx = some best) :
    best.1 ∈ callable.signatures := by
  have given : callable.signatures.zipIdx ≠ [] := fun none => by
    rw [none] at found
    contradiction
  obtain ⟨other, place, same, first⟩ := closest?_first count given
  obtain rfl := Option.some.inj (same.symm.trans found)
  exact List.fst_mem_of_mem_zipIdx first.mem

/-! ## Resolving a call -/

theorem resolves_of_chosen? {signature : Signature} {index : Nat}
    (chosen : callable.chosen? args = some (signature, index)) :
    callable.Resolves args ((signature.firstValueFault?From 0 args).getD
      (.matched signature index (signature.resultType? args))) := by
  have first := firstAt_of_chosen? chosen
  rw [Signature.firstValueFault?From_eq]
  cases searched : firstResult? signature.valueFault? 0 args with
  | some fault =>
      obtain ⟨place, given, yields, at'⟩ := firstAt_of_firstResult? searched
      simp only [Nat.zero_add, Option.isSome_iff_exists,
        Signature.valueFault?_eq_some_iff] at yields at'
      exact .objected first at' yields
  | none =>
      refine .matched first fun position given member fault objects => ?_
      have passed := not_isSome_of_firstResult? searched position given member
      rw [Nat.zero_add, Signature.valueFault?_eq_some_iff.mpr objects] at passed
      contradiction

/-- A signature that fits and does not take the arguments rejects one of them first. -/
theorem exists_firstMismatch? {signature : Signature}
    (fits : signature.fitsArity args.length = true) (turnedDown : ¬ signature.Takes args) :
    ∃ position given, signature.firstMismatch? args = some position ∧
      FirstAt signature.Rejects args position given := by
  cases mismatch : signature.firstMismatch? args with
  | none =>
      refine absurd (Signature.takes_iff.mp ?_) turnedDown
      rw [Signature.accepts, fits, mismatch]
      rfl
  | some position =>
      obtain ⟨given, first⟩ := Signature.firstAt_of_firstMismatch? mismatch
      exact ⟨position, given, rfl, first⟩

theorem resolves_of_not_takes (none : callable.chosen? args = none) :
    callable.Resolves args (callable.resolve args) := by
  have turnedDown := not_takes_of_chosen? none
  have unchosen := none
  rw [chosen?] at unchosen
  rw [resolve, unchosen]
  dsimp only
  by_cases some : ∃ other ∈ callable.signatures, other.fitsArity args.length = true
  · obtain ⟨best, index, found, nearest⟩ := closest?_nearest some
    obtain ⟨position, given, mismatch, rejected⟩ :=
      exists_firstMismatch? nearest.found.fits (turnedDown best nearest.mem)
    obtain ⟨param, type, expected, -⟩ := rejected.found
    have each (other : Signature) (member : other ∈ callable.signatures)
        (fits : other.fitsArity args.length = true) :
        ∃ place, ∃ given ∈ args[place]?, other.Rejects place given := by
      obtain ⟨place, given, -, first⟩ := exists_firstMismatch? fits (turnedDown other member)
      exact ⟨place, given, first.here, first.found⟩
    rw [found]
    dsimp only
    rw [if_pos nearest.found.fits, mismatch, Option.getD_some, expected]
    exact .wrongType some each nearest rejected expected
  · have unfit : ∀ signature ∈ callable.signatures, signature.fitsArity args.length = false :=
      fun signature member => Bool.eq_false_of_not_eq_true fun fits =>
        some ⟨signature, member, fits⟩
    cases found : closest? args.length callable.signatures.zipIdx with
    | none => exact .wrongArity unfit
    | some best =>
        dsimp only
        rw [if_neg (by rw [unfit _ (mem_signatures_of_closest? found)]; exact Bool.false_ne_true)]
        exact .wrongArity unfit

theorem resolves_resolve (callable : Callable) (args : List Given) :
    callable.Resolves args (callable.resolve args) := by
  cases chosen : callable.chosen? args with
  | none => exact resolves_of_not_takes chosen
  | some candidate =>
      have resolved := resolves_of_chosen? chosen
      rw [chosen?] at chosen
      rw [resolve, chosen]
      exact resolved

namespace Resolves

variable {outcome : Resolution} (resolved : callable.Resolves args outcome)

include resolved

theorem eq_wrongArity
    (unfit : ∀ signature ∈ callable.signatures, signature.fitsArity args.length = false) :
    outcome = .wrongArity callable.arityPhrase := by
  have not_fits {signature : Signature} (member : signature ∈ callable.signatures) :
      ¬ signature.fitsArity args.length = true := by
    rw [unfit signature member]
    exact Bool.false_ne_true
  cases resolved with
  | wrongArity => rfl
  | wrongType _ _ nearest => exact absurd nearest.found.fits (not_fits nearest.mem)
  | objected chosen => exact absurd chosen.found.fits (not_fits chosen.mem)
  | matched chosen => exact absurd chosen.found.fits (not_fits chosen.mem)

theorem exists_wrongType
    (fitting : ∃ signature ∈ callable.signatures, signature.fitsArity args.length = true)
    (turnedDown : ∀ signature ∈ callable.signatures, signature.fitsArity args.length = true →
      ∃ position, ∃ given ∈ args[position]?, signature.Rejects position given) :
    ∃ signature index position expected,
      outcome = .wrongType signature index position expected := by
  have not_takes {signature : Signature} (member : signature ∈ callable.signatures) :
      ¬ signature.Takes args := by
    rintro ⟨fits, rejectsNone⟩
    obtain ⟨position, given, here, rejected⟩ := turnedDown signature member fits
    exact rejectsNone position given here rejected
  cases resolved with
  | wrongArity unfit =>
      obtain ⟨signature, member, fits⟩ := fitting
      rw [unfit signature member] at fits
      contradiction
  | wrongType => exact ⟨_, _, _, _, rfl⟩
  | objected chosen => exact absurd chosen.found (not_takes chosen.mem)
  | matched chosen => exact absurd chosen.found (not_takes chosen.mem)

end Resolves

/-- A call is refused for the number of its arguments if no signature takes that many. -/
theorem resolve_eq_wrongArity {expected : String} :
    callable.resolve args = .wrongArity expected ↔ expected = callable.arityPhrase ∧
      ∀ signature ∈ callable.signatures, signature.fitsArity args.length = false := by
  have resolved := callable.resolves_resolve args
  constructor
  · intro refused
    rw [refused] at resolved
    cases resolved with
    | wrongArity unfit => exact ⟨rfl, unfit⟩
    | objected _ _ objects => cases objects
  · rintro ⟨rfl, unfit⟩
    exact resolved.eq_wrongArity unfit

/-- A call is refused for the type of an argument if signatures fit and each of them rejects one. -/
theorem exists_wrongType_iff :
    (∃ signature index position expected,
      callable.resolve args = .wrongType signature index position expected) ↔
      (∃ signature ∈ callable.signatures, signature.fitsArity args.length = true) ∧
        ∀ signature ∈ callable.signatures, signature.fitsArity args.length = true →
          ∃ position, ∃ given ∈ args[position]?, signature.Rejects position given := by
  have resolved := callable.resolves_resolve args
  constructor
  · rintro ⟨signature, index, position, expected, refused⟩
    rw [refused] at resolved
    cases resolved with
    | wrongType fitting turnedDown => exact ⟨fitting, turnedDown⟩
    | objected _ _ objects => cases objects
  · rintro ⟨fitting, turnedDown⟩
    exact resolved.exists_wrongType fitting turnedDown

/-- A call has a wrong number of arguments exactly if no signature fits it, and an argument of a
wrong type exactly if signatures fit and each of them rejects an argument. Otherwise the earliest
signature that takes the arguments decides, by the first value that it objects to, if any. -/
theorem resolve_exact (callable : Callable) (args : List Given) :
    ((∃ expected, callable.resolve args = .wrongArity expected) ↔
        ∀ signature ∈ callable.signatures, signature.fitsArity args.length = false) ∧
      ((∃ signature index position expected,
          callable.resolve args = .wrongType signature index position expected) ↔
        (∃ signature ∈ callable.signatures, signature.fitsArity args.length = true) ∧
          ∀ signature ∈ callable.signatures, signature.fitsArity args.length = true →
            ∃ position, ∃ given ∈ args[position]?, signature.Rejects position given) ∧
      callable.Resolves args (callable.resolve args) := by
  refine ⟨?_, exists_wrongType_iff, callable.resolves_resolve args⟩
  simp only [resolve_eq_wrongArity, exists_eq_left]

end Callable

end Esql
