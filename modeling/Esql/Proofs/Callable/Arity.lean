import Esql.Proofs.Callable.Overloads
import Esql.Proofs.Callable.Resolved
import Mathlib.Data.List.MinMax

/-!
# Calls with a wrong number of arguments

A call is refused for the number of its arguments if no signature takes that many. The words of the
refusal name the range from the least to the greatest number that some signature takes. A signature
that takes fewer arguments and one that takes more leave numbers between them that lie in the range
and are refused all the same.
-/

namespace Esql

theorem Signature.minArgs_le (signature : Signature) {most : Nat}
    (bound : signature.maxArgs? = some most) : signature.minArgs ≤ most := by
  rw [maxArgs?] at bound
  split at bound
  · contradiction
  · obtain rfl := Option.some.inj bound
    exact List.length_filter_le _ _

namespace Callable

variable {callable : Callable} {count : Nat}

/-- The number of arguments lies in the range that the words of a refusal name. -/
def spans (callable : Callable) (count : Nat) : Bool :=
  callable.minArgs ≤ count && callable.maxArgs?.all (count ≤ ·)

/-- The number of arguments lies between those of two signatures, and no signature takes it. -/
def skips (callable : Callable) (count : Nat) : Bool :=
  callable.signatures.any (·.maxArgs?.any (· < count)) &&
    callable.signatures.any (count < ·.minArgs) &&
    callable.signatures.all (!·.fitsArity count)

theorem skips_iff : callable.skips count = true ↔
    (∃ signature ∈ callable.signatures, signature.maxArgs?.any (· < count) = true) ∧
      (∃ signature ∈ callable.signatures, count < signature.minArgs) ∧
      ∀ signature ∈ callable.signatures, signature.fitsArity count = false := by
  simp [skips, and_assoc]

/-! ## The range over all signatures -/

theorem minArgs_le_iff (given : callable.signatures ≠ []) :
    callable.minArgs ≤ count ↔ ∃ signature ∈ callable.signatures, signature.minArgs ≤ count := by
  have present : (callable.signatures.map (·.minArgs)).min?.isSome = true := by
    rw [List.isSome_min?_iff, ne_eq, List.map_eq_nil_iff]
    exact given
  obtain ⟨least, found⟩ := Option.isSome_iff_exists.mp present
  obtain ⟨member, lowest⟩ := List.min?_eq_some_iff.mp found
  rw [minArgs, found, Option.getD_some]
  constructor
  · intro enough
    obtain ⟨signature, inside, rfl⟩ := List.mem_map.mp member
    exact ⟨signature, inside, enough⟩
  · rintro ⟨signature, inside, enough⟩
    exact Nat.le_trans (lowest _ (List.mem_map_of_mem inside)) enough

/-- A number is within the looser of two bounds if it is within one of them. -/
theorem all_looser (first second : Option Nat) :
    (looser first second).all (count ≤ ·) =
      (first.all (count ≤ ·) || second.all (count ≤ ·)) := by
  cases first with
  | none => rfl
  | some first =>
      cases second with
      | none => exact (Bool.or_true _).symm
      | some second => simp [looser]

theorem all_foldl_looser (bound : Option Nat) (bounds : List (Option Nat)) :
    (bounds.foldl looser bound).all (count ≤ ·) =
      (bound.all (count ≤ ·) || bounds.any fun bound => bound.all (count ≤ ·)) := by
  induction bounds generalizing bound with
  | nil => exact (Bool.or_false _).symm
  | cons first rest ih => rw [List.foldl_cons, ih, all_looser, List.any_cons, Bool.or_assoc]

theorem le_maxArgs?_iff :
    callable.maxArgs?.all (count ≤ ·) = true ↔ count = 0 ∨
      ∃ signature ∈ callable.signatures, signature.maxArgs?.all (count ≤ ·) = true := by
  rw [maxArgs?, all_foldl_looser, Bool.or_eq_true, Option.all_some, decide_eq_true_iff,
    Nat.le_zero, List.any_map, List.any_eq_true]
  rfl

/-- What some signature takes lies in the range. -/
theorem spans_of_fitsArity {signature : Signature} (member : signature ∈ callable.signatures)
    (fits : signature.fitsArity count = true) : callable.spans count = true := by
  rw [Signature.fitsArity, Bool.and_eq_true, decide_eq_true_iff] at fits
  rw [spans, Bool.and_eq_true, decide_eq_true_iff, minArgs_le_iff (List.ne_nil_of_mem member),
    le_maxArgs?_iff]
  exact ⟨⟨signature, member, fits.1⟩, .inr ⟨signature, member, fits.2⟩⟩

/-- What no signature takes lies in the range only if it is between two signatures. -/
theorem spans_iff_skips (given : callable.signatures ≠ [])
    (unfit : ∀ signature ∈ callable.signatures, signature.fitsArity count = false) :
    callable.spans count = true ↔ callable.skips count = true := by
  have outside {signature : Signature} (member : signature ∈ callable.signatures) :
      ¬ (signature.minArgs ≤ count ∧ signature.maxArgs?.all (count ≤ ·) = true) := by
    have no := unfit signature member
    rw [Signature.fitsArity, ← Bool.not_eq_true, Bool.and_eq_true, decide_eq_true_iff] at no
    exact no
  rw [spans, Bool.and_eq_true, decide_eq_true_iff, minArgs_le_iff given, le_maxArgs?_iff,
    skips_iff]
  constructor
  · rintro ⟨⟨fewer, first, least⟩, most⟩
    have short : fewer.maxArgs?.any (· < count) = true := by
      have beyond := not_and.mp (outside first) least
      cases bound : fewer.maxArgs? with
      | none => rw [bound] at beyond; exact absurd rfl beyond
      | some most => simpa [bound] using beyond
    rcases most with rfl | ⟨more, second, most⟩
    · cases bound : fewer.maxArgs? <;> simp [bound] at short
    · refine ⟨⟨fewer, first, short⟩, ⟨more, second, ?_⟩, unfit⟩
      exact Nat.lt_of_not_le fun least => outside second ⟨least, most⟩
  · rintro ⟨⟨fewer, first, short⟩, ⟨more, second, long⟩, -⟩
    refine ⟨⟨fewer, first, ?_⟩, .inr ⟨more, second, ?_⟩⟩
    · cases bound : fewer.maxArgs? with
      | none => rw [bound] at short; contradiction
      | some most =>
          rw [bound, Option.any_some, decide_eq_true_iff] at short
          exact Nat.le_of_lt (Nat.lt_of_le_of_lt (fewer.minArgs_le bound) short)
    · cases bound : more.maxArgs? with
      | none => rfl
      | some most =>
          exact decide_eq_true (Nat.le_trans (Nat.le_of_lt long) (more.minArgs_le bound))

/-- In the whole catalog only `bucket` leaves a number between its signatures. -/
theorem skips_catalog {callable : Callable} (listed : callable ∈ catalog) (count : Nat) :
    callable.skips count = true ↔ callable.name = "bucket" ∧ count = 3 := by
  have bounded : (catalog.all fun callable =>
      callable.signatures.all fun signature => decide (signature.minArgs ≤ 4)) = true := by
    decide +kernel
  have checked : (catalog.all fun callable => (List.range 4).all fun count =>
      callable.skips count == (callable.name == "bucket" && count == 3)) = true := by
    decide +kernel
  rw [List.all_eq_true] at bounded checked
  by_cases few : count < 4
  · have here := List.all_eq_true.mp (checked callable listed) count (List.mem_range.mpr few)
    rw [beq_iff_eq.mp here, Bool.and_eq_true, beq_iff_eq, beq_iff_eq]
  · refine ⟨fun between => ?_, fun same => absurd same.2 (by omega)⟩
    obtain ⟨-, ⟨signature, member, long⟩, -⟩ := skips_iff.mp between
    have least := of_decide_eq_true (List.all_eq_true.mp (bounded callable listed) signature member)
    omega

/-! ## Refused calls -/

variable {args : List Given} {expected : String}

/-- A call is refused for the number of its arguments exactly if that number is out of the range
that the refusal names, if it falls between two signatures, or if there is no signature. -/
theorem resolve_eq_wrongArity_iff (callable : Callable) (args : List Given) (expected : String) :
    callable.resolve args = .wrongArity expected ↔ expected = callable.arityPhrase ∧
      (callable.spans args.length = false ∨ callable.skips args.length = true ∨
        callable.signatures = []) := by
  rw [resolve_eq_wrongArity, and_congr_right_iff]
  intro _
  by_cases given : callable.signatures = []
  · rw [given]
    exact ⟨fun _ => .inr (.inr rfl), fun _ => List.forall_mem_nil _⟩
  constructor
  · intro unfit
    cases within : callable.spans args.length with
    | false => exact .inl rfl
    | true => exact .inr (.inl ((spans_iff_skips given unfit).mp within))
  · rintro (outside | between | none)
    · intro signature member
      rw [← Bool.not_eq_true] at outside ⊢
      exact fun fits => outside (spans_of_fitsArity member fits)
    · exact (skips_iff.mp between).2.2
    · contradiction

/-- Three arguments are between the signatures of `bucket`, which take two or four. They are refused
in words that allow for them. -/
theorem not_outside_of_wrongArity :
    ¬ ∀ callable ∈ catalog, ∀ (args : List Given) (expected : String),
      callable.resolve args = .wrongArity expected → callable.spans args.length = false := by
  intro outside
  have listed : bucket ∈ catalog := by
    simp only [catalog, List.mem_append]
    exact .inl (.inl (.inl (.inl (.inl (.inl (.inl (.inl (.inl (.inl (.inr (.head _)))))))))))
  have words : "between 2 and 4 arguments" = bucket.arityPhrase := by decide +kernel
  have refused : bucket.resolve [{}, {}, {}] = .wrongArity "between 2 and 4 arguments" :=
    resolve_eq_wrongArity.mpr ⟨words, by decide +kernel⟩
  have none := outside bucket listed _ _ refused
  contradiction

end Callable

end Esql
