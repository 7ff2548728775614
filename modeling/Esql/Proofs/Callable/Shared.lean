import Esql.ParamType

/-!
# Types in common

Whether two parameter types intersect is decided choice by choice, on either side. The decision is
exact: there is a type of values that both accept. A parameter type has to have a value for that,
since whatever takes values of any type is said to intersect every other.
-/

namespace Esql.ParamType

/-- A parameter type that some value has: its exact types are types of values, and wherever it
offers choices there is one. -/
inductive Proper : ParamType → Prop where
  | any : Proper .any
  | number : Proper .number
  | string : Proper .string
  | date : Proper .date
  | spatial : Proper .spatial
  | point : Proper .point
  | interval : Proper .interval
  | exact {type : FieldType} (value : type ∈ FieldType.valueTypes) : Proper (.exact type)
  | oneOf {choices : List ParamType} (some : choices ≠ [])
      (each : ∀ choice ∈ choices, Proper choice) : Proper (.oneOf choices)

/-- A type of values is accepted by both. -/
def Shared (first second : ParamType) : Prop :=
  ∃ type ∈ FieldType.valueTypes, accepts type false first = true ∧ accepts type false second = true

variable {first second : ParamType} {choices : List ParamType} {type : FieldType} {quoted : Bool}

theorem accepts_any (value : type ∈ FieldType.valueTypes) : accepts type quoted .any = true := by
  revert value
  cases type <;> decide +revert

theorem accepts_oneOf_iff (value : type ∈ FieldType.valueTypes) :
    accepts type quoted (.oneOf choices) = true ↔
      ∃ choice ∈ choices, accepts type quoted choice = true := by
  have known : (type == .null) = false := by
    revert value
    cases type <;> decide
  rw [accepts, known, Bool.false_or, acceptsAny_eq_any, List.any_eq_true]

/-- A proper type accepts the type of some value. -/
theorem Proper.exists_accepts (proper : first.Proper) :
    ∃ type ∈ FieldType.valueTypes, accepts type false first = true := by
  induction proper with
  | any | number => exact ⟨.long, by decide, by decide⟩
  | string => exact ⟨.keyword, by decide, by decide⟩
  | date => exact ⟨.date, by decide, by decide⟩
  | spatial | point => exact ⟨.geoPoint, by decide, by decide⟩
  | interval => exact ⟨.datePeriod, by decide, by decide⟩
  | @exact type value => exact ⟨type, value, by simp [accepts, acceptsExact]⟩
  | @oneOf choices some each ih =>
      obtain ⟨choice, rest, rfl⟩ := List.exists_cons_of_ne_nil some
      obtain ⟨type, value, accepted⟩ := ih choice List.mem_cons_self
      exact ⟨type, value, (accepts_oneOf_iff value).mpr ⟨choice, List.mem_cons_self, accepted⟩⟩

theorem shared_comm : Shared first second ↔ Shared second first := by
  unfold Shared
  simp only [and_comm]

theorem Proper.shared_any (proper : first.Proper) : Shared first .any := by
  obtain ⟨type, value, accepted⟩ := proper.exists_accepts
  exact ⟨type, value, accepted, accepts_any value⟩

/-- What has a type in common with several choices has one in common with one of them. -/
theorem shared_oneOf_iff :
    Shared first (.oneOf choices) ↔ ∃ choice ∈ choices, Shared first choice := by
  constructor
  · rintro ⟨type, value, here, there⟩
    obtain ⟨choice, member, accepted⟩ := (accepts_oneOf_iff value).mp there
    exact ⟨choice, member, type, value, here, accepted⟩
  · rintro ⟨choice, member, type, value, here, accepted⟩
    exact ⟨type, value, here, (accepts_oneOf_iff value).mpr ⟨choice, member, accepted⟩⟩

theorem shareType_iff : shareType first second = true ↔ Shared first second := by
  simp [shareType, Shared]

theorem leafIntersectsAny_eq_any (leaf : ParamType) (choices : List ParamType) :
    leafIntersectsAny leaf choices = choices.any (leafIntersects leaf) := by
  induction choices with
  | nil => rfl
  | cons choice rest ih => simp [leafIntersectsAny, ih]

/-- The decision for a fixed first type, over the choices of the second. -/
theorem leafIntersects_iff (proper : first.Proper) (other : second.Proper) :
    leafIntersects first second = true ↔ Shared first second := by
  induction other with
  | any =>
      rw [leafIntersects]
      exact iff_of_true rfl proper.shared_any
  | @oneOf choices some each ih =>
      rw [leafIntersects, leafIntersectsAny_eq_any, List.any_eq_true, shared_oneOf_iff]
      exact exists_congr fun choice => and_congr_right (ih choice)
  | _ =>
      rw [leafIntersects]
      exact shareType_iff

/-- The decision over the choices of both types. -/
theorem intersects_iff (proper : first.Proper) (other : second.Proper) :
    intersects first second = true ↔ Shared first second := by
  induction proper with
  | any =>
      rw [intersects, shared_comm]
      exact iff_of_true rfl other.shared_any
  | @oneOf choices some each ih =>
      have choose : intersectsAny choices second = true ↔ Shared (.oneOf choices) second := by
        rw [intersectsAny_eq_any, List.any_eq_true, shared_comm, shared_oneOf_iff]
        refine exists_congr fun choice => and_congr_right fun member => ?_
        rw [ih choice member, shared_comm]
      cases second with
      | any => exact iff_of_true rfl (Proper.oneOf some each).shared_any
      | _ => exact choose
  | _ =>
      rw [intersects]
      exact leafIntersects_iff (by constructor <;> assumption) other

/-- Two proper types intersect if and only if both accept the type of some value that is not a
quoted literal, in whatever order they are compared. -/
theorem intersects_exact (proper : first.Proper) (other : second.Proper) :
    (intersects first second = true ↔ ∃ type ∈ FieldType.valueTypes,
      accepts type false first = true ∧ accepts type false second = true) ∧
      intersects first second = intersects second first := by
  refine ⟨intersects_iff proper other, ?_⟩
  rw [Bool.eq_iff_iff, intersects_iff proper other, intersects_iff other proper, shared_comm]

theorem proper_comparable : comparable.Proper := by
  refine .oneOf (List.cons_ne_nil _ _) ?_
  simp only [List.forall_mem_cons]
  exact ⟨.number, .string, .date, .exact (by decide), .exact (by decide), .exact (by decide),
    List.forall_mem_nil _⟩

/-- Ordered values have an address in common with choices within choices. -/
theorem intersects_exact_nested :
    comparable.Proper ∧ (oneOf [.spatial, .oneOf [.interval, .exact .ip]]).Proper ∧
      (∃ type ∈ FieldType.valueTypes, accepts type false comparable = true ∧
        accepts type false (.oneOf [.spatial, .oneOf [.interval, .exact .ip]]) = true) ∧
      intersects (.oneOf [.spatial, .oneOf [.interval, .exact .ip]]) comparable = true := by
  have inner : (oneOf [.interval, .exact .ip]).Proper := by
    refine .oneOf (List.cons_ne_nil _ _) ?_
    simp only [List.forall_mem_cons]
    exact ⟨.interval, .exact (by decide), List.forall_mem_nil _⟩
  have nested : (oneOf [.spatial, .oneOf [.interval, .exact .ip]]).Proper := by
    refine .oneOf (List.cons_ne_nil _ _) ?_
    simp only [List.forall_mem_cons]
    exact ⟨.spatial, inner, List.forall_mem_nil _⟩
  obtain ⟨shares, symmetric⟩ := intersects_exact proper_comparable nested
  have decided : intersects comparable (.oneOf [.spatial, .oneOf [.interval, .exact .ip]]) = true :=
    by decide +kernel
  exact ⟨proper_comparable, nested, shares.mp decided, symmetric ▸ decided⟩

end Esql.ParamType
