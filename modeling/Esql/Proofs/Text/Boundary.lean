import Esql.Text.Basic

/-!
# Character boundaries and slices

Offsets count bytes, so an offset can lie inside a character. Between two boundaries a slice is
exactly the characters that stand there, and it stays the same when the text is extended at
either end.
-/

namespace Esql.Text

attribute [simp] width_append

@[simp]
theorem width_nil : width [] = 0 := rfl

@[simp]
theorem width_cons (c : Char) (cs : List Char) : width (c :: cs) = c.utf8Size + width cs := rfl

theorem width_pos (c : Char) (cs : List Char) : 0 < width (c :: cs) :=
  Nat.lt_of_lt_of_le c.utf8Size_pos (Nat.le_add_right _ _)

theorem eq_nil_of_width_eq_zero {cs : List Char} (empty : width cs = 0) : cs = [] := by
  cases cs with
  | nil => rfl
  | cons c cs => exact absurd empty (Nat.ne_of_gt (width_pos c cs))

/-- An offset at which no character is cut. -/
def IsBoundary (cs : List Char) (offset : Nat) : Prop :=
  ∃ front back, cs = front ++ back ∧ width front = offset

theorem isBoundary_zero (cs : List Char) : IsBoundary cs 0 := ⟨[], cs, rfl, rfl⟩

theorem isBoundary_width (cs : List Char) : IsBoundary cs (width cs) :=
  ⟨cs, [], (List.append_nil cs).symm, rfl⟩

theorem isBoundary_append (front back : List Char) : IsBoundary (front ++ back) (width front) :=
  ⟨front, back, rfl, rfl⟩

theorem IsBoundary.le_width {cs : List Char} {offset : Nat} (boundary : IsBoundary cs offset) :
    offset ≤ width cs := by
  obtain ⟨front, back, rfl, rfl⟩ := boundary
  rw [width_append]
  exact Nat.le_add_right _ _

/-- Two boundaries in order have a stretch of characters between them. -/
theorem IsBoundary.between {cs : List Char} {start stop : Nat}
    (first : IsBoundary cs start) (second : IsBoundary cs stop) (ordered : start ≤ stop) :
    ∃ front middle back, cs = front ++ middle ++ back ∧ width front = start ∧
      width front + width middle = stop := by
  obtain ⟨front, rest, rfl, rfl⟩ := first
  obtain ⟨longer, back, same, rfl⟩ := second
  rcases List.append_eq_append_iff.mp same with ⟨middle, rfl, rfl⟩ | ⟨middle, rfl, rfl⟩
  · exact ⟨front, middle, back, (List.append_assoc ..).symm, rfl, (width_append ..).symm⟩
  · have empty : width middle = 0 := by
      rw [width_append] at ordered
      omega
    rw [eq_nil_of_width_eq_zero empty]
    exact ⟨longer, [], rest, by simp, by simp, by simp⟩

theorem dropBytes?_width (front rest : List Char) :
    dropBytes? (front ++ rest) (width front) = some rest := by
  induction front with
  | nil => cases rest <;> rfl
  | cons c front ih =>
      obtain ⟨count, same⟩ : ∃ count, width (c :: front) = count + 1 :=
        Nat.exists_eq_succ_of_ne_zero (Nat.ne_of_gt (width_pos c front))
      have rest_eq : count + 1 - c.utf8Size = width front := by
        rw [← same, width_cons, Nat.add_sub_cancel_left]
      rw [same, List.cons_append, dropBytes?, if_pos, rest_eq]
      · exact ih
      · rw [← same, width_cons]
        exact Nat.le_add_right _ _

theorem takeBytes?_width (front rest : List Char) :
    takeBytes? (front ++ rest) (width front) = some front := by
  induction front with
  | nil => cases rest <;> rfl
  | cons c front ih =>
      obtain ⟨count, same⟩ : ∃ count, width (c :: front) = count + 1 :=
        Nat.exists_eq_succ_of_ne_zero (Nat.ne_of_gt (width_pos c front))
      have rest_eq : count + 1 - c.utf8Size = width front := by
        rw [← same, width_cons, Nat.add_sub_cancel_left]
      rw [same, List.cons_append, takeBytes?, if_pos, rest_eq, ih]
      · rfl
      · rw [← same, width_cons]
        exact Nat.le_add_right _ _

/-- Between two boundaries the slice is what stands between them. -/
theorem sliceChars_width (front middle back : List Char) :
    sliceChars (front ++ middle ++ back) (width front) (width front + width middle) = middle := by
  have stop_le : width front + width middle ≤ width (front ++ middle ++ back) := by
    simp only [width_append]
    exact Nat.le_add_right _ _
  have start_le : width front ≤ width front + width middle := Nat.le_add_right _ _
  unfold sliceChars
  dsimp only
  rw [Nat.min_eq_left stop_le, Nat.min_eq_left start_le, List.append_assoc, dropBytes?_width,
    Option.bind_some, Nat.add_sub_cancel_left, takeBytes?_width, Option.getD_some]

/-- A list of characters is divided in one way at a number of bytes. -/
theorem append_inj_of_width {front back other rest : List Char}
    (same : front ++ back = other ++ rest) (equal : width front = width other) :
    front = other ∧ back = rest := by
  induction front generalizing other with
  | nil =>
      obtain rfl := eq_nil_of_width_eq_zero equal.symm
      exact ⟨rfl, same⟩
  | cons c front ih =>
      cases other with
      | nil => exact absurd equal (Nat.ne_of_gt (width_pos c front))
      | cons d other =>
          obtain ⟨rfl, behind⟩ := List.cons.inj same
          obtain ⟨rfl, rest⟩ := ih behind (Nat.add_left_cancel equal)
          exact ⟨rfl, rest⟩

theorem sliceChars_self (cs : List Char) (offset : Nat) : sliceChars cs offset offset = [] := by
  unfold sliceChars
  dsimp only
  rw [Nat.min_eq_right (Nat.min_le_left offset (width cs)), Nat.sub_self]
  cases dropBytes? cs (min offset (width cs)) with
  | none => rfl
  | some rest => cases rest <;> rfl

/-- Slices that meet at a boundary. -/
theorem sliceChars_append {cs : List Char} {start middle stop : Nat} (first : IsBoundary cs start)
    (second : IsBoundary cs middle) (last : IsBoundary cs stop) (before : start ≤ middle)
    (behind : middle ≤ stop) :
    sliceChars cs start stop = sliceChars cs start middle ++ sliceChars cs middle stop := by
  obtain ⟨front, inner, rest, rfl, rfl, rfl⟩ := first.between second before
  obtain ⟨longer, outer, back, same, width_eq, rfl⟩ := second.between last behind
  rw [List.append_assoc longer] at same
  have equal : width (front ++ inner) = width longer := by rw [width_append, width_eq]
  obtain ⟨rfl, rfl⟩ := append_inj_of_width same equal
  have long := sliceChars_width front (inner ++ outer) back
  have near := sliceChars_width front inner (outer ++ back)
  have far := sliceChars_width (front ++ inner) outer back
  simp only [width_append, List.append_assoc, Nat.add_assoc] at long near far ⊢
  rw [long, near, far]

/-- A slice between boundaries does not change when the text is extended at both ends. -/
theorem sliceChars_extend {cs : List Char} {start stop : Nat} (before after : List Char)
    (first : IsBoundary cs start) (second : IsBoundary cs stop) (ordered : start ≤ stop) :
    sliceChars (before ++ cs ++ after) (width before + start) (width before + stop) =
      sliceChars cs start stop := by
  obtain ⟨front, middle, back, rfl, rfl, rfl⟩ := first.between second ordered
  rw [sliceChars_width]
  have longer := sliceChars_width (before ++ front) middle (back ++ after)
  simpa only [width_append, List.append_assoc, Nat.add_assoc] using longer

end Esql.Text
