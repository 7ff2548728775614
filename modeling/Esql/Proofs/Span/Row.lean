import Esql.Proofs.Text.Boundary

/-!
# Rows of spans

A row is a sequence of spans from left to right between two offsets. Tokens, the parts of a node
and the commands of a pipeline all stand in rows; a gap between neighbours can be asked for.
-/

namespace Esql.Span

/-- The spans follow each other between two offsets, each at least `gap` bytes behind the one
before it. The last offset counts the gap behind the last span. -/
inductive Row (gap : Nat) : Nat → List Span → Nat → Prop where
  | nil {first last : Nat} (ordered : first ≤ last) : Row gap first [] last
  | cons {first last : Nat} {span : Span} {rest : List Span}
      (starts : first ≤ span.start) (ordered : span.start ≤ span.stop)
      (tail : Row gap (span.stop + gap) rest last) : Row gap first (span :: rest) last

namespace Row

variable {gap first middle last : Nat} {spans : List Span}

theorem first_le_last (row : Row gap first spans last) : first ≤ last := by
  induction row with
  | nil ordered => exact ordered
  | cons starts ordered tail ih => omega

theorem single {span : Span} (starts : first ≤ span.start) (ordered : span.start ≤ span.stop)
    (stops : span.stop + gap ≤ last) : Row gap first [span] last :=
  .cons starts ordered (.nil stops)

/-- A row also fits between offsets that lie further apart. -/
theorem widen {lower upper : Nat} (row : Row gap first spans last) (below : lower ≤ first)
    (above : last ≤ upper) : Row gap lower spans upper := by
  induction row generalizing lower with
  | nil ordered => exact .nil (by omega)
  | cons starts ordered tail ih =>
      exact .cons (Nat.le_trans below starts) ordered (ih (Nat.le_refl _) above)

theorem append {more : List Span} (front : Row gap first spans middle)
    (back : Row gap middle more last) : Row gap first (spans ++ more) last := by
  induction front with
  | nil ordered => exact back.widen ordered (Nat.le_refl _)
  | cons starts ordered tail ih => exact .cons starts ordered (ih back)

/-- A row in two parts has an offset between the parts. -/
theorem split {more : List Span} (row : Row gap first (spans ++ more) last) :
    ∃ middle, Row gap first spans middle ∧ Row gap middle more last := by
  induction spans generalizing first with
  | nil => exact ⟨first, .nil (Nat.le_refl _), row⟩
  | cons span spans ih =>
      cases row with
      | cons starts ordered tail =>
          obtain ⟨middle, front, back⟩ := ih tail
          exact ⟨middle, .cons starts ordered front, back⟩

theorem bounds (row : Row gap first spans last) {span : Span} (member : span ∈ spans) :
    first ≤ span.start ∧ span.start ≤ span.stop ∧ span.stop + gap ≤ last := by
  induction row with
  | nil ordered => cases member
  | cons starts ordered tail ih =>
      rcases List.mem_cons.mp member with rfl | member
      · exact ⟨starts, ordered, tail.first_le_last⟩
      · have inner := ih member
        exact ⟨by omega, inner.2⟩

/-- A row need not reach further than its last span and the gap behind it. -/
theorem tight {span : Span} (row : Row gap first (spans ++ [span]) last) :
    Row gap first (spans ++ [span]) (span.stop + gap) := by
  obtain ⟨middle, front, back⟩ := row.split
  have bounds := back.bounds (List.mem_singleton.mpr rfl)
  exact front.append (.single bounds.1 bounds.2.1 (Nat.le_refl _))

/-- No span of a row starts before the first one. -/
theorem head_start_le (row : Row gap first spans last) {head span : Span}
    (leads : spans.head? = some head) (member : span ∈ spans) : head.start ≤ span.start := by
  cases row with
  | nil ordered => cases leads
  | cons starts ordered tail =>
      cases leads
      rcases List.mem_cons.mp member with rfl | later
      · exact Nat.le_refl _
      · have behind := (tail.bounds later).1
        omega

/-- No span of a row stops behind the last one. -/
theorem stop_le_getLast (row : Row gap first spans last) {final span : Span}
    (ends : spans.getLast? = some final) (member : span ∈ spans) : span.stop ≤ final.stop := by
  obtain ⟨others, rfl⟩ := List.getLast?_eq_some_iff.mp ends
  have inside := (row.tight.bounds member).2.2
  omega

/-- Any two spans of a row are apart by the gap, in the order in which they stand. -/
theorem pairwise (row : Row gap first spans last) :
    spans.Pairwise fun left right => left.stop + gap ≤ right.start := by
  induction row with
  | nil ordered => exact .nil
  | cons starts ordered tail ih =>
      refine .cons ?_ ih
      intro right member
      exact (tail.bounds member).1

end Row

/-- A span does not cover what has some width and starts behind it. -/
theorem not_covers_of_stop_le {outer inner : Span} (wide : inner.start < inner.stop)
    (behind : outer.stop ≤ inner.start) : outer.covers inner = false := by
  rw [Bool.eq_false_iff, Ne, covers_iff]
  omega

/-- A span does not cover what has some width and stops before it. -/
theorem not_covers_of_le_start {outer inner : Span} (wide : inner.start < inner.stop)
    (before : inner.stop ≤ outer.start) : outer.covers inner = false := by
  rw [Bool.eq_false_iff, Ne, covers_iff]
  omega

/-- A span within a text, in order, that cuts no character. -/
structure Fits (source : String) (span : Span) : Prop where
  ordered : span.start ≤ span.stop
  starts : Text.IsBoundary source.toList span.start
  stops : Text.IsBoundary source.toList span.stop

theorem Fits.stop_le {source : String} {span : Span} (fits : span.Fits source) :
    span.stop ≤ Text.byteLength source :=
  fits.stops.le_width

/-- The text up to the end of a span that fits it is a beginning of the text. -/
theorem Fits.exists_behind {source : String} {span : Span} (fits : span.Fits source) :
    ∃ rest, source.toList = ((Span.mk 0 span.stop).slice source).toList ++ rest := by
  obtain ⟨front, rest, whole, stop⟩ := fits.stops
  have cut := Text.sliceChars_width [] front rest
  rw [List.nil_append, Text.width_nil, Nat.zero_add] at cut
  refine ⟨rest, ?_⟩
  unfold Span.slice
  rw [String.toList_ofList, whole, ← stop, cut]

/-- The span moved to the right. -/
def shift (distance : Nat) (span : Span) : Span := ⟨span.start + distance, span.stop + distance⟩

@[simp]
theorem shift_zero (span : Span) : span.shift 0 = span := rfl

/-- A span that fits a text covers the same characters when the text is extended at its ends. -/
theorem Fits.slice_extend {source longer : String} {span : Span} (fits : span.Fits source)
    {before after : List Char} (same : longer.toList = before ++ source.toList ++ after) :
    (span.shift (Text.width before)).slice longer = span.slice source := by
  unfold Span.slice shift
  rw [same, Nat.add_comm span.start, Nat.add_comm span.stop,
    Text.sliceChars_extend before after fits.starts fits.stops fits.ordered]

/-- The text up to the end of a span stays the same when the text goes on. -/
theorem Fits.slice_through {source longer : String} {span : Span} (fits : span.Fits source)
    {rest : List Char} (same : longer.toList = source.toList ++ rest) :
    (Span.mk 0 span.stop).slice longer = (Span.mk 0 span.stop).slice source := by
  have through : (Span.mk 0 span.stop).Fits source :=
    ⟨Nat.zero_le _, Text.isBoundary_zero _, fits.stops⟩
  have same' : longer.toList = [] ++ source.toList ++ rest := same
  have extended := through.slice_extend same'
  rwa [Text.width_nil, shift_zero] at extended

end Esql.Span

namespace Esql

/-- Items whose spans stand in a row, each of which is sound. -/
structure Placed {α : Type} (span : α → Span) (sound : α → Prop) (first : Nat) (items : List α)
    (last : Nat) : Prop where
  row : Span.Row 0 first (items.map span) last
  sound : ∀ item ∈ items, sound item

namespace Placed

variable {α : Type} {span : α → Span} {sound : α → Prop} {first middle last : Nat}
  {items more : List α}

theorem nil (ordered : first ≤ last) : Placed span sound first [] last :=
  ⟨.nil ordered, List.forall_mem_nil _⟩

theorem single {item : α} (good : sound item) (starts : first ≤ (span item).start)
    (ordered : (span item).start ≤ (span item).stop) (stops : (span item).stop ≤ last) :
    Placed span sound first [item] last := by
  refine ⟨.single starts ordered stops, ?_⟩
  intro other member
  rw [List.mem_singleton.mp member]
  exact good

theorem widen {lower upper : Nat} (placed : Placed span sound first items last)
    (below : lower ≤ first) (above : last ≤ upper) : Placed span sound lower items upper :=
  ⟨placed.row.widen below above, placed.sound⟩

theorem append (front : Placed span sound first items middle)
    (back : Placed span sound middle more last) : Placed span sound first (items ++ more) last := by
  refine ⟨?_, ?_⟩
  · rw [List.map_append]
    exact front.row.append back.row
  · intro item member
    rcases List.mem_append.mp member with inFront | inBack
    · exact front.sound item inFront
    · exact back.sound item inBack

theorem first_le_last (placed : Placed span sound first items last) : first ≤ last :=
  placed.row.first_le_last

/-- What a single placed item satisfies. -/
theorem bounds {item : α} (placed : Placed span sound first [item] last) :
    first ≤ (span item).start ∧ (span item).start ≤ (span item).stop ∧ (span item).stop ≤ last :=
  placed.row.bounds (List.mem_singleton.mpr rfl)

theorem head {item : α} (placed : Placed span sound first [item] last) : sound item :=
  placed.sound item (List.mem_singleton.mpr rfl)

end Placed

end Esql
