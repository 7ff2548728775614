/-!
# Spans

A span is a half-open range of byte offsets into the text of a query. Tokens, syntax trees,
diagnostics and completion ranges all speak of the same offsets.
-/

namespace Esql

/-- A half-open range of byte offsets. -/
structure Span where
  start : Nat
  stop : Nat
deriving Repr, BEq, DecidableEq, ReflBEq, LawfulBEq, Inhabited

namespace Span

/-- The span without width at an offset. -/
def point (offset : Nat) : Span := ⟨offset, offset⟩

/-- The number of bytes covered; a reversed range covers none. -/
def length (span : Span) : Nat := span.stop - span.start

def isEmpty (span : Span) : Bool := span.length == 0

/-- The offset lies inside; the end itself does not. -/
def contains (span : Span) (offset : Nat) : Bool :=
  span.start ≤ offset && offset < span.stop

/-- The offset lies inside or directly after. -/
def touches (span : Span) (offset : Nat) : Bool :=
  span.start ≤ offset && offset ≤ span.stop

/-- The inner span lies entirely within the outer one. -/
def covers (outer inner : Span) : Bool :=
  outer.start ≤ inner.start && inner.stop ≤ outer.stop

def overlaps (first second : Span) : Bool :=
  first.start < second.stop && second.start < first.stop

/-- The least span that covers both. -/
def join (first second : Span) : Span :=
  ⟨min first.start second.start, max first.stop second.stop⟩

/-- The written form of a span, an opening bracket and a closing parenthesis. -/
def render (span : Span) : String :=
  s!"[{span.start}, {span.stop})"

theorem touches_iff (span : Span) (offset : Nat) :
    span.touches offset = true ↔ span.start ≤ offset ∧ offset ≤ span.stop := by
  simp [touches]

theorem covers_iff (outer inner : Span) :
    outer.covers inner = true ↔ outer.start ≤ inner.start ∧ inner.stop ≤ outer.stop := by
  simp [covers]

theorem join_covers_left (first second : Span) : (first.join second).covers first = true := by
  rw [covers_iff]
  exact ⟨Nat.min_le_left _ _, Nat.le_max_left _ _⟩

theorem join_covers_right (first second : Span) : (first.join second).covers second = true := by
  rw [covers_iff]
  exact ⟨Nat.min_le_right _ _, Nat.le_max_right _ _⟩

end Span

end Esql
