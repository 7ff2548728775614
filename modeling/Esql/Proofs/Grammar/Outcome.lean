import Esql.Proofs.Grammar.Passage
import Esql.Proofs.Syntax.Nested

/-!
# Outcomes of rules

What a rule of one stage achieves: it passes over some tokens, it records an error if it leaves its
result unfinished, and what it returns stands where those tokens stood. Outcomes are put together
as rules are, so the outcome of each rule follows from those of the rules that it uses.
-/

namespace Esql.Grammar

/-- The tokens left stand in order behind the last one read. -/
structure Reading.Ready (s : Reading) : Prop where
  placed : Placed Token.span (Token.Sound s.source) s.lastStop s.rest (Text.byteLength s.source)
  stop : Text.IsBoundary s.source.toList s.lastStop

namespace Leads

variable {s t : Reading} {read : List Token}

/-- Reading goes forward through the text and stops between characters. -/
theorem ready (leads : Leads s read t) (ready : s.Ready) : t.Ready ∧ s.lastStop ≤ t.lastStop := by
  obtain ⟨source, rest, stop, _⟩ := leads
  obtain ⟨placed, boundary⟩ := ready
  rw [rest, ← source] at placed
  rw [← source] at boundary
  suffices both : (Placed Token.span (Token.Sound t.source) (Token.stopAfter s.lastStop read) t.rest
      (Text.byteLength t.source) ∧
      Text.IsBoundary t.source.toList (Token.stopAfter s.lastStop read)) ∧
      s.lastStop ≤ Token.stopAfter s.lastStop read by
    rw [← stop] at both
    exact ⟨⟨both.1.1, both.1.2⟩, both.2⟩
  clear rest stop source
  generalize s.lastStop = first at placed boundary
  induction read generalizing first with
  | nil => exact ⟨⟨placed, boundary⟩, Nat.le_refl _⟩
  | cons token read ih =>
      obtain ⟨row, sound⟩ := placed
      have good := sound token List.mem_cons_self
      cases row with
      | cons starts ordered tail =>
          obtain ⟨both, later⟩ := ih token.span.stop
            ⟨tail, fun other member => sound other (List.mem_cons_of_mem _ member)⟩ good.fits.stops
          exact ⟨both, by rw [Token.stopAfter_cons]; omega⟩

end Leads

namespace Follows

variable {s t : Reading}

theorem ready (follows : Follows s t) (ready : s.Ready) : t.Ready := by
  obtain ⟨read, leads⟩ := follows
  exact (leads.ready ready).1

theorem stop_le (follows : Follows s t) (ready : s.Ready) : s.lastStop ≤ t.lastStop := by
  obtain ⟨read, leads⟩ := follows
  exact (leads.ready ready).2

end Follows

/-- The next token stands in the text behind the last one read. -/
theorem Reading.Ready.head {s : Reading} {token : Token} {rest : List Token} (ready : s.Ready)
    (front : s.rest = token :: rest) :
    token.Sound s.source ∧ s.lastStop ≤ token.span.start := by
  obtain ⟨⟨row, sound⟩, _⟩ := ready
  rw [front] at row sound
  refine ⟨sound token List.mem_cons_self, ?_⟩
  cases row with
  | cons starts ordered tail => exact starts

/-- A rule passes from one state to another and returns some items, which stand in the text
between the two. If it leaves something unfinished, it records an error. -/
structure Outcome {α : Type} (span : α → Span) (nested : String → α → Prop) (debt : Int)
    (failed : Bool) (s : Reading) (items : List α) (t : Reading) : Prop where
  passage : Passage debt s t
  faulty : failed = true → s.errors.length < t.errors.length
  placed : s.Ready → Placed span (nested s.source) s.lastStop items t.lastStop

namespace Outcome

variable {α β : Type} {span : α → Span} {nested : String → α → Prop} {debt extra : Int}
  {failed halted : Bool} {s u t : Reading} {items more : List α}

/-- Nothing is returned. -/
theorem empty (passage : Passage debt s t)
    (faulty : failed = true → s.errors.length < t.errors.length) :
    Outcome span nested debt failed s [] t :=
  ⟨passage, faulty, fun ready => .nil (passage.follows.stop_le ready)⟩

theorem weaken (outcome : Outcome span nested debt failed s items t) (bound : debt ≤ extra)
    (implies : halted = true → failed = true) : Outcome span nested extra halted s items t :=
  ⟨outcome.passage.weaken bound, fun fails => outcome.faulty (implies fails), outcome.placed⟩

/-- Items behind each other; either rule may have left something unfinished. -/
theorem both (front : Outcome span nested debt failed s items u)
    (back : Outcome span nested extra halted u more t) :
    Outcome span nested (debt + extra) (failed || halted) s (items ++ more) t := by
  refine ⟨front.passage.trans back.passage, ?_, ?_⟩
  · intro fails
    rcases Bool.or_eq_true_iff.mp fails with first | second
    · exact Nat.lt_of_lt_of_le (front.faulty first) back.passage.follows.errors
    · exact Nat.lt_of_le_of_lt front.passage.follows.errors (back.faulty second)
  · intro ready
    have behind := back.placed (front.passage.follows.ready ready)
    rw [front.passage.follows.source] at behind
    exact (front.placed ready).append behind

theorem append (front : Outcome span nested debt failed s items u)
    (back : Outcome span nested extra halted u more t) :
    Outcome span nested (debt + extra) halted s (items ++ more) t :=
  (front.both back).weaken (Int.le_refl _) fun fails => by rw [fails, Bool.or_true]

/-- What comes before the items adds nothing to them. -/
theorem after (passage : Passage debt s u) (later : Outcome span nested extra failed u items t) :
    Outcome span nested (debt + extra) failed s items t := by
  have nothing : Outcome span nested debt false s [] u := .empty passage Bool.noConfusion
  exact nothing.append later

/-- What comes behind the items may fail. -/
theorem before (earlier : Outcome span nested debt failed s items u) (passage : Passage extra u t)
    (faulty : halted = true → failed = true ∨ u.errors.length < t.errors.length) :
    Outcome span nested (debt + extra) halted s items t := by
  refine ⟨earlier.passage.trans passage, ?_, ?_⟩
  · intro fails
    rcases faulty fails with first | second
    · exact Nat.lt_of_lt_of_le (earlier.faulty first) passage.follows.errors
    · exact Nat.lt_of_le_of_lt earlier.passage.follows.errors second
  · intro ready
    exact (earlier.placed ready).widen (Nat.le_refl _)
      (passage.follows.stop_le (earlier.passage.follows.ready ready))

variable {parent : β → Span} {parentNested : String → β → Prop} {node : β}

/-- A node from its first token on, with the items behind that token as its parts. -/
theorem headed {token : Token} {rest : List Token} (front : s.rest = token :: rest)
    (plain : token.kind ≠ .pipe) (later : Outcome span nested debt failed s.advance items t)
    (spanned : parent node = ⟨token.span.start, t.lastStop⟩)
    (closed : (parent node).Fits t.source →
      Placed span (nested t.source) token.span.start items t.lastStop →
      parentNested t.source node) :
    Outcome parent parentNested (closing token.kind + debt) failed s [node] t := by
  have passage := (Passage.advance front rfl plain).trans later.passage
  refine ⟨passage, ?_, ?_⟩
  · intro fails
    exact Nat.lt_of_le_of_lt (Passage.advance front rfl plain).follows.errors (later.faulty fails)
  · intro ready
    obtain ⟨sound, starts⟩ := ready.head front
    have advanced := (Passage.advance front rfl plain).follows.ready ready
    have stops := (passage.follows.ready ready).stop
    have starts_le : token.span.start ≤ s.advance.lastStop := by
      rw [Reading.lastStop_advance front]
      exact sound.fits.ordered
    have placed := (later.placed advanced).widen starts_le (Nat.le_refl _)
    have source := (Passage.advance front rfl plain).follows.source
    rw [later.passage.follows.source, source] at stops closed
    rw [source] at placed
    have ordered := placed.first_le_last
    have ends : (parent node).stop ≤ t.lastStop := Nat.le_of_eq (congrArg Span.stop spanned)
    refine .single (closed ⟨?_, ?_, ?_⟩ placed) ?_ ?_ ends
    all_goals rw [spanned]
    · exact ordered
    · exact sound.fits.starts
    · exact stops
    · exact starts
    · exact ordered

/-- A node from its first part on. -/
theorem led {first : α} {others : List α}
    (parts : Outcome span nested debt failed s (first :: others) t)
    (fits : ∀ source, nested source first → (span first).Fits source)
    (spanned : parent node = ⟨(span first).start, t.lastStop⟩)
    (closed : (parent node).Fits t.source →
      Placed span (nested t.source) (span first).start (first :: others) t.lastStop →
        parentNested t.source node) :
    Outcome parent parentNested debt failed s [node] t := by
  refine ⟨parts.passage, parts.faulty, ?_⟩
  intro ready
  have placed := parts.placed ready
  have stops := (parts.passage.follows.ready ready).stop
  have good := fits _ (placed.sound first List.mem_cons_self)
  rw [parts.passage.follows.source] at stops closed
  have inner : Placed span (nested s.source) (span first).start (first :: others) t.lastStop := by
    obtain ⟨row, sound⟩ := placed
    cases row with
    | cons starts ordered tail => exact ⟨.cons (Nat.le_refl _) ordered tail, sound⟩
  have ordered := inner.first_le_last
  have ends : (parent node).stop ≤ t.lastStop := Nat.le_of_eq (congrArg Span.stop spanned)
  refine .single (closed ⟨?_, ?_, ?_⟩ inner) ?_ ?_ ends
  all_goals rw [spanned]
  · exact ordered
  · exact good.starts
  · exact stops
  · exact (placed.row.bounds (List.mem_map_of_mem List.mem_cons_self)).1
  · exact ordered

end Outcome

section

variable {α : Type} {span : α → Span} {nested : String → α → Prop} {s : Reading}

theorem Outcome.map {β : Type} {parent : β → Span} {parentNested : String → β → Prop} {f : α → β}
    {debt : Int} {failed : Bool} {t : Reading} {items : List α}
    (outcome : Outcome span nested debt failed s items t)
    (same : ∀ item, parent (f item) = span item)
    (keeps : ∀ source item, nested source item → parentNested source (f item)) :
    Outcome parent parentNested debt failed s (items.map f) t := by
  refine ⟨outcome.passage, outcome.faulty, ?_⟩
  intro ready
  obtain ⟨row, sound⟩ := outcome.placed ready
  refine ⟨?_, ?_⟩
  · have spans : parent ∘ f = span := funext same
    rwa [List.map_map, spans]
  · intro item member
    obtain ⟨part, inside, rfl⟩ := List.mem_map.mp member
    exact keeps _ part (sound part inside)

theorem halt_outcome (what : Expectation) (s : Reading) :
    Ensures (halt what) s fun read t =>
      Outcome span nested 0 (!read.complete) s (read.items : List α) t := by
  unfold halt
  simp only [ensures_expected, ensures_pure]
  refine .empty (.record s _) ?_
  intro _
  simp

theorem andThen_outcome {first second : Rule (Parts α)}
    (front : Ensures first s fun read t => Outcome span nested 0 (!read.complete) s read.items t)
    (back : ∀ u, Ensures second u fun read t =>
      Outcome span nested 0 (!read.complete) u read.items t) :
    Ensures (andThen first second) s fun read t =>
      Outcome span nested 0 (!read.complete) s read.items t := by
  unfold andThen
  refine front.bind ?_
  intro read u outcome
  split
  · refine (back u).bind ?_
    intro others t later
    exact outcome.append later
  · exact outcome

/-- Items between commas stand where they were read. -/
theorem separatedFrom_outcome {item : Rule (Parts α)}
    (each : ∀ s, Ensures item s fun read t =>
      Outcome span nested 0 (!read.complete) s read.items t) (bound : Nat) (s : Reading) :
    Ensures (separatedFrom item bound) s fun read t =>
      Outcome span nested 0 (!read.complete) s read.items t := by
  induction bound generalizing s with
  | zero => exact halt_outcome .expression s
  | succ bound ih =>
      refine andThen_outcome (each s) ?_
      intro u
      refine ensures_accept ?_ ?_
      · intro token rest front comma
        refine (ih u.advance).mono ?_
        intro read t outcome
        exact .after (.advance front comma TokenKind.noConfusion) outcome
      · exact .empty (.refl u) Bool.noConfusion

theorem separated_outcome {item : Rule (Parts α)}
    (each : ∀ s, Ensures item s fun read t =>
      Outcome span nested 0 (!read.complete) s read.items t) (s : Reading) :
    Ensures (separated item) s fun read t =>
      Outcome span nested 0 (!read.complete) s read.items t :=
  separatedFrom_outcome each _ s

end

/-- The outcome of a rule for expressions. -/
abbrev ExprOutcome : Int → Bool → Reading → List Expr → Reading → Prop :=
  Outcome Expr.span Expr.Nested

namespace ExprOutcome

variable {debt : Int} {failed incomplete : Bool} {s t : Reading} {first node : Expr}
  {items others : List Expr} {start : Nat}

theorem nested_of_extent (extent : node.extent = t.extent start incomplete)
    (children : node.children = items) (fits : node.span.Fits t.source)
    (placed : Placed Expr.span (Expr.Nested t.source) start items t.lastStop) :
    node.Nested t.source := by
  have spanned : node.span = ⟨start, t.lastStop⟩ := congrArg Extent.span extent
  refine .intro fits ?_ ?_ ?_
  · rw [spanned]
    exact congrArg Extent.text extent
  · rw [spanned, children]
    exact placed.row
  · rw [children]
    exact placed.sound

/-- An expression from its first token on. -/
theorem headed {token : Token} {rest : List Token} (front : s.rest = token :: rest)
    (plain : token.kind ≠ .pipe) (later : ExprOutcome debt failed s.advance items t)
    (extent : node.extent = t.extent token.span.start incomplete)
    (children : node.children = items) :
    ExprOutcome (closing token.kind + debt) failed s [node] t :=
  Outcome.headed front plain later (congrArg Extent.span extent)
    (nested_of_extent extent children)

/-- An expression from its first operand on. -/
theorem led (parts : ExprOutcome debt failed s (first :: others) t)
    (extent : node.extent = t.extent first.span.start incomplete)
    (children : node.children = first :: others) : ExprOutcome debt failed s [node] t :=
  Outcome.led parts (fun _ nested => nested.fits) (congrArg Extent.span extent)
    (nested_of_extent extent children)

end ExprOutcome

/-- The outcome of a rule for arguments. -/
abbrev ArgumentOutcome : Int → Bool → Reading → List Argument → Reading → Prop :=
  Outcome Argument.span Argument.Nested

namespace ArgumentOutcome

variable {debt : Int} {failed : Bool} {s t : Reading} {first : Expr} {items others : List Expr}
  {node : Argument}

/-- An argument from its first token on, with expressions as its parts. -/
theorem headed {token : Token} {rest : List Token} (front : s.rest = token :: rest)
    (plain : IsPlain token.kind) (later : ExprOutcome debt failed s.advance items t)
    (noTree : node.expr? = none ∧ node.branch? = none)
    (spanned : node.span = ⟨token.span.start, t.lastStop⟩)
    (text : node.text = node.span.slice t.source) (operands : node.operands = items) :
    ArgumentOutcome debt failed s [node] t := by
  refine Outcome.weaken (Outcome.headed front plain.1 later spanned ?_) ?_ id
  · intro fits placed
    refine .plain noTree fits text ?_
    rwa [spanned, operands]
  · exact Int.le_of_eq (by rw [plain.2, Int.zero_add])

/-- An argument from its first part on. -/
theorem led (parts : ExprOutcome debt failed s (first :: others) t)
    (noTree : node.expr? = none ∧ node.branch? = none)
    (spanned : node.span = ⟨first.span.start, t.lastStop⟩)
    (text : node.text = node.span.slice t.source) (operands : node.operands = first :: others) :
    ArgumentOutcome debt failed s [node] t := by
  refine Outcome.led parts (fun _ nested => nested.fits) spanned ?_
  intro fits placed
  refine .plain noTree fits text ?_
  rwa [spanned, operands]

end ArgumentOutcome

theorem ExprOutcome.asArguments {debt : Int} {failed : Bool} {s t : Reading} {items : List Expr}
    (outcome : ExprOutcome debt failed s items t) :
    ArgumentOutcome debt failed s (items.map Argument.expr) t :=
  outcome.map (fun _ => rfl) fun _ _ nested => .expr nested

end Esql.Grammar
