import Esql.Proofs.Silent.Basic

/-!
# Expressions tell what they record

A complete expression was read without an error, but for intervals in parentheses that are not
closed. The rules call each other, so this is shown of all of them together, by induction on the
bound of the recursion.

Two kinds of expressions need more than that. An interval is never marked, so the tokens that it was
read from are kept. A sign takes a number that stands directly behind it into a literal without a
mark. That loses nothing, because a marked number stands in parentheses, and not behind the sign.
-/

namespace Esql.Grammar

/-- What is known of an expression that is read from one state to another. -/
structure Reported (s : Reading) (x : Option Expr) (t : Reading) : Prop where
  told : Told (isUnfinished x) s t
  interval : ∀ interval, x = some (.interval interval) → ∃ run, IsInterval run ∧ Leads s run t
  number : s.Ready → ∀ number, x = some (.literal number) → number.isNumeric = true →
    number.incomplete = true → s.lastStop < number.span.start

/-- An expression that is neither a literal nor an interval. -/
def isCompound : Expr → Bool
  | .literal _ | .interval _ => false
  | _ => true

namespace Reported

variable {s t : Reading}

theorem none : Reported s none t := ⟨.of_failed rfl, nofun, fun _ => nofun⟩

theorem of_compound {node : Expr} (told : Told node.incomplete s t)
    (compound : isCompound node = true) : Reported s (some node) t := by
  refine ⟨told, ?_, ?_⟩
  · intro interval same
    rw [Option.some.inj same] at compound
    cases compound
  · intro _ number same
    rw [Option.some.inj same] at compound
    cases compound

/-- A literal that is no marked number. -/
theorem of_literal {literal : Literal} (told : Told literal.incomplete s t)
    (unmarked : literal.isNumeric = true → literal.incomplete = false) :
    Reported s (some (.literal literal)) t := by
  refine ⟨told, ?_, ?_⟩
  · intro interval same
    cases Option.some.inj same
  · intro _ number same numeric marked
    obtain rfl := Expr.literal.inj (Option.some.inj same)
    exact absurd ((unmarked numeric).symm.trans marked) Bool.noConfusion

theorem of_interval {interval : Interval} {run : List Token} (told : Told false s t)
    (tokens : IsInterval run) (read : Leads s run t) :
    Reported s (some (.interval interval)) t := by
  refine ⟨told.weaken, fun _ _ => ⟨run, tokens, read⟩, ?_⟩
  intro _ number same
  cases Option.some.inj same

end Reported

theorem expected_reported (what : Expectation) (s : Reading) :
    Ensures (do expected what; pure none) s (Reported s) :=
  Reported.none

theorem tells_of_reported {rule : Rule (Option Expr)}
    (reported : ∀ s, Ensures rule s (Reported s)) : Tells rule isUnfinished :=
  fun s => (reported s).told

/-! ## Operators -/

/-- An operator is marked if its right operand is missing or marked. -/
theorem binaryNode_reported (name : String) (left : Expr) {right : Option Expr} {s t : Reading}
    (told : Told (isUnfinished right) s t) :
    Ensures (binaryNode name left right) t fun x => Reported s (some x) := by
  unfold binaryNode
  rw [ensures_extent]
  exact .of_compound told rfl

theorem nullTest_reported {operand : Expr} {s u : Reading} (front : Told false s u) :
    Ensures (nullTest operand) u fun x => Reported s (some x) := by
  unfold nullTest
  refine (Tells.accept _ u).bind ?_
  intro negated v first
  refine (Tells.accept _ v).bind ?_
  intro complete t second
  cases complete with
  | true => exact .of_compound ((front.append first).append second) rfl
  | false => exact .of_compound (.of_failed rfl) rfl

/-- A type that is missing behind a double colon is recorded. -/
theorem tells_castType : Tells castType Option.isNone := by
  refine .tokens fun tokens => ?_
  split
  · exact .after .advance fun _ => .pure _
  · exact .of_failed (.after fun _ => .pure rfl)

theorem castsFrom_reported (bound : Nat) {value : Expr} {s u : Reading}
    (read : Reported s (some value) u) :
    Ensures (castsFrom bound value) u fun x => Reported s (some x) := by
  induction bound generalizing value u with
  | zero => exact read
  | succ bound ih =>
      unfold castsFrom
      split
      · exact read
      rename_i complete
      have front : Told false s u := by
        have told := read.told
        rwa [isUnfinished, Option.all_some, Bool.eq_false_iff.mpr complete] at told
      refine ensures_accept ?_ read
      intro token rest _ _
      refine (tells_castType u.advance).bind ?_
      intro target t cast
      rw [ensures_extent]
      have passed : Told false s u.advance := front.append (.of_silent (.advance u))
      exact ih (.of_compound (passed.append cast) rfl)

theorem signedLiteral?_adjoins {sign : Token} {name : String} {operand : Option Expr}
    {number : Literal} (signed : signedLiteral? sign name operand = some number) :
    number.isNumeric = true ∧ number.span.start = sign.span.stop := by
  unfold signedLiteral? at signed
  split at signed
  · split at signed
    · rename_i adjoining
      obtain rfl := Option.some.inj signed
      simp only [Bool.and_eq_true, beq_iff_eq] at adjoining
      exact ⟨adjoining.1.2, adjoining.2⟩
    · cases signed
  · cases signed

/-- A number directly behind its sign is complete. -/
theorem Reported.complete_of_signed {s t : Reading} {sign : Token} {rest : List Token}
    {name : String} {operand : Option Expr} {number : Literal} (front : s.rest = sign :: rest)
    (ready : s.Ready) (read : Reported s.advance operand t)
    (signed : signedLiteral? sign name operand = some number) : number.incomplete = false := by
  obtain ⟨numeric, starts⟩ := signedLiteral?_adjoins signed
  rw [Bool.eq_false_iff]
  intro marked
  have behind := read.number ((follows_skip s 1).ready ready) number
    (signedLiteral?_eq_some signed) numeric marked
  rw [Reading.lastStop_advance front, starts] at behind
  exact Nat.lt_irrefl _ behind

theorem unaryNode_reported {s u : Reading} {sign : Token} {rest : List Token} (name : String)
    {operand : Option Expr} (front : s.rest = sign :: rest) (read : Reported s.advance operand u) :
    Ensures (unaryNode sign name operand) u fun x => Reported s (some x) := by
  have told := Told.behind (.advance s) read.told
  unfold unaryNode
  split
  · rename_i number signed
    refine .of_literal (fun ready _ => told ready ?_) fun _ => rfl
    rw [signedLiteral?_eq_some signed]
    exact read.complete_of_signed front ready signed
  · rw [ensures_extent]
    exact .of_compound told rfl

/-! ## Operands -/

theorem literal_reported (kind : LiteralKind) (value : String) (s : Reading) :
    Ensures (literalExpr? kind value false) s (Reported s) :=
  .of_literal (.of_silent (.advance s)) fun _ => rfl

/-- A word behind a whole number makes an interval, which is read from both. -/
theorem integerExpr?_reported {s : Reading} {token : Token} {rest : List Token}
    (front : s.rest = token :: rest) (integer : token.kind = .integer) :
    Ensures (integerExpr? token rest) s (Reported s) := by
  unfold integerExpr?
  split
  · rename_i unit rest
    split
    · rename_i word
      have leads := leads_skip s 2
      rw [front] at leads
      exact .of_interval (.of_silent (.skip s 2)) (.bare integer word) leads
    · exact literal_reported _ _ s
  · exact literal_reported _ _ s

/-- A string without its end is marked. -/
theorem stringExpr?_reported (token : Token) (value : String) (terminated : Bool) (s : Reading) :
    Ensures (stringExpr? token value terminated) s (Reported s) := by
  cases terminated with
  | true => exact literal_reported .string value s
  | false =>
      refine Reported.of_literal (.of_failed rfl) ?_
      intro numeric
      cases numeric

theorem columnExpr?_reported (s : Reading) : Ensures columnExpr? s (Reported s) := by
  refine (tells_column? false s).bind ?_
  intro column? t told
  cases column? with
  | none => exact Reported.none
  | some column => exact .of_compound told rfl

/-- Every expression but an interval can be marked, and does not become one. -/
theorem markIncomplete_cases (expr : Expr) : (∃ interval, expr = .interval interval) ∨
    expr.markIncomplete.incomplete = true ∧
      ∀ interval, expr.markIncomplete ≠ .interval interval := by
  cases expr with
  | interval interval => exact .inl ⟨interval, rfl⟩
  | _ => exact .inr ⟨rfl, nofun⟩

/-- An expression in parentheses is marked if they are not closed, unless it is an interval. -/
theorem closeGroup_reported {s u : Reading} {opening : Token} {rest : List Token}
    {inner? : Option Expr} (front : s.rest = opening :: rest) (opens : opening.kind = .openParen)
    (read : Reported s.advance inner? u)
    (outcome : ExprOutcome 0 (isUnfinished inner?) s.advance inner?.toList u) :
    Ensures (closeGroup inner?) u (Reported s) := by
  cases inner? with
  | none => exact Reported.none
  | some inner =>
      have behind (ready : s.Ready) : s.lastStop < inner.span.start := by
        obtain ⟨sound, starts⟩ := ready.head front
        have inside := (outcome.placed ((follows_skip s 1).ready ready)).bounds.1
        rw [Reading.lastStop_advance front] at inside
        exact Nat.lt_of_le_of_lt starts (Nat.lt_of_lt_of_le sound.nonempty inside)
      have told := Told.behind (.advance s) read.told
      unfold closeGroup
      dsimp only
      split
      · rename_i marked
        refine ⟨.of_failed marked, ?_, ?_⟩
        · intro interval same
          rw [Option.some.inj same] at marked
          cases marked
        · intro ready number same _ _
          rw [Option.some.inj same] at behind
          exact behind ready
      rename_i complete
      rw [Bool.not_eq_true] at complete
      rw [isUnfinished, Option.all_some, complete] at told
      unfold accept
      simp only [ensures_bind_assoc, ensures_get]
      split
      · rename_i found
        obtain ⟨close, others, tokens, closes⟩ := Reading.exists_of_isAt found
        have closed : Told false s u.advance := told.append (.of_silent (.advance u))
        refine ⟨closed.weaken, ?_, ?_⟩
        · intro interval same
          obtain ⟨run, inside, leads⟩ := read.interval interval same
          exact ⟨_, .closed opens closes inside,
            ((Leads.advance front).trans leads).trans (.advance tokens)⟩
        · intro _ number same _ marked
          rw [Option.some.inj same] at complete
          exact absurd (complete.symm.trans marked) Bool.noConfusion
      · rename_i missing
        rw [Bool.not_eq_true] at missing
        rcases markIncomplete_cases inner with ⟨interval, rfl⟩ | ⟨marked, other⟩
        · obtain ⟨run, inside, leads⟩ := read.interval interval rfl
          have opened := (Leads.advance front).trans leads
          have recorded := opened.trans (.record u (u.missing .closeParen))
          rw [List.append_nil] at recorded
          exact .of_interval (fun ready _ => (told ready rfl).leftOpen opens inside opened missing)
            (.unclosed opens inside) recorded
        · refine ⟨.of_failed marked, ?_, ?_⟩
          · intro interval same
            exact absurd (Option.some.inj same) (other interval)
          · intro ready number same _ _
            have starts := behind ready
            rw [← Expr.markIncomplete_span, Option.some.inj same] at starts
            exact starts

/-! ## Expressions -/

/-- What the rules for expressions tell under one bound. -/
structure ExpressionsTell (bound : Nat) : Prop where
  binary : ∀ power s, Ensures (binary bound power) s (Reported s)
  operatorsFrom : ∀ power left s u, Reported s (some left) u →
    Ensures (operatorsFrom bound power left) u fun x => Reported s (some x)
  unary : ∀ s, Ensures (unary bound) s (Reported s)
  memberList : Tells (memberList bound) isUnfinished
  listing : ∀ close starred, TellsParts (listing bound close starred)
  itemsFrom : ∀ close starred, TellsParts (itemsFrom bound close starred)
  primary : ∀ s, Ensures (primary bound) s (Reported s)

namespace ExpressionsTell

variable {bound : Nat} (inner : ExpressionsTell bound)

include inner

theorem binary_succ (power : Nat) (s : Reading) :
    Ensures (Grammar.binary (bound + 1) power) s (Reported s) := by
  unfold Grammar.binary
  refine (inner.unary s).bind ?_
  intro left? u read
  cases left? with
  | none => exact Reported.none
  | some left => exact inner.operatorsFrom power left s u read

theorem operatorsFrom_succ (power : Nat) (left : Expr) (s u : Reading)
    (read : Reported s (some left) u) :
    Ensures (Grammar.operatorsFrom (bound + 1) power left) u fun x => Reported s (some x) := by
  unfold Grammar.operatorsFrom
  rw [ensures_tokens]
  split
  · exact read
  rename_i operator _
  split
  · exact read
  rename_i goesOn
  -- Nothing is read after a marked operand.
  rw [Bool.or_eq_true, not_or, Bool.not_eq_true] at goesOn
  have told := read.told
  rw [isUnfinished, Option.all_some, goesOn.1] at told
  have skipped : Told false s (u.skip operator.width) := told.append (.of_silent (.skip u _))
  rw [ensures_skip]
  split
  · refine (inner.binary _ _).bind ?_
    intro right v later
    refine (binaryNode_reported operator.name left (skipped.append later.told)).bind ?_
    intro x t applied
    exact inner.operatorsFrom power x s t applied
  · refine (inner.memberList _).bind ?_
    intro right v later
    refine (binaryNode_reported operator.name left (skipped.append later)).bind ?_
    intro x t applied
    exact inner.operatorsFrom power x s t applied
  · refine (nullTest_reported skipped).bind ?_
    intro x t applied
    exact inner.operatorsFrom power x s t applied

theorem unary_succ (s : Reading) : Ensures (Grammar.unary (bound + 1)) s (Reported s) := by
  unfold Grammar.unary
  rw [ensures_tokens]
  split
  · exact expected_reported .expression s
  rename_i token rest front
  split
  · rename_i name power _
    rw [ensures_advance]
    refine (inner.binary power s.advance).bind ?_
    intro operand u read
    exact unaryNode_reported name front read
  · refine (inner.primary s).bind ?_
    intro value? u read
    cases value? with
    | none => exact Reported.none
    | some value =>
        rw [ensures_tokens]
        refine (castsFrom_reported _ read).bind ?_
        intro x t casts
        exact casts

theorem memberList_succ : Tells (Grammar.memberList (bound + 1)) isUnfinished := by
  unfold Grammar.memberList
  refine .after (.accept? _) fun opening? => ?_
  split
  · exact .of_failed (.after fun _ => .pure rfl)
  · refine (inner.listing _ _).bind (fun read _ => .extent fun _ _ => .pure _) ?_
    intro read broken
    exact (yields_extent _ _).bind fun extent told => .pure (told.trans broken)

theorem listing_succ (close : TokenKind) (starred : Bool) :
    TellsParts (Grammar.listing (bound + 1) close starred) := by
  unfold Grammar.listing
  refine .after (.accept close) fun closed => ?_
  split
  · exact .pure Parts.none
  · exact inner.itemsFrom close starred

/-- What is read of a listing behind one of its items. -/
theorem itemsFrom_rest (close : TokenKind) (starred : Bool) {rule : Rule (Option Expr)}
    (told : Tells rule isUnfinished) :
    TellsParts (do
      match ← rule with
      | none => pure .halted
      | some item =>
          if item.incomplete then pure (.one item true)
          else if ← accept .comma then
            pure ((Parts.one item false).append (← Grammar.itemsFrom bound close starred))
          else if ← accept close then pure (.one item false)
          else
            expected (afterItem close)
            pure (.one item true)) := by
  refine told.bind_part ?_ (.pure rfl) ?_
  · intro item complete
    dsimp only
    rw [complete]
    refine Tells.after (.accept .comma) fun comma => ?_
    split
    · exact (inner.itemsFrom close starred).bind (fun others _ => .pure _)
        fun others broken => .pure broken
    · refine .after (.accept close) fun closed => ?_
      split
      · exact .pure _
      · exact .of_failed (.after fun _ => .pure rfl)
  · intro item marked
    dsimp only
    rw [marked]
    exact Yields.pure rfl

theorem itemsFrom_succ (close : TokenKind) (starred : Bool) :
    TellsParts (Grammar.itemsFrom (bound + 1) close starred) := by
  unfold Grammar.itemsFrom
  refine .tokens fun tokens => ?_
  split
  · have row : Tells (do pure (some (← wholeRow))) isUnfinished :=
      fun s => .of_silent (.advance s)
    exact inner.itemsFrom_rest close starred row
  · exact inner.itemsFrom_rest close starred (tells_of_reported (inner.binary Power.or))

theorem listExpr?_reported (token : Token) (s : Reading) :
    Ensures (listExpr? bound token) s (Reported s) := by
  unfold listExpr?
  rw [ensures_advance]
  refine (inner.listing .closeBracket false s.advance).bind ?_
  intro items t later
  exact .of_compound (.behind (.advance s) later) rfl

theorem groupExpr?_reported {s : Reading} {token : Token} {rest : List Token}
    (front : s.rest = token :: rest) (opens : token.kind = .openParen) :
    Ensures (groupExpr? bound) s (Reported s) := by
  unfold groupExpr?
  rw [ensures_advance]
  refine ((inner.binary Power.or s.advance).and
    ((expressionOutcomes bound).binary Power.or s.advance)).bind ?_
  intro inner? u read
  exact closeGroup_reported front opens read.1 read.2

theorem callExpr?_reported (token : Token) (rest : List Token) (s : Reading) :
    Ensures (callExpr? bound token rest) s (Reported s) := by
  unfold callExpr?
  split
  · rw [ensures_skip]
    refine (inner.listing .closeParen true (s.skip 2)).bind ?_
    intro args t later
    exact .of_compound (.behind (.skip s 2) later) rfl
  · exact columnExpr?_reported s

theorem primary_succ (s : Reading) : Ensures (Grammar.primary (bound + 1)) s (Reported s) := by
  rw [primary_eq, ensures_tokens]
  split
  · exact expected_reported .expression s
  rename_i token rest front
  unfold primaryAt
  split
  case h_1 integer => exact integerExpr?_reported front integer
  case h_3 value terminated _ => exact stringExpr?_reported token value terminated s
  case h_8 => exact inner.listExpr?_reported token s
  case h_9 opens => exact inner.groupExpr?_reported front opens
  case h_10 => exact columnExpr?_reported s
  case h_11 => exact inner.callExpr?_reported token rest s
  case h_12 => exact expected_reported .expression s
  all_goals exact literal_reported _ _ s

end ExpressionsTell

theorem expressionsTell (bound : Nat) : ExpressionsTell bound := by
  induction bound with
  | zero =>
      exact {
        binary := fun _ => expected_reported .expression
        operatorsFrom := fun _ _ _ _ read => read
        unary := expected_reported .expression
        memberList := .of_failed (.after fun _ => .pure rfl)
        listing := fun _ _ => tells_halt .expression
        itemsFrom := fun _ _ => tells_halt .expression
        primary := expected_reported .expression }
  | succ bound inner =>
      exact {
        binary := inner.binary_succ
        operatorsFrom := inner.operatorsFrom_succ
        unary := inner.unary_succ
        memberList := inner.memberList_succ
        listing := inner.listing_succ
        itemsFrom := inner.itemsFrom_succ
        primary := inner.primary_succ }

theorem tells_expression : Tells expression isUnfinished :=
  .tokens fun _ => tells_of_reported ((expressionsTell _).binary Power.or)

theorem tells_operand {rule : Rule (Option Expr)} (told : Tells rule isUnfinished) :
    TellsParts (operand rule) :=
  told.bind_part (fun _ _ => .pure _) (.pure rfl) fun expr marked =>
    .pure (by simp [Parts.one, marked])

end Esql.Grammar
