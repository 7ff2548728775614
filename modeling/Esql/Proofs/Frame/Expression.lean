import Esql.Proofs.Frame.Names
import Esql.Proofs.Grammar.Expression

/-!
# Expressions within a larger text

No rule for expressions goes on at a pipe, and none depends on the bound of the recursion as long as
the bound is beyond what the tokens left can use up. Both are shown together: an expression is read
alike within a stage and within a larger text, under any two such bounds.
-/

namespace Esql.Grammar

variable (φ : Frame)

theorem Frame.operator?_token (tokens : List Token) :
    operator? (tokens.map φ.token ++ φ.beyond) = operator? tokens := by
  cases tokens with
  | nil =>
      rcases φ.beyond_cases with none | ⟨pipe, rest, some, found⟩
      · rw [none]
        rfl
      · simp [some, operator?, found, symbolOperator?, TokenKind.operator?]
  | cons token tokens =>
      have next : ((tokens.map φ.token ++ φ.beyond).head?.bind fun next =>
            next.kind.keyword?.bind negatedTest?) =
          tokens.head?.bind fun next => next.kind.keyword?.bind negatedTest? := by
        cases tokens with
        | nil =>
            rcases φ.beyond_cases with none | ⟨pipe, rest, some, found⟩
            · rw [none]
              rfl
            · simp [some, found, TokenKind.keyword?]
        | cons token tokens => rfl
      rw [List.map_cons, List.cons_append, operator?, operator?, φ.token_kind, next]

@[simp]
theorem isUnfinished_relocate (move : Relocation) (operand : Option Expr) :
    isUnfinished (operand.map (Expr.relocate move)) = isUnfinished operand := by
  cases operand with
  | none => rfl
  | some expr => exact expr.relocate_incomplete move

theorem operands_relocate (move : Relocation) (first : List Expr) (last : Option Expr) :
    operands (first.map (Expr.relocate move)) (last.map (Expr.relocate move)) =
      (operands first last).map (Expr.relocate move) := by
  cases last with
  | none => simp [operands]
  | some expr => simp [operands]

theorem binaryNode_mirrors (name : String) (left : Expr) (right : Option Expr) (s : Reading) :
    Mirrors φ (Expr.relocate φ.move)
      (binaryNode name (left.relocate φ.move) (right.map (Expr.relocate φ.move)))
      (binaryNode name left right) s := by
  unfold binaryNode
  rw [isUnfinished_relocate, Expr.relocate_span]
  refine (mirrors_extent _ _ _ _).mpr (.pure ?_)
  rw [Expr.relocate, Expr.relocateAll_eq_map, ← operands_relocate]
  rfl

theorem nullTest_mirrors (operand : Expr) (s : Reading) :
    Mirrors φ (Expr.relocate φ.move) (nullTest (operand.relocate φ.move)) (nullTest operand) s := by
  unfold nullTest
  refine (accept_mirrors φ TokenKind.noConfusion s).seq ?_
  intro negated t
  refine (accept_mirrors φ TokenKind.noConfusion t).seq ?_
  intro complete u
  rw [Expr.relocate_span]
  cases complete with
  | true => exact (mirrors_extent _ _ _ _).mpr (.pure rfl)
  | false => exact (mirrors_expected _ _ _).mpr ((mirrors_extent _ _ _ _).mpr (.pure rfl))

theorem literal_mirrors {s : Reading} {token : Token} {rest : List Token}
    (front : s.rest = token :: rest) (kind : LiteralKind) (value : String) (incomplete : Bool) :
    Mirrors φ (Expr.relocate φ.move) (literal kind value incomplete)
      (literal kind value incomplete) s := by
  unfold literal
  simp only [mirrors_get, φ.nextStart_embed front]
  rw [mirrors_advance front]
  exact (mirrors_extent _ _ _ _).mpr (.pure rfl)

theorem wholeRow_mirrors {s : Reading} {token : Token} {rest : List Token}
    (front : s.rest = token :: rest) :
    Mirrors φ (Expr.relocate φ.move) wholeRow wholeRow s := by
  unfold wholeRow
  simp only [mirrors_get, φ.nextStart_embed front]
  rw [mirrors_advance front]
  exact (mirrors_extent _ _ _ _).mpr (.pure rfl)

theorem interval_mirrors {s : Reading} {number unit : Token} {rest : List Token}
    (front : s.rest = number :: unit :: rest) :
    Mirrors φ (Expr.relocate φ.move) (interval (φ.token number) (φ.token unit))
      (interval number unit) s := by
  unfold interval
  have enough : 2 ≤ s.rest.length := by simp [front]
  rw [mirrors_skip enough]
  exact (mirrors_extent _ _ _ _).mpr (.pure rfl)

theorem Frame.isWholeRow_token (tokens : List Token) :
    isWholeRow (tokens.map φ.token ++ φ.beyond) = isWholeRow tokens := by
  rcases tokens with _ | ⟨star, _ | ⟨close, rest⟩⟩
  · rcases φ.beyond_cases with none | ⟨pipe, rest, some, found⟩
    · rw [none]
      rfl
    · rw [some]
      cases rest <;> simp [isWholeRow, found]
  · rcases φ.beyond_cases with none | ⟨pipe, rest, some, found⟩
    · rw [none]
      rfl
    · simp [some, isWholeRow, found]
  · rfl

theorem signedLiteral?_relocate (sign : Token) (name : String) (operand : Option Expr) :
    signedLiteral? (φ.token sign) name (operand.map (Expr.relocate φ.move)) =
      (signedLiteral? sign name operand).map (Literal.relocate φ.move) := by
  cases operand with
  | none => rfl
  | some expr =>
      cases expr with
      | literal number =>
          have adjacent : ((number.relocate φ.move).span.start == (φ.token sign).span.stop) =
              (number.span.start == sign.span.stop) := by
            rw [Bool.eq_iff_iff, beq_iff_eq, beq_iff_eq]
            exact Nat.add_right_cancel_iff
          have numeric : (number.relocate φ.move).isNumeric = number.isNumeric := rfl
          rw [Option.map_some, Expr.relocate, signedLiteral?, signedLiteral?, adjacent, numeric]
          split <;> rfl
      | _ => rfl

theorem unaryNode_mirrors (sign : Token) (name : String) (operand : Option Expr) (s : Reading) :
    Mirrors φ (Expr.relocate φ.move)
      (unaryNode (φ.token sign) name (operand.map (Expr.relocate φ.move)))
      (unaryNode sign name operand) s := by
  unfold unaryNode
  rw [signedLiteral?_relocate]
  cases signedLiteral? sign name operand with
  | some number => exact (mirrors_get _ _).mpr (.pure rfl)
  | none =>
      dsimp only [Option.map_none]
      rw [isUnfinished_relocate]
      refine (mirrors_extent _ _ _ _).mpr (.pure ?_)
      rw [Expr.relocate, Expr.relocateAll_eq_map]
      cases operand <;> rfl

theorem castType_mirrors (s : Reading) : Mirrors φ id castType castType s := by
  have next : ((s.rest.map φ.token ++ φ.beyond).head?.bind fun token => token.kind.name?) =
      s.rest.head?.bind fun token => token.kind.name? := by
    cases s.rest with
    | nil =>
        rcases φ.beyond_cases with none | ⟨pipe, rest, some, found⟩
        · rw [none]
          rfl
        · simp [some, found, TokenKind.name?]
    | cons token rest => rfl
  unfold castType
  simp only [mirrors_tokens, next]
  split
  · rename_i name found
    obtain ⟨token, first, _⟩ := Option.bind_eq_some_iff.mp found
    obtain ⟨rest, front⟩ := List.head?_eq_some_iff.mp first
    exact (mirrors_advance front _ _).mpr (.pure rfl)
  · exact (mirrors_expected _ _ _).mpr (.pure rfl)

theorem castsFrom_mirrors {n m : Nat} (value : Expr) (s : Reading) (first : s.rest.length < n)
    (second : s.rest.length < m) :
    Mirrors φ (Expr.relocate φ.move) (castsFrom m (value.relocate φ.move)) (castsFrom n value)
      s := by
  induction n generalizing m value s with
  | zero => cases first
  | succ n ih =>
      cases m with
      | zero => cases second
      | succ m =>
          unfold castsFrom
          rw [Expr.relocate_incomplete]
          split
          · exact .pure rfl
          refine mirrors_accept TokenKind.noConfusion ?_ (.pure rfl)
          intro token rest front found
          refine (castType_mirrors φ s.advance).bind (castType_outcome s.advance) ?_
          intro target t passed
          have shorter := passed.1.follows.length_le
          rw [Reading.advance_rest front] at shorter
          rw [front, List.length_cons] at first second
          rw [Expr.relocate_span]
          refine (mirrors_extent _ _ _ _).mpr ?_
          have moved := ih (m := m)
            (.cast value (target.getD "") (t.extent value.span.start target.isNone)) t
            (by omega) (by omega)
          exact moved

theorem operator?_width {tokens : List Token} {operator : Operator}
    (found : operator? tokens = some operator) :
    operator.width ≤ tokens.length ∧ 1 ≤ operator.width := by
  obtain ⟨first, others, rest, rfl, width, _⟩ := operator?_append found
  rw [List.length_cons, List.length_append]
  omega

/-- How an operator is applied to its left operand. -/
def applyOperator (bound : Nat) (operator : Operator) (left : Expr) : Rule Expr :=
  match operator.shape with
  | .binary => do
      let right ← binary bound (operator.power + 1)
      binaryNode operator.name left right
  | .membership => do
      let right ← memberList bound
      binaryNode operator.name left right
  | .nullTest => nullTest left

theorem binaryNode_follows (name : String) (left : Expr) (right : Option Expr) (s : Reading) :
    Ensures (binaryNode name left right) s fun _ t => Follows s t :=
  .refl s

theorem nullTest_follows (left : Expr) (s : Reading) :
    Ensures (nullTest left) s fun _ t => Follows s t := by
  unfold nullTest
  refine (accept_passage (isPlain_keyword .not) s).bind ?_
  intro negated u first
  refine (accept_passage (isPlain_keyword .null) u).bind ?_
  intro complete t second
  have passed := (first.trans second).follows
  cases complete with
  | true => exact passed
  | false => exact passed.trans (Passage.record t _).follows

/-- A bound of the recursion is beyond what a rule can use up: at most eight calls for each token
left, and some more that depend on the rule. -/
def Covers (weight bound : Nat) (s : Reading) : Prop := 8 * s.rest.length + weight ≤ bound

/-- Nothing is read at a pipe. -/
theorem run_primary_pipe (bound : Nat) {s : Reading} {pipe : Token} {rest : List Token}
    (front : s.rest = pipe :: rest) (found : pipe.kind = .pipe) :
    (primary (bound + 1)).run s =
      (do expected .expression; pure none : Rule (Option Expr)).run s := by
  have step {α : Type} (next : List Token → Rule α) :
      (tokens >>= next).run s = (next s.rest).run s := rfl
  unfold primary
  rw [step, front]
  simp only [found]

/-- All rules for expressions under a bound, against the same rules under any bound. -/
structure ExpressionMirrors (n : Nat) : Prop where
  binary : ∀ m power s, Covers 3 n s → Covers 3 m s →
    Mirrors φ (Option.map (Expr.relocate φ.move)) (binary m power) (binary n power) s
  operatorsFrom : ∀ m power left s, Covers 1 n s → Covers 1 m s →
    Mirrors φ (Expr.relocate φ.move) (operatorsFrom m power (left.relocate φ.move))
      (operatorsFrom n power left) s
  unary : ∀ m s, Covers 2 n s → Covers 2 m s →
    Mirrors φ (Option.map (Expr.relocate φ.move)) (unary m) (unary n) s
  memberList : ∀ m s, Covers 1 n s → Covers 1 m s →
    Mirrors φ (Option.map (Expr.relocate φ.move)) (memberList m) (memberList n) s
  listing : ∀ m close starred s, close ≠ .pipe → Covers 5 n s → Covers 5 m s →
    Mirrors φ (Parts.relocate (Expr.relocate φ.move)) (listing m close starred)
      (listing n close starred) s
  itemsFrom : ∀ m close starred s, close ≠ .pipe → Covers 4 n s → Covers 4 m s →
    Mirrors φ (Parts.relocate (Expr.relocate φ.move)) (itemsFrom m close starred)
      (itemsFrom n close starred) s
  primary : ∀ m s, Covers 1 n s → Covers 1 m s →
    Mirrors φ (Option.map (Expr.relocate φ.move)) (primary m) (primary n) s

/-- Looking for something that is not there. -/
theorem expected_mirrors {α β : Type} (f : α → β) (what : Expectation) (s : Reading) :
    Mirrors φ (Option.map f) (do expected what; pure none) (do expected what; pure none) s :=
  (mirrors_expected _ _ _).mpr (.pure rfl)

theorem literalExpr?_mirrors {s : Reading} {token : Token} {rest : List Token}
    (front : s.rest = token :: rest) (kind : LiteralKind) (value : String) (incomplete : Bool) :
    Mirrors φ (Option.map (Expr.relocate φ.move)) (literalExpr? kind value incomplete)
      (literalExpr? kind value incomplete) s :=
  (literal_mirrors φ front kind value incomplete).seq fun _ _ => .pure rfl

/-- A number at the end of the stage has no unit, as a pipe is no word. -/
theorem integerExpr?_mirrors {s : Reading} {token : Token} {rest : List Token}
    (front : s.rest = token :: rest) :
    Mirrors φ (Option.map (Expr.relocate φ.move))
      (integerExpr? (φ.token token) (rest.map φ.token ++ φ.beyond)) (integerExpr? token rest)
      s := by
  have leaf := literalExpr?_mirrors φ front .integer token.text false
  cases rest with
  | nil =>
      rcases φ.beyond_cases with none | ⟨pipe, after, some, found⟩
      · rw [none]
        exact leaf
      · rw [some]
        simp only [List.map_nil, List.nil_append, integerExpr?, found, TokenKind.isWord]
        exact leaf
  | cons unit rest =>
      rw [List.map_cons, List.cons_append]
      unfold integerExpr?
      dsimp only
      rw [φ.token_kind]
      split
      · exact (interval_mirrors φ front).seq fun x t => .pure rfl
      · exact leaf

theorem stringExpr?_mirrors {s : Reading} {token : Token} {rest : List Token}
    (front : s.rest = token :: rest) (value : String) (terminated : Bool) :
    Mirrors φ (Option.map (Expr.relocate φ.move)) (stringExpr? (φ.token token) value terminated)
      (stringExpr? token value terminated) s := by
  unfold stringExpr?
  split
  · refine (mirrors_record rfl _ _).mpr ?_
    have later : (s.record ⟨.unterminatedString, token.span⟩).rest = token :: rest := front
    exact literalExpr?_mirrors φ later .string value _
  · exact literalExpr?_mirrors φ front .string value _

theorem columnExpr?_mirrors (s : Reading) :
    Mirrors φ (Option.map (Expr.relocate φ.move)) columnExpr? columnExpr? s := by
  refine (column?_mirrors φ false s).seq ?_
  intro x t
  cases x <;> exact .pure rfl

theorem closeGroup_mirrors (x : Option Expr) (u : Reading) :
    Mirrors φ (Option.map (Expr.relocate φ.move)) (closeGroup (x.map (Expr.relocate φ.move)))
      (closeGroup x) u := by
  cases x with
  | none => exact .pure rfl
  | some expr =>
      unfold closeGroup
      dsimp only [Option.map_some]
      rw [Expr.relocate_incomplete]
      split
      · exact .pure rfl
      refine mirrors_accept TokenKind.noConfusion ?_ ?_
      · intro token rest front found
        exact .pure rfl
      · refine (mirrors_expected _ _ _).mpr (.pure ?_)
        rw [Expr.relocate_markIncomplete]
        rfl

theorem Covers.exists_succ {weight bound : Nat} {s : Reading}
    (covers : Covers (weight + 1) bound s) : ∃ smaller, bound = smaller + 1 := by
  unfold Covers at covers
  exact ⟨bound - 1, by omega⟩

theorem Covers.pred {weight bound : Nat} {s : Reading}
    (covers : Covers (weight + 1) (bound + 1) s) : Covers weight bound s :=
  Nat.le_of_succ_le_succ covers

/-- After at least one token fewer calls are needed. -/
theorem Covers.less {weight more bound : Nat} {s t : Reading} (covers : Covers weight bound s)
    (shorter : t.rest.length + 1 ≤ s.rest.length) (bounded : more ≤ weight + 8) :
    Covers more bound t := by
  unfold Covers at covers ⊢
  omega

theorem Covers.mono {weight more bound : Nat} {s t : Reading} (covers : Covers weight bound s)
    (shorter : t.rest.length ≤ s.rest.length) (bounded : more ≤ weight) : Covers more bound t := by
  unfold Covers at covers ⊢
  omega

namespace ExpressionMirrors

variable {φ : Frame} {n : Nat} (inner : ExpressionMirrors φ n)

include inner

theorem binary_succ (m power : Nat) (s : Reading) (small : Covers 3 (n + 1) s)
    (large : Covers 3 m s) :
    Mirrors φ (Option.map (Expr.relocate φ.move)) (Grammar.binary m power)
      (Grammar.binary (n + 1) power) s := by
  obtain ⟨m, rfl⟩ := large.exists_succ
  unfold Grammar.binary
  refine (inner.unary m s small.pred large.pred).bind ((expressionOutcomes n).unary s) ?_
  intro x t read
  have shorter := read.passage.follows.length_le
  cases x with
  | none => exact .pure rfl
  | some left =>
      refine (inner.operatorsFrom m power left t (small.pred.mono shorter (by decide))
        (large.pred.mono shorter (by decide))).seq ?_
      intro x u
      exact .pure rfl

theorem operatorsFrom_succ (m power : Nat) (left : Expr) (s : Reading) (small : Covers 1 (n + 1) s)
    (large : Covers 1 m s) :
    Mirrors φ (Expr.relocate φ.move) (Grammar.operatorsFrom m power (left.relocate φ.move))
      (Grammar.operatorsFrom (n + 1) power left) s := by
  obtain ⟨m, rfl⟩ := large.exists_succ
  unfold Grammar.operatorsFrom
  simp only [mirrors_tokens, φ.operator?_token, Expr.relocate_incomplete]
  split
  · exact .pure rfl
  rename_i operator found
  split
  · exact .pure rfl
  obtain ⟨enough, width⟩ := operator?_width found
  have skipped : (s.skip operator.width).rest.length + 1 ≤ s.rest.length := by
    rw [Reading.rest_skip, List.length_drop]
    omega
  have onward (applied : Expr) (t : Reading)
      (shorter : t.rest.length ≤ (s.skip operator.width).rest.length) :
      Mirrors φ (Expr.relocate φ.move) (Grammar.operatorsFrom m power (applied.relocate φ.move))
        (Grammar.operatorsFrom n power applied) t := by
    have less := Nat.le_trans (Nat.succ_le_succ shorter) skipped
    exact inner.operatorsFrom m power applied t (small.pred.less less (by decide))
      (large.pred.less less (by decide))
  rw [mirrors_skip enough]
  split
  · refine Mirrors.bind (inner.binary m _ _ (small.pred.less skipped (by decide))
      (large.pred.less skipped (by decide))) ((expressionOutcomes n).binary _ _) ?_
    intro right u read
    refine (binaryNode_mirrors φ operator.name left right u).bind
      (binaryNode_follows operator.name left right u) ?_
    intro applied t same
    exact onward applied t (Nat.le_trans same.length_le read.passage.follows.length_le)
  · refine Mirrors.bind (inner.memberList m _ (small.pred.less skipped (by decide))
      (large.pred.less skipped (by decide))) ((expressionOutcomes n).memberList _) ?_
    intro right u read
    refine (binaryNode_mirrors φ operator.name left right u).bind
      (binaryNode_follows operator.name left right u) ?_
    intro applied t same
    exact onward applied t (Nat.le_trans same.length_le read.passage.follows.length_le)
  · refine (nullTest_mirrors φ left _).bind (nullTest_follows left _) ?_
    intro applied t passed
    exact onward applied t passed.length_le

theorem unary_succ (m : Nat) (s : Reading) (small : Covers 2 (n + 1) s) (large : Covers 2 m s) :
    Mirrors φ (Option.map (Expr.relocate φ.move)) (Grammar.unary m) (Grammar.unary (n + 1)) s := by
  obtain ⟨m, rfl⟩ := large.exists_succ
  unfold Grammar.unary
  simp only [mirrors_tokens]
  cases front : s.rest with
  | nil =>
      rcases φ.beyond_cases with none | ⟨pipe, rest, some, found⟩
      · rw [none]
        exact expected_mirrors φ _ .expression s
      · obtain ⟨k, rfl⟩ := large.pred.exists_succ
        have stops : (φ.embed s).rest = pipe :: rest := by
          simp only [Frame.embed, front, some]
          rfl
        simp only [some, List.map_nil, List.nil_append, found, unaryOperator?]
        unfold Mirrors
        rw [StateT.run_bind, run_primary_pipe k stops found]
        exact expected_mirrors φ (Expr.relocate φ.move) .expression s
  | cons token rest =>
      rw [List.map_cons, List.cons_append]
      dsimp only
      rw [φ.token_kind]
      split
      · rename_i name power sign
        have less : s.advance.rest.length + 1 ≤ s.rest.length := by
          simp [Reading.advance_rest front, front]
        rw [mirrors_advance front]
        refine (inner.binary m power s.advance (small.pred.less less (by decide))
          (large.pred.less less (by decide))).seq ?_
        intro operand u
        refine (unaryNode_mirrors φ token name operand u).seq ?_
        intro x t
        exact .pure rfl
      · refine (inner.primary m s small.pred large.pred).seq ?_
        intro x u
        cases x with
        | none => exact .pure rfl
        | some value =>
            simp only [mirrors_tokens, Option.map_some]
            have longer : u.rest.length < (u.rest.map φ.token ++ φ.beyond).length + 1 := by
              rw [List.length_append, List.length_map]
              omega
            refine (castsFrom_mirrors φ value u (Nat.lt_succ_self _) longer).seq ?_
            intro x t
            exact .pure rfl

theorem memberList_succ (m : Nat) (s : Reading) (small : Covers 1 (n + 1) s)
    (large : Covers 1 m s) :
    Mirrors φ (Option.map (Expr.relocate φ.move)) (Grammar.memberList m)
      (Grammar.memberList (n + 1)) s := by
  obtain ⟨m, rfl⟩ := large.exists_succ
  unfold Grammar.memberList
  refine mirrors_accept? TokenKind.noConfusion ?_ (expected_mirrors φ _ .openParen s)
  intro opening rest front found
  have less : s.advance.rest.length + 1 ≤ s.rest.length := by
    simp [Reading.advance_rest front, front]
  refine (inner.listing m .closeParen false s.advance TokenKind.noConfusion
    (small.pred.less less (by decide)) (large.pred.less less (by decide))).seq ?_
  intro items t
  refine (mirrors_extent _ _ _ _).mpr (.pure ?_)
  rw [Option.map_some, Expr.relocate, Expr.relocateAll_eq_map]
  rfl

theorem listing_succ (m : Nat) (close : TokenKind) (starred : Bool) (s : Reading)
    (noPipe : close ≠ .pipe) (small : Covers 5 (n + 1) s) (large : Covers 5 m s) :
    Mirrors φ (Parts.relocate (Expr.relocate φ.move)) (Grammar.listing m close starred)
      (Grammar.listing (n + 1) close starred) s := by
  obtain ⟨m, rfl⟩ := large.exists_succ
  unfold Grammar.listing
  refine mirrors_accept noPipe ?_ (inner.itemsFrom m close starred s noPipe small.pred large.pred)
  intro token rest front found
  exact .pure rfl

/-- What is read of a listing behind one of its items. -/
theorem itemsFrom_rest (m : Nat) (close : TokenKind) (starred : Bool) (item : Option Expr)
    (s u : Reading) (noPipe : close ≠ .pipe) (shorter : u.rest.length ≤ s.rest.length)
    (small : Covers 3 n s) (large : Covers 3 m s) :
    Mirrors φ (Parts.relocate (Expr.relocate φ.move))
      (do
        match item.map (Expr.relocate φ.move) with
        | none => pure .halted
        | some item =>
            if item.incomplete then pure (.one item true)
            else if ← accept .comma then
              pure ((Parts.one item false).append (← Grammar.itemsFrom m close starred))
            else if ← accept close then pure (.one item false)
            else
              expected (afterItem close)
              pure (.one item true))
      (do
        match item with
        | none => pure .halted
        | some item =>
            if item.incomplete then pure (.one item true)
            else if ← accept .comma then
              pure ((Parts.one item false).append (← Grammar.itemsFrom n close starred))
            else if ← accept close then pure (.one item false)
            else
              expected (afterItem close)
              pure (.one item true)) u := by
  cases item with
  | none => exact .pure rfl
  | some item =>
      dsimp only [Option.map_some]
      rw [Expr.relocate_incomplete]
      split
      · exact .pure rfl
      refine mirrors_accept TokenKind.noConfusion ?_ (mirrors_accept noPipe ?_ ?_)
      · intro token rest front comma
        have less : u.advance.rest.length + 1 ≤ s.rest.length := by
          rw [front] at shorter
          rwa [Reading.advance_rest front]
        refine (inner.itemsFrom m close starred u.advance noPipe (small.less less (by decide))
          (large.less less (by decide))).seq ?_
        intro others t
        exact .pure rfl
      · intro token rest front found
        exact .pure rfl
      · exact (mirrors_expected _ _ _).mpr (.pure rfl)

theorem itemsFrom_succ (m : Nat) (close : TokenKind) (starred : Bool) (s : Reading)
    (noPipe : close ≠ .pipe) (small : Covers 4 (n + 1) s) (large : Covers 4 m s) :
    Mirrors φ (Parts.relocate (Expr.relocate φ.move)) (Grammar.itemsFrom m close starred)
      (Grammar.itemsFrom (n + 1) close starred) s := by
  obtain ⟨m, rfl⟩ := large.exists_succ
  unfold Grammar.itemsFrom
  simp only [mirrors_tokens, φ.isWholeRow_token]
  split
  · rename_i star
    have found := (Bool.and_eq_true_iff.mp star).2
    cases front : s.rest with
    | nil =>
        rw [front] at found
        cases found
    | cons token rest =>
        refine (wholeRow_mirrors φ front).bind (wholeRow_outcome found) ?_
        intro x u read
        exact inner.itemsFrom_rest m close starred (some x) s u noPipe
          read.passage.follows.length_le small.pred large.pred
  · refine (inner.binary m Power.or s small.pred large.pred).bind
      ((expressionOutcomes n).binary Power.or s) ?_
    intro item u read
    exact inner.itemsFrom_rest m close starred item s u noPipe read.passage.follows.length_le
      small.pred large.pred

theorem listExpr?_mirrors (m : Nat) {s : Reading} {token : Token} {rest : List Token}
    (front : s.rest = token :: rest) (small : Covers 1 (n + 1) s) (large : Covers 1 (m + 1) s) :
    Mirrors φ (Option.map (Expr.relocate φ.move)) (listExpr? m (φ.token token))
      (listExpr? n token) s := by
  have less : s.advance.rest.length + 1 ≤ s.rest.length := by
    simp [Reading.advance_rest front, front]
  unfold listExpr?
  rw [mirrors_advance front]
  refine (inner.listing m .closeBracket false s.advance TokenKind.noConfusion
    (small.pred.less less (by decide)) (large.pred.less less (by decide))).seq ?_
  intro items t
  refine (mirrors_extent _ _ _ _).mpr (.pure ?_)
  rw [Option.map_some, Expr.relocate, Expr.relocateAll_eq_map]
  rfl

theorem groupExpr?_mirrors (m : Nat) {s : Reading} {token : Token} {rest : List Token}
    (front : s.rest = token :: rest) (small : Covers 1 (n + 1) s) (large : Covers 1 (m + 1) s) :
    Mirrors φ (Option.map (Expr.relocate φ.move)) (groupExpr? m) (groupExpr? n) s := by
  have less : s.advance.rest.length + 1 ≤ s.rest.length := by
    simp [Reading.advance_rest front, front]
  unfold groupExpr?
  rw [mirrors_advance front]
  refine (inner.binary m Power.or s.advance (small.pred.less less (by decide))
    (large.pred.less less (by decide))).seq ?_
  intro x u
  exact closeGroup_mirrors φ x u

theorem callExpr?_mirrors (m : Nat) {s : Reading} {token : Token} {rest : List Token}
    (front : s.rest = token :: rest) (small : Covers 1 (n + 1) s) (large : Covers 1 (m + 1) s) :
    Mirrors φ (Option.map (Expr.relocate φ.move))
      (callExpr? m (φ.token token) (rest.map φ.token ++ φ.beyond)) (callExpr? n token rest) s := by
  unfold callExpr?
  rw [φ.head?_token (· == .openParen) rfl]
  split
  · rename_i call
    obtain ⟨opening, others, rfl, _⟩ := exists_cons_of_head? call
    have enough : 2 ≤ s.rest.length := by simp [front]
    have fewer : (s.skip 2).rest.length + 1 ≤ s.rest.length := by
      rw [Reading.rest_skip, List.length_drop]
      omega
    rw [mirrors_skip enough]
    refine (inner.listing m .closeParen true (s.skip 2) TokenKind.noConfusion
      (small.pred.less fewer (by decide)) (large.pred.less fewer (by decide))).seq ?_
    intro args t
    refine (mirrors_extent _ _ _ _).mpr (.pure ?_)
    rw [Option.map_some, Expr.relocate, Expr.relocateAll_eq_map]
    rfl
  · exact columnExpr?_mirrors φ s

theorem primary_succ (m : Nat) (s : Reading) (small : Covers 1 (n + 1) s) (large : Covers 1 m s) :
    Mirrors φ (Option.map (Expr.relocate φ.move)) (Grammar.primary m) (Grammar.primary (n + 1))
      s := by
  obtain ⟨m, rfl⟩ := large.exists_succ
  rw [primary_eq, primary_eq]
  simp only [mirrors_tokens]
  cases front : s.rest with
  | nil =>
      rcases φ.beyond_cases with none | ⟨pipe, rest, some, found⟩
      · rw [none]
        exact expected_mirrors φ _ .expression s
      · simp only [some, List.map_nil, List.nil_append, primaryAt, found]
        exact expected_mirrors φ _ .expression s
  | cons token rest =>
      rw [List.map_cons, List.cons_append]
      dsimp only
      unfold primaryAt
      rw [φ.token_kind]
      split
      case h_1 kind => exact integerExpr?_mirrors φ front
      case h_2 kind => exact literalExpr?_mirrors φ front _ _ _
      case h_3 value terminated kind => exact stringExpr?_mirrors φ front value terminated
      case h_4 kind => exact literalExpr?_mirrors φ front _ _ _
      case h_5 kind => exact literalExpr?_mirrors φ front _ _ _
      case h_6 kind => exact literalExpr?_mirrors φ front _ _ _
      case h_7 name kind => exact literalExpr?_mirrors φ front _ _ _
      case h_8 kind => exact inner.listExpr?_mirrors m front small large
      case h_9 kind => exact inner.groupExpr?_mirrors m front small large
      case h_10 value terminated kind => exact columnExpr?_mirrors φ s
      case h_11 value kind => exact inner.callExpr?_mirrors m front small large
      case h_12 => exact expected_mirrors φ _ .expression s

end ExpressionMirrors

theorem expressionMirrors (n : Nat) : ExpressionMirrors φ n := by
  have never {weight : Nat} {s : Reading} (covers : Covers (weight + 1) 0 s) : False := by
    unfold Covers at covers
    omega
  induction n with
  | zero =>
      exact {
        binary := fun _ _ _ small _ => (never small).elim
        operatorsFrom := fun _ _ _ _ small _ => (never small).elim
        unary := fun _ _ small _ => (never small).elim
        memberList := fun _ _ small _ => (never small).elim
        listing := fun _ _ _ _ _ small _ => (never small).elim
        itemsFrom := fun _ _ _ _ _ small _ => (never small).elim
        primary := fun _ _ small _ => (never small).elim }
  | succ n inner =>
      exact {
        binary := inner.binary_succ
        operatorsFrom := inner.operatorsFrom_succ
        unary := inner.unary_succ
        memberList := inner.memberList_succ
        listing := inner.listing_succ
        itemsFrom := inner.itemsFrom_succ
        primary := inner.primary_succ }

/-- An expression is read within a stage as it is within a larger text. -/
theorem expression_mirrors (s : Reading) :
    Mirrors φ (Option.map (Expr.relocate φ.move)) expression expression s := by
  unfold expression
  simp only [mirrors_tokens]
  refine (expressionMirrors φ _).binary _ Power.or s ?_ ?_
  · unfold Covers expressionBound
    omega
  · unfold Covers expressionBound
    rw [List.length_append, List.length_map]
    omega

theorem operand_mirrors {rule : Rule (Option Expr)} {s : Reading}
    (same : Mirrors φ (Option.map (Expr.relocate φ.move)) rule rule s) :
    Mirrors φ (Parts.relocate (Expr.relocate φ.move)) (operand rule) (operand rule) s := by
  unfold operand
  refine same.seq ?_
  intro x t
  cases x with
  | none => exact .pure rfl
  | some expr =>
      refine .pure ?_
      rw [Expr.relocate_incomplete]
      rfl

end Esql.Grammar
