import Esql.Grammar.Expression
import Esql.Proofs.Grammar.Names

/-!
# Outcomes of expressions

Every rule for expressions returns well-nested expressions over the tokens that it reads, whatever
it finds. The rules call each other, so their outcomes are shown together, by induction on the
bound of the recursion.
-/

namespace Esql.Grammar

/-- An operator between two operands stands where the operands stand. -/
theorem binaryNode_outcome {s u : Reading} {left : Expr} {right : Option Expr} (name : String)
    (parts : ExprOutcome 0 (isUnfinished right) s (left :: right.toList) u) :
    Ensures (binaryNode name left right) u fun x t => ExprOutcome 0 x.incomplete s [x] t := by
  unfold binaryNode
  simp only [ensures_extent, ensures_pure]
  exact .led parts rfl rfl

theorem symbolOperator?_plain {kind : TokenKind} {operator : Operator}
    (found : symbolOperator? kind = some operator) : IsPlain kind ∧ operator.width = 1 := by
  unfold symbolOperator? at found
  cases kind with
  | pipe | openParen | closeParen => cases found
  | _ =>
      refine ⟨⟨TokenKind.noConfusion, rfl⟩, ?_⟩
      cases found
      try rfl

/-- The reserved words that are operators between two operands, or part of one. -/
def operatorWords : List Keyword := [.or, .and, .is, .in, .like, .rlike, .not]

/-- A kind of token that an operator between two operands is made of. -/
def IsSymbol (kind : TokenKind) : Prop :=
  (∃ operator, symbolOperator? kind = some operator) ∨ ∃ word ∈ operatorWords, kind = .keyword word

theorem IsSymbol.isPlain {kind : TokenKind} (symbol : IsSymbol kind) : IsPlain kind := by
  rcases symbol with ⟨operator, found⟩ | ⟨word, -, rfl⟩
  · exact (symbolOperator?_plain found).1
  · exact isPlain_keyword word

/-- The tokens of an operator are at the front. -/
theorem operator?_append {tokens : List Token} {operator : Operator}
    (found : operator? tokens = some operator) :
    ∃ first others rest, tokens = first :: (others ++ rest) ∧
      operator.width = others.length + 1 ∧ ∀ token ∈ first :: others, IsSymbol token.kind := by
  unfold operator? at found
  split at found
  · cases found
  rename_i token rest
  have single (symbol : IsSymbol token.kind) (width : operator.width = 1) :
      ∃ first others after, token :: rest = first :: (others ++ after) ∧
        operator.width = others.length + 1 ∧ ∀ other ∈ first :: others, IsSymbol other.kind :=
    ⟨token, [], rest, rfl, width, List.forall_mem_singleton.mpr symbol⟩
  split at found
  case h_7 kind =>
    cases rest with
    | nil => cases found
    | cons next rest =>
        obtain ⟨other, first, bound⟩ := Option.bind_eq_some_iff.mp found
        obtain rfl : next = other := Option.some.inj first
        obtain ⟨reserved, keyword, negated⟩ := Option.bind_eq_some_iff.mp bound
        have word : operator.width = 2 ∧ reserved ∈ operatorWords := by
          unfold negatedTest? at negated
          split at negated <;> cases negated <;> exact ⟨rfl, by decide⟩
        have same : next.kind = .keyword reserved := by
          cases kind : next.kind <;> rw [kind] at keyword <;> cases keyword
          rfl
        refine ⟨token, [next], rest, rfl, word.1, List.forall_mem_cons.mpr ⟨?_, ?_⟩⟩
        · exact .inr ⟨.not, by decide, kind⟩
        · exact List.forall_mem_singleton.mpr (.inr ⟨reserved, word.2, same⟩)
  case h_8 => exact single (.inl ⟨operator, found⟩) (symbolOperator?_plain found).2
  all_goals
    rename_i kind
    cases found
    exact single (.inr ⟨_, by decide, kind⟩) rfl

theorem passage_operator {s : Reading} {operator : Operator}
    (found : operator? s.rest = some operator) : Passage 0 s (s.skip operator.width) := by
  obtain ⟨first, others, rest, front, width, symbols⟩ := operator?_append found
  rw [width]
  exact .skip front fun token member => (symbols token member).isPlain

theorem nullTest_outcome {s u : Reading} {left : Expr}
    (parts : ExprOutcome 0 false s [left] u) :
    Ensures (nullTest left) u fun x t => ExprOutcome 0 x.incomplete s [x] t := by
  unfold nullTest
  refine (accept_passage (isPlain_keyword .not) u).bind ?_
  intro negated v first
  refine (accept_passage (isPlain_keyword .null) v).bind ?_
  intro complete t second
  have passed : ExprOutcome 0 false s [left] t := parts.before (first.trans second) Bool.noConfusion
  cases complete with
  | true => exact .led passed rfl rfl
  | false =>
      have recorded : ExprOutcome 0 true s [left] (t.record (t.missing .null)) :=
        passed.before (.record t _) fun _ => .inr (by simp)
      exact .led recorded rfl rfl

/-- A literal over the next token; why it is incomplete has been recorded before. -/
theorem literal_outcome {s u : Reading} {token : Token} {rest : List Token} {incomplete : Bool}
    (front : u.rest = token :: rest) (plain : IsPlain token.kind) (passage : Passage 0 s u)
    (faulty : incomplete = true → s.errors.length < u.errors.length) (kind : LiteralKind)
    (value : String) :
    Ensures (literal kind value incomplete) u fun x t => ExprOutcome 0 x.incomplete s [x] t := by
  unfold literal
  simp only [ensures_get, ensures_advance, ensures_extent, ensures_pure, Reading.nextStart, front]
  have only : ∀ other ∈ [token], IsPlain other.kind := by simpa using plain
  have read : ExprOutcome 0 false u [.literal ⟨u.advance.extent token.span.start incomplete, kind,
      value⟩] u.advance := .run front only (.refl _) Bool.noConfusion rfl rfl
  obtain ⟨passed, _, placed⟩ := Outcome.after passage read
  refine ⟨passed, ?_, placed⟩
  intro fails
  rw [Reading.errors_advance]
  exact faulty fails

theorem wholeRow_outcome {s : Reading} (found : isWholeRow s.rest = true) :
    Ensures wholeRow s fun x t => ExprOutcome 0 x.incomplete s [x] t := by
  unfold isWholeRow at found
  split at found
  · rename_i star close rest front
    rw [Bool.and_eq_true, beq_iff_eq] at found
    unfold wholeRow
    simp only [ensures_get, ensures_advance, ensures_extent, ensures_pure, Reading.nextStart, front]
    have plain : IsPlain star.kind := by
      rw [found.1]
      exact ⟨TokenKind.noConfusion, rfl⟩
    have only : ∀ other ∈ [star], IsPlain other.kind := by simpa using plain
    exact .run front only (.refl _) Bool.noConfusion rfl rfl
  · cases found

theorem interval_outcome {s : Reading} {number unit : Token} {rest : List Token}
    (front : s.rest = number :: unit :: rest) (first : IsPlain number.kind)
    (second : IsPlain unit.kind) :
    Ensures (interval number unit) s fun x t => ExprOutcome 0 x.incomplete s [x] t := by
  unfold interval
  simp only [ensures_skip, ensures_extent, ensures_pure]
  have both : ∀ token ∈ [number, unit], IsPlain token.kind := by simp [first, second]
  exact .run front both (.refl _) Bool.noConfusion rfl rfl

theorem castType_outcome (s : Reading) :
    Ensures castType s fun x t =>
      Passage 0 s t ∧ (x = none → s.errors.length < t.errors.length) := by
  unfold castType
  simp only [ensures_tokens]
  split
  · rename_i name found
    obtain ⟨token, first, named⟩ := Option.bind_eq_some_iff.mp found
    obtain ⟨rest, front⟩ := List.head?_eq_some_iff.mp first
    have name : token.kind.isName = true := by simp [TokenKind.isName, named]
    have plain := isPlain_of_isName name
    refine ⟨(Passage.advance front rfl plain.1).weaken (Int.le_of_eq plain.2), ?_⟩
    rintro ⟨⟩
  · simp only [ensures_expected, ensures_pure]
    refine ⟨.record s _, ?_⟩
    intro _
    simp

theorem castsFrom_outcome {s u : Reading} {value : Expr} (bound : Nat)
    (parts : ExprOutcome 0 value.incomplete s [value] u) :
    Ensures (castsFrom bound value) u fun x t => ExprOutcome 0 x.incomplete s [x] t := by
  induction bound generalizing value u with
  | zero => exact parts
  | succ bound ih =>
      unfold castsFrom
      split
      · exact parts
      rename_i complete
      refine ensures_accept ?_ parts
      intro token rest front found
      refine (castType_outcome u.advance).bind ?_
      intro target t cast
      simp only [ensures_extent]
      refine ih ?_
      have passage := (Passage.advance front found TokenKind.noConfusion).trans cast.1
      have passed : ExprOutcome 0 target.isNone s [value] t := by
        refine parts.before passage ?_
        intro missing
        rw [Reading.errors_advance] at cast
        exact .inr (cast.2 (Option.isNone_iff_eq_none.mp missing))
      exact .led passed rfl rfl

theorem signedLiteral?_eq_some {sign : Token} {name : String} {operand : Option Expr}
    {number : Literal} (signed : signedLiteral? sign name operand = some number) :
    operand = some (.literal number) := by
  unfold signedLiteral? at signed
  split at signed
  · split at signed
    · rw [Option.some.inj signed]
    · cases signed
  · cases signed

/-- A sign before its operand; a number takes the sign into its own span. -/
theorem unaryNode_outcome {s u : Reading} {sign : Token} {rest : List Token}
    {operand : Option Expr} (name : String) (front : s.rest = sign :: rest)
    (plain : IsPlain sign.kind)
    (later : ExprOutcome 0 (isUnfinished operand) s.advance operand.toList u) :
    Ensures (unaryNode sign name operand) u fun x t => ExprOutcome 0 x.incomplete s [x] t := by
  have step := Passage.advance front rfl plain.1
  unfold unaryNode
  split
  · rename_i number signed
    rw [signedLiteral?_eq_some signed] at later
    simp only [ensures_get, ensures_pure]
    refine ⟨(step.trans later.passage).weaken (by rw [plain.2]; decide), Bool.noConfusion, ?_⟩
    intro ready
    obtain ⟨sound, starts⟩ := ready.head front
    have placed := later.placed (step.follows.ready ready)
    rw [step.follows.source] at placed
    have fits : number.span.Fits s.source := placed.head.fits
    have after : sign.span.stop ≤ number.span.start := by
      rw [← Reading.lastStop_advance front]
      exact placed.bounds.1
    have ordered : sign.span.start ≤ number.span.stop :=
      Nat.le_trans sound.fits.ordered (Nat.le_trans after fits.ordered)
    refine .single (.intro ⟨ordered, sound.fits.starts, fits.stops⟩ ?_ (.nil ordered)
      (List.forall_mem_nil _))
      starts ordered placed.bounds.2.2
    rw [later.passage.follows.source, step.follows.source]
    rfl
  · simp only [ensures_extent, ensures_pure]
    refine Outcome.weaken (ExprOutcome.headed front plain.1 later rfl rfl) ?_ id
    rw [plain.2]
    decide

theorem unaryOperator?_plain {kind : TokenKind} {operator : String × Nat}
    (found : unaryOperator? kind = some operator) : IsPlain kind := by
  unfold unaryOperator? at found
  split at found
  · exact isPlain_keyword .not
  · exact ⟨TokenKind.noConfusion, rfl⟩
  · exact ⟨TokenKind.noConfusion, rfl⟩
  · cases found

/-- A literal as an expression. -/
def literalExpr? (kind : LiteralKind) (value : String) (incomplete : Bool) :
    Rule (Option Expr) := do
  pure (some (← literal kind value incomplete))

/-- A whole number, or an interval if a word follows. -/
def integerExpr? (token : Token) : List Token → Rule (Option Expr)
  | unit :: _ =>
      if unit.kind.isWord then do pure (some (← interval token unit))
      else literalExpr? .integer token.text false
  | [] => literalExpr? .integer token.text false

/-- A string, which may lack its end. -/
def stringExpr? (token : Token) (value : String) (terminated : Bool) : Rule (Option Expr) := do
  if !terminated then record .unterminatedString token.span
  literalExpr? .string value (!terminated)

/-- A list in brackets. -/
def listExpr? (bound : Nat) (token : Token) : Rule (Option Expr) := do
  advance
  let items ← listing bound .closeBracket false
  pure (some (.list items.items (← extent token.span.start (!items.complete))))

/-- What comes behind an expression in parentheses. -/
def closeGroup : Option Expr → Rule (Option Expr)
  | none => pure none
  | some inner => do
      if inner.incomplete then pure (some inner)
      else if ← accept .closeParen then pure (some inner)
      else
        expected .closeParen
        pure (some inner.markIncomplete)

/-- An expression in parentheses. -/
def groupExpr? (bound : Nat) : Rule (Option Expr) := do
  advance
  closeGroup (← binary bound Power.or)

/-- A column as an expression. -/
def columnExpr? : Rule (Option Expr) := do
  match ← column? false with
  | some column => pure (some (.column column))
  | none => pure none

/-- A call, or a column if no parenthesis follows. -/
def callExpr? (bound : Nat) (token : Token) (rest : List Token) : Rule (Option Expr) := do
  if rest.head?.any fun next => next.kind == .openParen then
    skip 2
    let args ← listing bound .closeParen true
    pure (some (.apply token.lower .call args.items
      (← extent token.span.start (!args.complete))))
  else columnExpr?

/-- An expression without operators from its first token on. -/
def primaryAt (bound : Nat) (token : Token) (rest : List Token) : Rule (Option Expr) :=
  match token.kind with
  | .integer => integerExpr? token rest
  | .decimal => literalExpr? .decimal token.text false
  | .string value terminated => stringExpr? token value terminated
  | .keyword .true | .keyword .false => literalExpr? .boolean token.lower false
  | .keyword .null => literalExpr? .null token.lower false
  | .param name => literalExpr? .param name false
  | .openBracket => listExpr? bound token
  | .openParen => groupExpr? bound
  | .quoted .. => columnExpr?
  | .word _ => callExpr? bound token rest
  | _ => do
      expected .expression
      pure none

theorem primary_eq (bound : Nat) :
    primary (bound + 1) = (do
      match ← tokens with
      | [] =>
          expected .expression
          pure none
      | token :: rest => primaryAt bound token rest) := by
  unfold primary
  refine congrArg _ (funext fun front => ?_)
  cases front with
  | nil => rfl
  | cons token rest =>
      unfold primaryAt
      cases token.kind with
      | keyword word => cases word <;> rfl
      | integer => cases rest <;> rfl
      | _ => rfl

theorem literalExpr?_outcome {s : Reading} {token : Token} {rest : List Token}
    (front : s.rest = token :: rest) (plain : IsPlain token.kind) (kind : LiteralKind)
    (value : String) :
    Ensures (literalExpr? kind value false) s fun x t =>
      ExprOutcome 0 (isUnfinished x) s x.toList t := by
  refine (literal_outcome front plain (.refl s) ?_ kind value).bind ?_
  · exact Bool.noConfusion
  · intro x t read
    exact read

theorem integerExpr?_outcome {s : Reading} {token : Token} {rest : List Token}
    (front : s.rest = token :: rest) (plain : IsPlain token.kind) :
    Ensures (integerExpr? token rest) s fun x t =>
      ExprOutcome 0 (isUnfinished x) s x.toList t := by
  unfold integerExpr?
  split
  · rename_i unit rest
    split
    · rename_i word
      have second : IsPlain unit.kind := isPlain_of_isName (isName_of_isWord word)
      refine (interval_outcome front plain second).bind ?_
      intro x t read
      exact read
    · exact literalExpr?_outcome front plain _ _
  · exact literalExpr?_outcome front plain _ _

theorem stringExpr?_outcome {s : Reading} {token : Token} {rest : List Token}
    (front : s.rest = token :: rest) (plain : IsPlain token.kind) (value : String)
    (terminated : Bool) :
    Ensures (stringExpr? token value terminated) s fun x t =>
      ExprOutcome 0 (isUnfinished x) s x.toList t := by
  unfold stringExpr? literalExpr?
  split
  · simp only [ensures_record]
    refine (literal_outcome (u := s.record _) front plain (.record s _) ?_ _ _).bind ?_
    · intro _
      simp
    · intro x t read
      exact read
  · rename_i closed
    refine (literal_outcome front plain (.refl s) ?_ _ _).bind ?_
    · intro unclosed
      exact absurd unclosed closed
    · intro x t read
      exact read

theorem columnExpr?_outcome {s : Reading} {token : Token} {rest : List Token}
    (front : s.rest = token :: rest) (name : token.kind.isName = true) :
    Ensures columnExpr? s fun x t => ExprOutcome 0 (isUnfinished x) s x.toList t := by
  have starts : startsColumn false token.kind = true := by simp [startsColumn, name]
  refine Ensures.bind ((column?_outcome false s).and (column?_isSome front starts)) ?_
  intro x t read
  cases x with
  | none => cases read.2
  | some column => exact read.1

/-- What is read behind an opening parenthesis and the expression in it. -/
theorem closeGroup_outcome (s u : Reading) (x : Option Expr) (opened : Passage (-1) s s.advance)
    (read : ExprOutcome 0 (isUnfinished x) s.advance x.toList u) :
    Ensures (closeGroup x) u fun x t => ExprOutcome 0 (isUnfinished x) s x.toList t := by
  have passed := Outcome.after opened read
  cases x with
  | none => exact passed.weaken (by decide) id
  | some expr =>
      unfold closeGroup
      dsimp only
      split
      · exact passed.weaken (by decide) id
      refine ensures_accept ?_ ?_
      · intro token rest front found
        have step : Passage 1 u u.advance := .advance front found TokenKind.noConfusion
        exact passed.before step .inl
      · simp only [Bool.false_eq_true, if_false, ensures_expected, ensures_pure]
        obtain ⟨passage, _, placed⟩ := passed
        refine ⟨(passage.trans (.record u _)).weaken (by decide), ?_, ?_⟩
        · intro _
          have grown := passage.follows.errors
          simp
          omega
        · intro ready
          have inside := placed ready
          refine .single inside.head.markIncomplete ?_ ?_ ?_
          all_goals rw [Expr.markIncomplete_span]
          · exact inside.bounds.1
          · exact inside.bounds.2.1
          · exact inside.bounds.2.2

/-- The outcomes of all rules for expressions under one bound. -/
structure ExpressionOutcomes (bound : Nat) : Prop where
  binary : ∀ power s, Ensures (binary bound power) s fun x t =>
    ExprOutcome 0 (isUnfinished x) s x.toList t
  operatorsFrom : ∀ power left s u, ExprOutcome 0 left.incomplete s [left] u →
    Ensures (operatorsFrom bound power left) u fun x t => ExprOutcome 0 x.incomplete s [x] t
  unary : ∀ s, Ensures (unary bound) s fun x t => ExprOutcome 0 (isUnfinished x) s x.toList t
  memberList : ∀ s, Ensures (memberList bound) s fun x t =>
    ExprOutcome 0 (isUnfinished x) s x.toList t
  listing : ∀ close starred s, close ≠ .pipe → 0 ≤ closing close →
    Ensures (listing bound close starred) s fun read t =>
      ExprOutcome (closing close) (!read.complete) s read.items t
  itemsFrom : ∀ close starred s, close ≠ .pipe → 0 ≤ closing close →
    Ensures (itemsFrom bound close starred) s fun read t =>
      ExprOutcome (closing close) (!read.complete) s read.items t
  primary : ∀ s, Ensures (primary bound) s fun x t => ExprOutcome 0 (isUnfinished x) s x.toList t

/-- The outcome of finding nothing where an expression has to be. -/
theorem expected_outcome (what : Expectation) (s : Reading) :
    Ensures (do expected what; pure none) s fun x t =>
      ExprOutcome 0 (isUnfinished x) s x.toList t := by
  simp only [ensures_expected, ensures_pure]
  refine .empty (.record s _) ?_
  intro _
  simp

namespace ExpressionOutcomes

variable {bound : Nat} (inner : ExpressionOutcomes bound)

include inner

theorem binary_succ (power : Nat) (s : Reading) :
    Ensures (Grammar.binary (bound + 1) power) s fun x t =>
      ExprOutcome 0 (isUnfinished x) s x.toList t := by
  unfold Grammar.binary
  refine (inner.unary s).bind ?_
  intro x u read
  cases x with
  | none => exact read
  | some left =>
      refine (inner.operatorsFrom power left s u read).bind ?_
      intro x t outcome
      exact outcome

theorem operatorsFrom_succ (power : Nat) (left : Expr) (s u : Reading)
    (parts : ExprOutcome 0 left.incomplete s [left] u) :
    Ensures (Grammar.operatorsFrom (bound + 1) power left) u fun x t =>
      ExprOutcome 0 x.incomplete s [x] t := by
  unfold Grammar.operatorsFrom
  simp only [ensures_tokens]
  split
  · exact parts
  rename_i operator found
  split
  · exact parts
  have skipped : ExprOutcome 0 false s [left] (u.skip operator.width) :=
    parts.before (passage_operator found) Bool.noConfusion
  simp only [ensures_skip]
  split
  · refine (inner.binary (operator.power + 1) _).bind ?_
    intro right v read
    refine (binaryNode_outcome operator.name (skipped.append read)).bind ?_
    intro x t applied
    exact inner.operatorsFrom power x s t applied
  · refine (inner.memberList _).bind ?_
    intro right v read
    refine (binaryNode_outcome operator.name (skipped.append read)).bind ?_
    intro x t applied
    exact inner.operatorsFrom power x s t applied
  · refine (nullTest_outcome skipped).bind ?_
    intro x t applied
    exact inner.operatorsFrom power x s t applied

theorem unary_succ (s : Reading) :
    Ensures (Grammar.unary (bound + 1)) s fun x t =>
      ExprOutcome 0 (isUnfinished x) s x.toList t := by
  unfold Grammar.unary
  simp only [ensures_tokens]
  split
  · exact expected_outcome .expression s
  rename_i token rest front
  split
  · rename_i name power sign
    simp only [ensures_advance]
    refine (inner.binary power s.advance).bind ?_
    intro operand u read
    refine (unaryNode_outcome name front ?_ read).bind ?_
    · exact unaryOperator?_plain sign
    · intro x t outcome
      exact outcome
  · refine (inner.primary s).bind ?_
    intro x u read
    cases x with
    | none => exact read
    | some value =>
        simp only [ensures_tokens]
        refine (castsFrom_outcome _ read).bind ?_
        intro x t outcome
        exact outcome

theorem memberList_succ (s : Reading) :
    Ensures (Grammar.memberList (bound + 1)) s fun x t =>
      ExprOutcome 0 (isUnfinished x) s x.toList t := by
  unfold Grammar.memberList
  refine ensures_accept? ?_ (expected_outcome .openParen s)
  intro opening rest front found
  have plain : opening.kind ≠ .pipe := by
    rw [found]
    exact TokenKind.noConfusion
  refine (inner.listing .closeParen false s.advance TokenKind.noConfusion (by decide)).bind ?_
  intro items t read
  simp only [ensures_extent, ensures_pure]
  refine Outcome.weaken (ExprOutcome.headed front plain read rfl rfl) ?_ id
  rw [found]
  decide

theorem listing_succ (close : TokenKind) (starred : Bool) (s : Reading) (noPipe : close ≠ .pipe)
    (closes : 0 ≤ closing close) :
    Ensures (Grammar.listing (bound + 1) close starred) s fun read t =>
      ExprOutcome (closing close) (!read.complete) s read.items t := by
  unfold Grammar.listing
  refine ensures_accept ?_ (inner.itemsFrom close starred s noPipe closes)
  intro token rest front found
  exact .empty (.advance front found noPipe) Bool.noConfusion

/-- What is read of a listing behind one of its items. -/
theorem itemsFrom_rest (close : TokenKind) (starred : Bool) (s u : Reading) (item : Option Expr)
    (noPipe : close ≠ .pipe) (closes : 0 ≤ closing close)
    (read : ExprOutcome 0 (isUnfinished item) s item.toList u) :
    Ensures (do
      match item with
      | none => pure .halted
      | some item =>
          if item.incomplete then pure (.one item true)
          else if ← accept .comma then
            pure ((Parts.one item false).append (← Grammar.itemsFrom bound close starred))
          else if ← accept close then pure (.one item false)
          else
            expected (afterItem close)
            pure (.one item true)) u fun read t =>
      ExprOutcome (closing close) (!read.complete) s read.items t := by
  cases item with
  | none => exact read.weaken closes id
  | some item =>
      dsimp only
      split
      · rename_i incomplete
        refine read.weaken closes ?_
        intro _
        exact incomplete
      refine ensures_accept ?_ (ensures_accept ?_ ?_)
      · intro token rest front comma
        have step : Passage 0 u u.advance := .advance front comma TokenKind.noConfusion
        refine (inner.itemsFrom close starred u.advance noPipe closes).bind ?_
        intro others t later
        have passed : ExprOutcome 0 false s [item] u.advance := read.before step Bool.noConfusion
        exact (passed.append later).weaken (Int.le_of_eq (Int.zero_add _)) id
      · intro token rest front found
        have passed : ExprOutcome (0 + closing close) false s [item] u.advance :=
          read.before (.advance front found noPipe) Bool.noConfusion
        exact passed.weaken (Int.le_of_eq (Int.zero_add _)) id
      · simp only [Bool.false_eq_true, if_false, ensures_expected, ensures_pure]
        refine .weaken (read.before (.record u _) ?_) closes id
        intro _
        exact .inr (by simp)

theorem itemsFrom_succ (close : TokenKind) (starred : Bool) (s : Reading) (noPipe : close ≠ .pipe)
    (closes : 0 ≤ closing close) :
    Ensures (Grammar.itemsFrom (bound + 1) close starred) s fun read t =>
      ExprOutcome (closing close) (!read.complete) s read.items t := by
  unfold Grammar.itemsFrom
  simp only [ensures_tokens]
  split
  · rename_i star
    refine (wholeRow_outcome (Bool.and_eq_true_iff.mp star).2).bind ?_
    intro x u read
    exact inner.itemsFrom_rest close starred s u (some x) noPipe closes read
  · refine (inner.binary Power.or s).bind ?_
    intro item u read
    exact inner.itemsFrom_rest close starred s u item noPipe closes read

theorem listExpr?_outcome {s : Reading} {token : Token} {rest : List Token}
    (front : s.rest = token :: rest) (opens : token.kind = .openBracket) :
    Ensures (listExpr? bound token) s fun x t =>
      ExprOutcome 0 (isUnfinished x) s x.toList t := by
  have noPipe : token.kind ≠ .pipe := by
    rw [opens]
    exact TokenKind.noConfusion
  unfold listExpr?
  simp only [ensures_advance]
  refine (inner.listing .closeBracket false s.advance TokenKind.noConfusion (by decide)).bind ?_
  intro items t read
  simp only [ensures_extent, ensures_pure]
  refine Outcome.weaken (ExprOutcome.headed front noPipe read rfl rfl) ?_ id
  rw [opens]
  decide

theorem groupExpr?_outcome {s : Reading} {token : Token} {rest : List Token}
    (front : s.rest = token :: rest) (opens : token.kind = .openParen) :
    Ensures (groupExpr? bound) s fun x t => ExprOutcome 0 (isUnfinished x) s x.toList t := by
  unfold groupExpr?
  simp only [ensures_advance]
  refine (inner.binary Power.or s.advance).bind ?_
  intro x u read
  exact closeGroup_outcome s u x (.advance front opens TokenKind.noConfusion) read

theorem callExpr?_outcome {s : Reading} {token : Token} {rest : List Token}
    (front : s.rest = token :: rest) (name : token.kind.isName = true) :
    Ensures (callExpr? bound token rest) s fun x t =>
      ExprOutcome 0 (isUnfinished x) s x.toList t := by
  unfold callExpr?
  split
  · rename_i call
    obtain ⟨opening, others, rfl, found⟩ := exists_cons_of_head? call
    have plain : IsPlain token.kind := isPlain_of_isName name
    have opened : Passage (-1) s.advance s.advance.advance :=
      .advance (Reading.advance_rest front) (beq_iff_eq.mp found) TokenKind.noConfusion
    simp only [ensures_skip]
    refine (inner.listing .closeParen true _ TokenKind.noConfusion (by decide)).bind ?_
    intro args t read
    simp only [ensures_extent, ensures_pure]
    refine Outcome.weaken (ExprOutcome.headed front plain.1 (.after opened read) rfl rfl) ?_ id
    rw [plain.2]
    decide
  · exact columnExpr?_outcome front name

theorem primary_succ (s : Reading) :
    Ensures (Grammar.primary (bound + 1)) s fun x t =>
      ExprOutcome 0 (isUnfinished x) s x.toList t := by
  rw [primary_eq]
  simp only [ensures_tokens]
  split
  · exact expected_outcome .expression s
  rename_i token rest front
  have plain {kind : TokenKind} (found : token.kind = kind) (other : IsPlain kind) :
      IsPlain token.kind := found ▸ other
  have literal {kind : TokenKind} (found : token.kind = kind) (other : IsPlain kind) :=
    literalExpr?_outcome front (plain found other)
  unfold primaryAt
  split
  case h_1 kind => exact integerExpr?_outcome front (plain kind ⟨TokenKind.noConfusion, rfl⟩)
  case h_2 kind => exact literal kind ⟨TokenKind.noConfusion, rfl⟩ _ _
  case h_3 value terminated kind =>
    exact stringExpr?_outcome front (plain kind ⟨TokenKind.noConfusion, rfl⟩) value terminated
  case h_4 kind => exact literal kind (isPlain_keyword _) _ _
  case h_5 kind => exact literal kind (isPlain_keyword _) _ _
  case h_6 kind => exact literal kind (isPlain_keyword _) _ _
  case h_7 name kind => exact literal kind ⟨TokenKind.noConfusion, rfl⟩ _ _
  case h_8 kind => exact inner.listExpr?_outcome front kind
  case h_9 kind => exact inner.groupExpr?_outcome front kind
  case h_10 name terminated kind => exact columnExpr?_outcome front (by rw [kind]; rfl)
  case h_11 name kind => exact inner.callExpr?_outcome front (by rw [kind]; rfl)
  case h_12 => exact expected_outcome .expression s

end ExpressionOutcomes

/-- Where the recursion is cut off nothing is read. -/
theorem ExpressionOutcomes.zero : ExpressionOutcomes 0 := by
  constructor
  · intro power s
    unfold Grammar.binary
    exact expected_outcome .expression s
  · intro power left s u parts
    unfold Grammar.operatorsFrom
    exact parts
  · intro s
    unfold Grammar.unary
    exact expected_outcome .expression s
  · intro s
    unfold Grammar.memberList
    exact expected_outcome .openParen s
  · intro close starred s noPipe closes
    unfold Grammar.listing
    exact (halt_outcome .expression s).mono fun _ _ outcome => outcome.weaken closes id
  · intro close starred s noPipe closes
    unfold Grammar.itemsFrom
    exact (halt_outcome .expression s).mono fun _ _ outcome => outcome.weaken closes id
  · intro s
    unfold Grammar.primary
    exact expected_outcome .expression s

theorem expressionOutcomes (bound : Nat) : ExpressionOutcomes bound := by
  induction bound with
  | zero => exact .zero
  | succ bound inner =>
      exact {
        binary := inner.binary_succ
        operatorsFrom := inner.operatorsFrom_succ
        unary := inner.unary_succ
        memberList := inner.memberList_succ
        listing := inner.listing_succ
        itemsFrom := inner.itemsFrom_succ
        primary := inner.primary_succ }

/-- An expression stands where it was read, and its absence is recorded. -/
theorem expression_outcome (s : Reading) :
    Ensures expression s fun x t => ExprOutcome 0 (isUnfinished x) s x.toList t := by
  unfold expression
  simp only [ensures_tokens]
  exact (expressionOutcomes _).binary Power.or s

theorem operand_outcome {rule : Rule (Option Expr)} {s : Reading}
    (read : Ensures rule s fun x t => ExprOutcome 0 (isUnfinished x) s x.toList t) :
    Ensures (operand rule) s fun read t => ExprOutcome 0 (!read.complete) s read.items t := by
  unfold operand
  refine read.bind ?_
  intro x t outcome
  cases x with
  | none => exact outcome
  | some expr =>
      simp only [ensures_pure, Parts.one, Bool.not_not]
      exact outcome

end Esql.Grammar
