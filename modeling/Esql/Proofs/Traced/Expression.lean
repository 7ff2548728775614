import Esql.Proofs.Traced.Basic

/-!
# Tracing the leaves of expressions

The grammar makes columns in two places and literals in two more. Every other rule for expressions
puts together what it is given.
-/

namespace Esql

theorem Span.Fits.slice_append {source : String} {start middle stop : Nat}
    (front : Fits source ⟨start, middle⟩) (back : Fits source ⟨middle, stop⟩) :
    slice ⟨start, stop⟩ source = slice ⟨start, middle⟩ source ++ slice ⟨middle, stop⟩ source := by
  rw [slice, slice, slice, ← String.ofList_append,
    Text.sliceChars_append front.starts front.stops back.stops front.ordered back.ordered]

/-- A traced literal keeps the text under it. -/
theorem Literal.Traced.fits {text : String} {literal : Literal} (traced : literal.Traced text) :
    literal.span.Fits text ∧ literal.text = literal.span.slice text := by
  induction traced with
  | token incomplete within literal =>
      have sound := Token.sound_of_mem_scan within
      exact ⟨sound.fits, sound.text_eq⟩
  | @signed sign name number within mark numeric joined read ih =>
      have sound := Token.sound_of_mem_scan within
      obtain ⟨fits, written⟩ := ih
      have back : Span.Fits text ⟨sign.span.stop, number.span.stop⟩ := joined ▸ fits
      refine ⟨⟨Nat.le_trans sound.fits.ordered back.ordered, sound.fits.starts, back.stops⟩, ?_⟩
      change sign.text ++ number.text = _
      rw [Span.Fits.slice_append sound.fits back, sound.text_eq, written]
      exact congrArg (fun start => _ ++ Span.slice ⟨start, _⟩ text) joined
  | marked read ih => exact ih

namespace Grammar

variable {text : String} {s : Reading}

/-! ## Where leaves are made -/

/-- A column over a run of tokens that was just passed over. -/
theorem traced_column_of_run {stars : Bool} {first : Token} {others : List Token}
    (reached : Reached text s) (run : columnRun stars s.rest = first :: others) {column : Column}
    (extent : column.toExtent = (s.skip (first :: others).length).extent first.span.start
      ((first :: others).any (fun token => isUnclosed token.kind) ||
        (columnParts (first :: others)).getLast? == some ""))
    (parts : column.parts = columnParts (first :: others))
    (name : column.name = Text.join "." (columnParts (first :: others)))
    (quoted : column.quoted = (first :: others).any fun token => isQuoted token.kind) :
    column.Traced text := by
  obtain ⟨⟨rest, front⟩, joined, starts, continues⟩ := columnRun_joined run
  have leads := leads_skip s (first :: others).length
  have taken : s.rest.take (first :: others).length = first :: others := by
    rw [front, ← List.cons_append, List.take_left]
  rw [taken] at leads
  have span : column.span = ⟨first.span.start, Token.stopAfter first.span.stop others⟩ := by
    rw [congrArg Extent.span extent]
    exact congrArg (Span.mk _) leads.stop
  have within : first :: others <:+: s.rest := ⟨[], rest, front.symm⟩
  refine ⟨stars, first, others, within.trans reached.suffix.isInfix, starts, continues, ?_, ?_,
    parts, parts ▸ name, quoted, ?_, ?_⟩
  · rw [span]
    exact joined
  · rw [congrArg Extent.text extent, congrArg Extent.span extent, Reading.extent, leads.source,
      reached.source]
  · intro whole
    have finished := (congrArg Extent.incomplete extent).symm.trans whole
    intro token member
    exact Bool.eq_false_iff.mpr (List.any_eq_false.mp (Bool.or_eq_false_iff.mp finished).1 _ member)
  · intro whole
    have finished := (congrArg Extent.incomplete extent).symm.trans whole
    rw [parts]
    exact beq_eq_false_iff_ne.mp (Bool.or_eq_false_iff.mp finished).2

theorem finds_column? (stars : Bool) :
    Finds text (column? stars) fun x => ∀ column ∈ x, column.Traced text := by
  intro s reached
  refine Ensures.and ?_ ((column?_outcome stars s).mono fun _ _ outcome =>
    reached.follow outcome.passage.follows)
  unfold column?
  rw [ensures_tokens]
  split
  · exact nofun
  · rename_i first others run
    have all {column : Column} := @traced_column_of_run _ _ _ _ _ reached run column
    simp only [ensures_skip, ensures_extent]
    split
    · exact fun column same => Option.some.inj same ▸ all rfl rfl rfl rfl
    split
    · exact fun column same => Option.some.inj same ▸ all rfl rfl rfl rfl
    · exact fun column same => Option.some.inj same ▸ all rfl rfl rfl rfl

/-- A lone star is a column name that may hold stars. -/
theorem wholeRow_traced (reached : Reached text s) (found : isWholeRow s.rest = true) :
    Ensures wholeRow s fun x t => x.Traced text ∧ Reached text t := by
  refine Ensures.and ?_ ((wholeRow_outcome found).mono fun _ _ outcome =>
    reached.follow outcome.passage.follows)
  unfold isWholeRow at found
  split at found
  · rename_i star close rest front
    have kind : star.kind = .star := beq_iff_eq.mp (Bool.and_eq_true_iff.mp found).1
    unfold wholeRow
    simp only [ensures_get, ensures_advance, ensures_extent, ensures_pure, Reading.nextStart, front]
    refine Expr.traced_column.mpr ⟨true, star, [], ?_, ?_, ?_, ?_, ?_, ?_, rfl, ?_, ?_, ?_⟩
    · have within : [star] <:+: s.rest := ⟨[], close :: rest, front.symm⟩
      exact within.trans reached.suffix.isInfix
    · rw [kind]
      rfl
    · exact List.forall_mem_singleton.mpr (by rw [kind]; rfl)
    · rw [Reading.extent, Reading.lastStop_advance front]
      exact .cons rfl (.nil _)
    · rw [Reading.extent, (Leads.advance front).source, reached.source]
    · rw [columnParts, columnParts, kind]
      exact (congrArg (· :: []) String.append_empty).symm
    · rw [List.any_cons, kind]
      rfl
    · exact fun _ => List.forall_mem_singleton.mpr (by rw [kind]; rfl)
    · exact fun _ same => absurd (Option.some.inj same) (by decide)
  · cases found

/-- A literal is read from the token at the front. -/
theorem literal_traced {token : Token} {rest : List Token} {kind : LiteralKind} {value : String}
    (reached : Reached text s) (front : s.rest = token :: rest)
    (same : token.literal? = some (kind, value)) (incomplete : Bool) :
    Ensures (literal kind value incomplete) s fun x t => x.Traced text ∧ Reached text t := by
  have member : token ∈ s.rest := front ▸ List.mem_cons_self
  have extent : s.advance.extent token.span.start incomplete =
      ⟨token.span, token.text, incomplete⟩ := by
    rw [Reading.extent, Reading.lastStop_advance front, (Leads.advance front).source,
      reached.source, (reached.sound member).text_eq]
  unfold literal
  simp only [ensures_get, ensures_advance, ensures_extent, ensures_pure, Reading.nextStart, front]
  refine ⟨Expr.traced_literal.mpr ?_, reached.advance⟩
  rw [extent]
  exact .token incomplete (reached.mem_scan member) same

theorem unaryOperator?_sign {kind : TokenKind} {name : String} {power : Nat}
    (operator : unaryOperator? kind = some (name, power)) (sign : name ≠ "not") :
    (kind = .minus ∧ name = "-") ∨ (kind = .plus ∧ name = "+") := by
  unfold unaryOperator? at operator
  split at operator <;> cases operator
  · exact absurd rfl sign
  · exact .inl ⟨rfl, rfl⟩
  · exact .inr ⟨rfl, rfl⟩

theorem unaryOperator?_named {kind : TokenKind} {name : String} {power : Nat}
    (operator : unaryOperator? kind = some (name, power)) : name ∈ operatorNames := by
  unfold unaryOperator? at operator
  split at operator <;> cases operator <;> decide

theorem symbolOperator?_named {kind : TokenKind} {operator : Operator}
    (found : symbolOperator? kind = some operator) : operator.name ∈ operatorNames := by
  cases kind <;> cases found <;> decide

/-- The operators that are found between operands or behind one. -/
theorem operator?_named {tokens : List Token} {operator : Operator}
    (found : operator? tokens = some operator) : operator.name ∈ operatorNames := by
  unfold operator? at found
  split at found
  · cases found
  · split at found
    case h_7 =>
      obtain ⟨next, -, found⟩ := Option.bind_eq_some_iff.mp found
      obtain ⟨keyword, -, found⟩ := Option.bind_eq_some_iff.mp found
      unfold negatedTest? at found
      split at found <;> cases found <;> decide
    case h_8 => exact symbolOperator?_named found
    all_goals
      cases found
      decide

/-- A sign goes into the number directly behind it, and is applied to anything else. -/
theorem finds_unaryNode {sign : Token} {name : String} {power : Nat} {operand : Option Expr}
    (within : sign ∈ Token.scan text) (operator : unaryOperator? sign.kind = some (name, power))
    (traced : ∀ expr ∈ operand, expr.Traced text) :
    Finds text (unaryNode sign name operand) (Expr.Traced text) := by
  unfold unaryNode
  split
  · rename_i number signed
    obtain rfl := signedLiteral?_eq_some signed
    have read := Expr.traced_literal.mp (traced _ rfl)
    unfold signedLiteral? at signed
    dsimp only at signed
    split at signed
    · rename_i found
      rw [Bool.and_eq_true, Bool.and_eq_true, bne_iff_ne, beq_iff_eq] at found
      obtain ⟨⟨negation, numeric⟩, joined⟩ := found
      have whole := Literal.Traced.signed within (unaryOperator?_sign operator negation) numeric
        joined read
      intro s reached
      rw [ensures_get]
      refine ⟨Expr.traced_literal.mpr ?_, reached⟩
      rw [reached.source, ← whole.fits.2]
      exact whole
    · cases signed
  · exact .extent fun extent => .pure (.of_children
      (.operator .unary _ _ (unaryOperator?_named operator) nofun) fun part member =>
        traced part (Option.mem_toList.mp member))

/-! ## Expressions -/

/-- The expression is traced, if there is one. -/
def TracedIfAny (text : String) (expr? : Option Expr) : Prop := ∀ expr ∈ expr?, expr.Traced text

theorem TracedIfAny.none : TracedIfAny text .none := nofun

theorem TracedIfAny.some {expr : Expr} (traced : expr.Traced text) :
    TracedIfAny text (some expr) :=
  fun _ member => Option.some.inj member ▸ traced

/-- All items of a sequence of expressions are traced. -/
abbrev TracedExprs (text : String) (read : Parts Expr) : Prop := AllItems (Expr.Traced text) read

theorem traced_operands {left : Expr} {right : Option Expr} (first : left.Traced text)
    (second : TracedIfAny text right) : ∀ part ∈ operands [left] right, part.Traced text := by
  intro part member
  rcases List.mem_cons.mp member with rfl | behind
  · exact first
  · exact second part (Option.mem_toList.mp behind)

theorem finds_literalExpr? {token : Token} {rest : List Token} {kind : LiteralKind} {value : String}
    (reached : Reached text s) (front : s.rest = token :: rest)
    (same : token.literal? = some (kind, value)) (incomplete : Bool) :
    Ensures (literalExpr? kind value incomplete) s fun x t =>
      TracedIfAny text x ∧ Reached text t :=
  (literal_traced reached front same incomplete).bind fun _ _ read => ⟨.some read.1, read.2⟩

theorem finds_interval (number unit : Token) :
    Finds text (interval number unit) (Expr.Traced text) :=
  .skip (.extent fun _ => .pure (.of_children trivial nofun))

theorem finds_columnExpr? : Finds text columnExpr? (TracedIfAny text) := by
  refine (finds_column? false).bind fun column? traced => ?_
  cases column? with
  | none => exact .pure .none
  | some column => exact .pure (.some (Expr.traced_column.mpr (traced column rfl)))

theorem forward_castType : Forward castType :=
  fun s => (castType_outcome s).mono fun _ _ read => read.1.follows

theorem finds_castsFrom (bound : Nat) {value : Expr} (traced : value.Traced text) :
    Finds text (castsFrom bound value) (Expr.Traced text) := by
  induction bound generalizing value with
  | zero => exact .pure traced
  | succ bound ih =>
      unfold castsFrom
      split
      · exact .pure traced
      · refine .after (.accept .doubleColon) fun found => ?_
        split
        · exact .after forward_castType fun _ => .extent fun _ =>
            ih (.of_children trivial (List.forall_mem_singleton.mpr traced))
        · exact .pure traced

theorem finds_binaryNode {name : String} (named : name ∈ operatorNames) {left : Expr}
    {right : Option Expr} (first : left.Traced text) (second : TracedIfAny text right) :
    Finds text (binaryNode name left right) (Expr.Traced text) :=
  .extent fun _ => .pure
    (.of_children (.operator .binary _ _ named nofun) (traced_operands first second))

theorem finds_nullTest {operand : Expr} (traced : operand.Traced text) :
    Finds text (nullTest operand) (Expr.Traced text) := by
  have node {negated : Bool} {extent : Extent} :
      (Expr.apply (if negated then "is not null" else "is null") .trailing [operand] extent).Traced
        text := by
    refine .of_children (.operator .trailing _ _ ?_ nofun) (List.forall_mem_singleton.mpr traced)
    cases negated <;> decide
  refine .after (.accept _) fun negated => .after (.accept _) fun complete => ?_
  cases complete with
  | false => exact .after (.expected .null) fun _ => .extent fun _ => .pure node
  | true => exact .extent fun _ => .pure node

theorem finds_closeGroup {inner? : Option Expr} (traced : TracedIfAny text inner?) :
    Finds text (closeGroup inner?) (TracedIfAny text) := by
  cases inner? with
  | none => exact .pure .none
  | some inner =>
      unfold closeGroup
      dsimp only
      split
      · exact .pure traced
      · refine .after (.accept .closeParen) fun closed => ?_
        split
        · exact .pure traced
        · exact .after (.expected .closeParen) fun _ =>
            .pure (.some (traced inner rfl).markIncomplete)

/-- What the rules for expressions find under one bound. -/
structure TracedRules (text : String) (bound : Nat) : Prop where
  binary : ∀ power, Finds text (binary bound power) (TracedIfAny text)
  operatorsFrom : ∀ power {left : Expr}, left.Traced text →
    Finds text (operatorsFrom bound power left) (Expr.Traced text)
  unary : Finds text (unary bound) (TracedIfAny text)
  memberList : Finds text (memberList bound) (TracedIfAny text)
  listing : ∀ close starred, Finds text (listing bound close starred) (TracedExprs text)
  itemsFrom : ∀ close starred, Finds text (itemsFrom bound close starred) (TracedExprs text)
  primary : Finds text (primary bound) (TracedIfAny text)

namespace TracedRules

variable {bound : Nat} (inner : TracedRules text bound)

include inner

theorem binary_succ (power : Nat) :
    Finds text (Grammar.binary (bound + 1) power) (TracedIfAny text) := by
  unfold Grammar.binary
  refine inner.unary.bind fun left? traced => ?_
  cases left? with
  | none => exact .pure .none
  | some left =>
      exact (inner.operatorsFrom power (traced left rfl)).bind fun _ result => .pure (.some result)

theorem operatorsFrom_succ (power : Nat) {left : Expr} (traced : left.Traced text) :
    Finds text (Grammar.operatorsFrom (bound + 1) power left) (Expr.Traced text) := by
  have node {name : String} (named : name ∈ operatorNames) {right : Option Expr}
      (second : TracedIfAny text right) :
      Finds text (binaryNode name left right >>= Grammar.operatorsFrom bound power)
        (Expr.Traced text) :=
    (finds_binaryNode named traced second).bind fun _ applied => inner.operatorsFrom power applied
  unfold Grammar.operatorsFrom
  refine .tokens fun tokens => ?_
  split
  · exact .pure traced
  · rename_i operator found
    have named := operator?_named found
    split
    · exact .pure traced
    · refine .skip ?_
      split
      · exact (inner.binary _).bind fun _ => node named
      · exact inner.memberList.bind fun _ => node named
      · exact (finds_nullTest traced).bind fun _ applied => inner.operatorsFrom power applied

theorem unary_succ : Finds text (Grammar.unary (bound + 1)) (TracedIfAny text) := by
  intro s reached
  unfold Grammar.unary
  rw [ensures_tokens]
  split
  · exact (Finds.after (.expected .expression) fun _ => .pure .none) s reached
  · rename_i token rest front
    have within := reached.mem_scan (front ▸ List.mem_cons_self)
    split
    · rename_i name power operator
      have signed : Finds text (do
          advance
          let operand ← Grammar.binary bound power
          pure (some (← unaryNode token name operand))) (TracedIfAny text) :=
        .after .advance fun _ => (inner.binary _).bind fun operand traced =>
          (finds_unaryNode within operator traced).bind fun _ result => .pure (.some result)
      exact signed s reached
    · refine Finds.bind inner.primary (fun value? traced => ?_) s reached
      cases value? with
      | none => exact .pure .none
      | some value =>
          exact .tokens fun rest =>
            (finds_castsFrom _ (traced value rfl)).bind fun _ result => .pure (.some result)

theorem memberList_succ : Finds text (Grammar.memberList (bound + 1)) (TracedIfAny text) := by
  unfold Grammar.memberList
  refine .after (.accept? .openParen) fun opening? => ?_
  split
  · exact .after (.expected .openParen) fun _ => .pure .none
  · exact (inner.listing _ _).bind fun read items =>
      .extent fun _ => .pure (.some (.of_children trivial items))

theorem listing_succ (close : TokenKind) (starred : Bool) :
    Finds text (Grammar.listing (bound + 1) close starred) (TracedExprs text) := by
  unfold Grammar.listing
  refine .after (.accept close) fun closed => ?_
  split
  · exact .pure (List.forall_mem_nil _)
  · exact inner.itemsFrom close starred

/-- What is read of a listing behind one of its items. -/
theorem itemsFrom_rest (close : TokenKind) (starred : Bool) (item : Option Expr)
    (traced : TracedIfAny text item) :
    Finds text (do
      match item with
      | none => pure .halted
      | some item =>
          if item.incomplete then pure (.one item true)
          else if ← accept .comma then
            pure ((Parts.one item false).append (← Grammar.itemsFrom bound close starred))
          else if ← accept close then pure (.one item false)
          else
            expected (afterItem close)
            pure (.one item true)) (TracedExprs text) := by
  cases item with
  | none => exact .pure nofun
  | some item =>
      have one {incomplete : Bool} : TracedExprs text (.one item incomplete) :=
        List.forall_mem_singleton.mpr (traced item rfl)
      dsimp only
      split
      · exact .pure one
      · refine .after (.accept .comma) fun comma => ?_
        split
        · exact (inner.itemsFrom close starred).bind fun rest others =>
            .pure (List.forall_mem_append.mpr ⟨one, others⟩)
        · refine .after (.accept close) fun closed => ?_
          split
          · exact .pure one
          · exact .after (.expected _) fun _ => .pure one

theorem itemsFrom_succ (close : TokenKind) (starred : Bool) :
    Finds text (Grammar.itemsFrom (bound + 1) close starred) (TracedExprs text) := by
  intro s reached
  unfold Grammar.itemsFrom
  rw [ensures_tokens]
  split
  · rename_i star
    refine (wholeRow_traced reached (Bool.and_eq_true_iff.mp star).2).bind fun row t found => ?_
    exact inner.itemsFrom_rest close starred _ (.some found.1) t found.2
  · exact Finds.bind (inner.binary Power.or) (inner.itemsFrom_rest close starred) s reached

theorem callExpr?_finds (reached : Reached text s) {token : Token} {rest : List Token}
    (front : s.rest = token :: rest) {written : String} (word : token.kind = .word written) :
    Ensures (callExpr? bound token rest) s fun x t => TracedIfAny text x ∧ Reached text t := by
  unfold callExpr?
  split
  · rename_i parenthesis
    obtain ⟨opening, others, rfl, opens⟩ := exists_cons_of_head? parenthesis
    rw [ensures_skip]
    obtain ⟨items, later⟩ := inner.listing .closeParen true (s.skip 2) (reached.skip 2)
    exact ⟨.some (.of_children
      (.call (.intro reached front word (beq_iff_eq.mp opens) rfl)) items), later⟩
  · exact finds_columnExpr? s reached

theorem primary_succ : Finds text (Grammar.primary (bound + 1)) (TracedIfAny text) := by
  intro s reached
  have nothing : Finds text (do expected .expression; pure none) (TracedIfAny text) :=
    .after (.expected .expression) fun _ => .pure .none
  rw [primary_eq, ensures_tokens]
  split
  · exact nothing s reached
  rename_i token rest front
  have literal {kind : LiteralKind} {value : String}
      (same : token.literal? = some (kind, value)) :=
    finds_literalExpr? reached front same false
  unfold primaryAt
  split
  case h_1 kind =>
    have same : token.literal? = some (.integer, token.text) := by rw [Token.literal?, kind]
    have integer := literal same
    unfold integerExpr?
    split
    · split
      · exact Finds.bind (finds_interval _ _) (fun _ read => .pure (.some read)) s reached
      · exact integer
    · exact integer
  case h_3 value terminated kind =>
    have same : token.literal? = some (.string, value) := by rw [Token.literal?, kind]
    cases terminated with
    | false =>
        unfold stringExpr?
        simp only [Bool.not_false, if_true, ensures_record]
        exact finds_literalExpr? (reached.follow ⟨_, .record s _⟩) front same _
    | true => exact finds_literalExpr? reached front same _
  case h_8 =>
    exact Finds.after .advance (fun _ => (inner.listing _ _).bind fun read items =>
      .extent fun _ => .pure (.some (.of_children trivial items))) s reached
  case h_9 =>
    exact Finds.after .advance (fun _ => (inner.binary Power.or).bind fun _ => finds_closeGroup) s
      reached
  case h_10 => exact finds_columnExpr? s reached
  case h_11 name kind => exact inner.callExpr?_finds reached front kind
  case h_12 => exact nothing s reached
  all_goals
    rename_i kind
    exact literal (by rw [Token.literal?, kind])

end TracedRules

theorem tracedRules (text : String) (bound : Nat) : TracedRules text bound := by
  induction bound with
  | zero =>
      exact {
        binary := fun _ => .after (.expected .expression) fun _ => .pure .none
        operatorsFrom := fun _ _ traced => .pure traced
        unary := .after (.expected .expression) fun _ => .pure .none
        memberList := .after (.expected .openParen) fun _ => .pure .none
        listing := fun _ _ => finds_halt .expression
        itemsFrom := fun _ _ => finds_halt .expression
        primary := .after (.expected .expression) fun _ => .pure .none }
  | succ bound inner =>
      exact {
        binary := inner.binary_succ
        operatorsFrom := inner.operatorsFrom_succ
        unary := inner.unary_succ
        memberList := inner.memberList_succ
        listing := inner.listing_succ
        itemsFrom := inner.itemsFrom_succ
        primary := inner.primary_succ }

theorem finds_expression : Finds text expression (TracedIfAny text) :=
  .tokens fun _ => (tracedRules text _).binary Power.or

theorem finds_operand {rule : Rule (Option Expr)} (traced : Finds text rule (TracedIfAny text)) :
    Finds text (operand rule) (TracedExprs text) := by
  refine traced.bind fun expr? here => ?_
  cases expr? with
  | none => exact .pure nofun
  | some expr => exact .pure (List.forall_mem_singleton.mpr (here expr rfl))

end Grammar

end Esql
