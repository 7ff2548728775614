import Esql.Proofs.Grammar.Stages

/-!
# Where syntax errors are found

An error is told of the next token, of tokens just read, or of the end of the text. All of these
stand in the text, so every rule that starts with errors in their places ends with errors in their
places.
-/

namespace Esql.Grammar

/-- The tokens left stand in order in the text, and so does what the errors are about. -/
structure Reading.Sound (s : Reading) : Prop where
  ready : s.Ready
  errors : ∀ error ∈ s.errors, error.span.Fits s.source

namespace Reading.Sound

variable {s : Reading} {token : Token} {rest : List Token}

theorem record (sound : s.Sound) {error : SyntaxError} (fits : error.span.Fits s.source) :
    (s.record error).Sound :=
  ⟨((Leads.record s error).ready sound.ready).1,
    List.forall_mem_append.mpr ⟨sound.errors, List.forall_mem_singleton.mpr fits⟩⟩

theorem advance (sound : s.Sound) : s.advance.Sound := by
  cases front : s.rest with
  | nil =>
      rw [Reading.advance, front]
      exact sound
  | cons token rest =>
      have step := Leads.advance front
      refine ⟨(step.ready sound.ready).1, ?_⟩
      rw [Reading.errors_advance, step.source]
      exact sound.errors

theorem skip (sound : s.Sound) (count : Nat) : (s.skip count).Sound := by
  induction count generalizing s with
  | zero => exact sound
  | succ count ih => exact ih sound.advance

/-- What is looked for at the next token is missing at that token, or at the end of the text. -/
theorem missing (sound : s.Sound) (what : Expectation) : (s.record (s.missing what)).Sound := by
  refine sound.record ?_
  rw [Reading.missing]
  split
  · rename_i token rest front
    exact (sound.ready.head front).1.fits
  · exact ⟨Nat.le_refl _, Text.isBoundary_width _, Text.isBoundary_width _⟩

/-- What stands from the next token to the last of some tokens fits the text. -/
theorem fits_skip (sound : s.Sound) (front : s.rest = token :: rest) (count : Nat) :
    (Span.mk token.span.start (s.skip (count + 1)).lastStop).Fits s.source := by
  have good := (sound.ready.head front).1
  have follows : Follows s.advance (s.skip (count + 1)) := ⟨_, leads_skip s.advance count⟩
  have last := follows.ready sound.advance.ready
  have forward := follows.stop_le sound.advance.ready
  rw [Reading.lastStop_advance front] at forward
  refine ⟨Nat.le_trans good.fits.ordered forward, good.fits.starts, ?_⟩
  have stops := last.stop
  rwa [follows.source, (Leads.advance front).source] at stops

end Reading.Sound

/-- From a state with errors in their places a rule comes to another one. -/
def KeepsAt {α : Type} (rule : Rule α) (s : Reading) : Prop :=
  s.Sound → Ensures rule s fun _ t => t.Sound

/-- Wherever a rule starts, it keeps errors in their places. -/
def Keeps {α : Type} (rule : Rule α) : Prop := ∀ s, KeepsAt rule s

namespace Keeps

variable {α β : Type} {rule : Rule α} {next : α → Rule β}

theorem pure {x : α} : Keeps (pure x : Rule α) := fun _ sound => sound

theorem bind (first : Keeps rule) (second : ∀ x, Keeps (next x)) : Keeps (rule >>= next) :=
  fun s sound => Ensures.bind (first s sound) fun x t later => second x t later

end Keeps

theorem keeps_get : Keeps get := fun _ sound => sound

theorem keeps_tokens : Keeps tokens := fun _ sound => sound

theorem keeps_extent (start : Nat) (incomplete : Bool) : Keeps (extent start incomplete) :=
  fun _ sound => sound

theorem keeps_advance : Keeps advance := fun _ sound => sound.advance

theorem keeps_skip (count : Nat) : Keeps (skip count) := fun _ sound => sound.skip count

theorem keeps_expected (what : Expectation) : Keeps (expected what) :=
  fun _ sound => sound.missing what

theorem keeps_accept (kind : TokenKind) : Keeps (accept kind) := by
  refine .bind keeps_get fun reading => ?_
  split
  · exact .bind keeps_advance fun _ => .pure
  · exact .pure

theorem keeps_accept? (kind : TokenKind) : Keeps (accept? kind) := by
  refine .bind keeps_tokens fun tokens => ?_
  split
  · split
    · exact .bind keeps_advance fun _ => .pure
    · exact .pure
  · exact .pure

theorem keeps_recover (nested : Bool) : Keeps (recover nested) :=
  .bind keeps_tokens fun _ => keeps_skip _

section

variable {α : Type}

theorem keeps_halt (what : Expectation) : Keeps (halt what : Rule (Parts α)) :=
  .bind (keeps_expected what) fun _ => .pure

theorem keeps_andThen {first second : Rule (Parts α)} (here : Keeps first) (there : Keeps second) :
    Keeps (andThen first second) := by
  refine .bind here fun read => ?_
  split
  · exact .bind there fun _ => .pure
  · exact .pure

theorem keeps_separated {item : Rule (Parts α)} (here : Keeps item) : Keeps (separated item) := by
  refine .bind keeps_tokens fun tokens => ?_
  generalize tokens.length + 1 = bound
  induction bound with
  | zero => exact keeps_halt .expression
  | succ bound ih =>
      refine keeps_andThen here (.bind (keeps_accept .comma) fun more => ?_)
      split
      · exact ih
      · exact .pure

end

/-! ## Names -/

theorem keeps_column? (stars : Bool) : Keeps (column? stars) := by
  intro s sound
  unfold column?
  simp only [ensures_tokens]
  split
  · exact sound
  · rename_i first others run
    obtain ⟨rest, front, _⟩ := columnRun_append run
    have fits := sound.fits_skip front others.length
    have later := sound.skip (others.length + 1)
    have source : (s.skip (others.length + 1)).source = s.source :=
      (follows_skip s _).source
    simp only [ensures_skip, ensures_extent, List.length_cons]
    split
    · simp only [ensures_record, ensures_pure]
      exact later.record (source ▸ fits)
    split
    · simp only [ensures_record, ensures_pure]
      exact later.record (source ▸ ⟨Nat.le_refl _, fits.stops, fits.stops⟩)
    · exact later

theorem keeps_requiredColumn (stars : Bool) : Keeps (requiredColumn stars) := by
  refine .bind (keeps_column? stars) fun column? => ?_
  split
  · exact .pure
  · exact .bind (keeps_expected _) fun _ => .pure

theorem keeps_columnOperand (stars : Bool) : Keeps (columnOperand stars) := by
  refine .bind (keeps_requiredColumn stars) fun column? => ?_
  split <;> exact .pure

theorem keeps_source? (kind : SourceKind) : Keeps (source? kind) := by
  intro s sound
  unfold source?
  simp only [ensures_get, ensures_tokens]
  split
  · exact sound
  · rename_i name length incomplete run
    obtain ⟨first, others, rest, front, rfl, _⟩ := sourceRun?_append run
    have fits := sound.fits_skip front others.length
    have later := sound.skip (others.length + 1)
    have source : (s.skip (others.length + 1)).source = s.source :=
      (follows_skip s _).source
    simp only [ensures_skip, ensures_extent, Reading.nextStart, front]
    split
    · simp only [ensures_record, ensures_pure]
      exact later.record (source ▸ fits)
    · exact later

/-! ## Expressions -/

theorem keeps_binaryNode (name : String) (left : Expr) (right : Option Expr) :
    Keeps (binaryNode name left right) :=
  .bind (keeps_extent _ _) fun _ => .pure

theorem keeps_nullTest (operand : Expr) : Keeps (nullTest operand) := by
  refine .bind (keeps_accept _) fun negated => .bind (keeps_accept _) fun complete => ?_
  cases complete with
  | false => exact .bind (keeps_expected .null) fun _ => .bind (keeps_extent _ _) fun _ => .pure
  | true => exact .bind (keeps_extent _ _) fun _ => .pure

theorem keeps_literal (kind : LiteralKind) (value : String) (incomplete : Bool) :
    Keeps (literal kind value incomplete) :=
  .bind keeps_get fun _ => .bind keeps_advance fun _ => .bind (keeps_extent _ _) fun _ => .pure

theorem keeps_literalExpr? (kind : LiteralKind) (value : String) (incomplete : Bool) :
    Keeps (literalExpr? kind value incomplete) :=
  .bind (keeps_literal kind value incomplete) fun _ => .pure

theorem keeps_integerExpr? (token : Token) (rest : List Token) :
    Keeps (integerExpr? token rest) := by
  unfold integerExpr?
  split
  · split
    · exact .bind (.bind (keeps_skip 2) fun _ => .bind (keeps_extent _ _) fun _ => .pure)
        fun _ => .pure
    · exact keeps_literalExpr? _ _ _
  · exact keeps_literalExpr? _ _ _

/-- A string without its end is told of at the string. -/
theorem keepsAt_stringExpr? {s : Reading} {token : Token} {rest : List Token}
    (front : s.rest = token :: rest) (value : String) (terminated : Bool) :
    KeepsAt (stringExpr? token value terminated) s := by
  intro sound
  unfold stringExpr?
  cases terminated with
  | true => exact keeps_literalExpr? _ _ _ s sound
  | false => exact keeps_literalExpr? _ _ _ _ (sound.record (sound.ready.head front).1.fits)

theorem keeps_unaryNode (sign : Token) (name : String) (operand : Option Expr) :
    Keeps (unaryNode sign name operand) := by
  unfold unaryNode
  split
  · exact .bind keeps_get fun _ => .pure
  · exact .bind (keeps_extent _ _) fun _ => .pure

theorem keeps_castType : Keeps castType := by
  refine .bind keeps_tokens fun tokens => ?_
  split
  · exact .bind keeps_advance fun _ => .pure
  · exact .bind (keeps_expected _) fun _ => .pure

theorem keeps_castsFrom (bound : Nat) (value : Expr) : Keeps (castsFrom bound value) := by
  induction bound generalizing value with
  | zero => exact .pure
  | succ bound ih =>
      unfold castsFrom
      split
      · exact .pure
      · refine .bind (keeps_accept _) fun found => ?_
        split
        · exact .bind keeps_castType fun _ => .bind (keeps_extent _ _) fun _ => ih _
        · exact .pure

theorem keeps_columnExpr? : Keeps columnExpr? := by
  refine .bind (keeps_column? false) fun column? => ?_
  split <;> exact .pure

theorem keeps_closeGroup (inner? : Option Expr) : Keeps (closeGroup inner?) := by
  unfold closeGroup
  split
  · exact .pure
  · split
    · exact .pure
    · refine .bind (keeps_accept _) fun closed => ?_
      split
      · exact .pure
      · exact .bind (keeps_expected _) fun _ => .pure

/-- The rules for expressions keep errors in their places under one bound. -/
structure KeepsExpressions (bound : Nat) : Prop where
  binary : ∀ power, Keeps (binary bound power)
  operatorsFrom : ∀ power left, Keeps (operatorsFrom bound power left)
  unary : Keeps (unary bound)
  memberList : Keeps (memberList bound)
  listing : ∀ close starred, Keeps (listing bound close starred)
  itemsFrom : ∀ close starred, Keeps (itemsFrom bound close starred)
  primary : Keeps (primary bound)

theorem keeps_missing {α : Type} (what : Expectation) : Keeps (do
    expected what
    pure (none : Option α)) :=
  .bind (keeps_expected what) fun _ => .pure

namespace KeepsExpressions

variable {bound : Nat} (inner : KeepsExpressions bound)

include inner

theorem binary_succ (power : Nat) : Keeps (Grammar.binary (bound + 1) power) := by
  unfold Grammar.binary
  refine .bind inner.unary fun left? => ?_
  split
  · exact .pure
  · exact .bind (inner.operatorsFrom power _) fun _ => .pure

theorem operatorsFrom_succ (power : Nat) (left : Expr) :
    Keeps (Grammar.operatorsFrom (bound + 1) power left) := by
  unfold Grammar.operatorsFrom
  refine .bind keeps_tokens fun tokens => ?_
  split
  · exact .pure
  · rename_i operator _
    have goOn : ∀ applied, Keeps (Grammar.operatorsFrom bound power applied) :=
      inner.operatorsFrom power
    split
    · exact .pure
    · refine .bind (keeps_skip _) fun _ => ?_
      split
      · exact .bind (inner.binary _) fun right => .bind (keeps_binaryNode _ left right) goOn
      · exact .bind inner.memberList fun right => .bind (keeps_binaryNode _ left right) goOn
      · exact .bind (keeps_nullTest left) goOn

theorem unary_succ : Keeps (Grammar.unary (bound + 1)) := by
  unfold Grammar.unary
  refine .bind keeps_tokens fun tokens => ?_
  split
  · exact keeps_missing _
  · split
    · exact .bind keeps_advance fun _ => .bind (inner.binary _) fun operand =>
        .bind (keeps_unaryNode _ _ operand) fun _ => .pure
    · refine .bind inner.primary fun value? => ?_
      split
      · exact .pure
      · exact .bind keeps_tokens fun _ => .bind (keeps_castsFrom _ _) fun _ => .pure

theorem memberList_succ : Keeps (Grammar.memberList (bound + 1)) := by
  unfold Grammar.memberList
  refine .bind (keeps_accept? _) fun opening? => ?_
  split
  · exact keeps_missing _
  · exact .bind (inner.listing _ _) fun _ => .bind (keeps_extent _ _) fun _ => .pure

theorem listing_succ (close : TokenKind) (starred : Bool) :
    Keeps (Grammar.listing (bound + 1) close starred) := by
  unfold Grammar.listing
  refine .bind (keeps_accept close) fun closed => ?_
  split
  · exact .pure
  · exact inner.itemsFrom close starred

/-- What is read of a listing behind one of its items. -/
theorem itemsFrom_rest (close : TokenKind) (starred : Bool) (item : Option Expr) :
    Keeps (do
      match item with
      | none => pure .halted
      | some item =>
          if item.incomplete then pure (.one item true)
          else if ← accept .comma then
            pure ((Parts.one item false).append (← Grammar.itemsFrom bound close starred))
          else if ← accept close then pure (.one item false)
          else
            expected (afterItem close)
            pure (.one item true)) := by
  split
  · exact .pure
  · split
    · exact .pure
    · refine .bind (keeps_accept _) fun comma => ?_
      split
      · exact .bind (inner.itemsFrom close starred) fun _ => .pure
      · refine .bind (keeps_accept _) fun closed => ?_
        split
        · exact .pure
        · exact .bind (keeps_expected _) fun _ => .pure

theorem itemsFrom_succ (close : TokenKind) (starred : Bool) :
    Keeps (Grammar.itemsFrom (bound + 1) close starred) := by
  have wholeRow : Keeps wholeRow :=
    .bind keeps_get fun _ => .bind keeps_advance fun _ => .bind (keeps_extent _ _) fun _ => .pure
  unfold Grammar.itemsFrom
  refine .bind keeps_tokens fun tokens => ?_
  split
  · exact .bind wholeRow fun row => inner.itemsFrom_rest close starred (some row)
  · exact .bind (inner.binary Power.or) (inner.itemsFrom_rest close starred)

theorem primaryAt_succ {s : Reading} {token : Token} {rest : List Token}
    (front : s.rest = token :: rest) : KeepsAt (primaryAt bound token rest) s := by
  unfold primaryAt
  split
  case h_1 => exact keeps_integerExpr? _ _ s
  case h_3 => exact keepsAt_stringExpr? front _ _
  case h_8 =>
    exact Keeps.bind keeps_advance (fun _ => .bind (inner.listing _ _) fun _ =>
      .bind (keeps_extent _ _) fun _ => .pure) s
  case h_9 => exact Keeps.bind keeps_advance (fun _ => .bind (inner.binary _) keeps_closeGroup) s
  case h_10 => exact keeps_columnExpr? s
  case h_11 =>
    unfold callExpr?
    split
    · exact Keeps.bind (keeps_skip 2) (fun _ => .bind (inner.listing _ _) fun _ =>
        .bind (keeps_extent _ _) fun _ => .pure) s
    · exact keeps_columnExpr? s
  case h_12 => exact keeps_missing _ s
  all_goals exact keeps_literalExpr? _ _ _ s

theorem primary_succ : Keeps (Grammar.primary (bound + 1)) := by
  intro s sound
  rw [primary_eq]
  simp only [ensures_tokens]
  split
  · exact keeps_missing _ s sound
  · rename_i token rest front
    exact inner.primaryAt_succ front sound

end KeepsExpressions

theorem keepsExpressions (bound : Nat) : KeepsExpressions bound := by
  induction bound with
  | zero =>
      exact {
        binary := fun _ => keeps_missing _
        operatorsFrom := fun _ _ => .pure
        unary := keeps_missing _
        memberList := keeps_missing _
        listing := fun _ _ => keeps_halt _
        itemsFrom := fun _ _ => keeps_halt _
        primary := keeps_missing _ }
  | succ bound inner =>
      exact {
        binary := inner.binary_succ
        operatorsFrom := inner.operatorsFrom_succ
        unary := inner.unary_succ
        memberList := inner.memberList_succ
        listing := inner.listing_succ
        itemsFrom := inner.itemsFrom_succ
        primary := inner.primary_succ }

theorem keeps_expression : Keeps expression :=
  .bind keeps_tokens fun _ => (keepsExpressions _).binary Power.or

theorem keeps_operand {rule : Rule (Option Expr)} (keeps : Keeps rule) : Keeps (operand rule) := by
  refine .bind keeps fun expr? => ?_
  split <;> exact .pure

end Esql.Grammar
