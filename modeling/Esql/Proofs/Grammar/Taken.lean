import Esql.Proofs.Traced.Basic

/-!
# What kinds of tokens a rule reads

A rule that reads only tokens of some kinds does so wherever it is used. Names are read from words,
points and stars. Expressions are read from anything but the words that open the clauses of a
command, so such a word ends an expression.
-/

namespace Esql.Grammar

/-- Only tokens of some kinds are read from one state to another. -/
def Takes (among : TokenKind → Prop) (s t : Reading) : Prop :=
  ∃ read, Leads s read t ∧ ∀ token ∈ read, among token.kind

namespace Takes

variable {among : TokenKind → Prop} {s u t : Reading}

theorem refl (s : Reading) : Takes among s s := ⟨[], .refl s, List.forall_mem_nil _⟩

theorem trans (front : Takes among s u) (back : Takes among u t) : Takes among s t := by
  obtain ⟨first, leads, taken⟩ := front
  obtain ⟨second, further, more⟩ := back
  exact ⟨first ++ second, leads.trans further, List.forall_mem_append.mpr ⟨taken, more⟩⟩

theorem record (s : Reading) (error : SyntaxError) : Takes among s (s.record error) :=
  ⟨[], .record s error, List.forall_mem_nil _⟩

theorem skip {read rest : List Token} (front : s.rest = read ++ rest)
    (taken : ∀ token ∈ read, among token.kind) : Takes among s (s.skip read.length) := by
  have leads := leads_skip s read.length
  rw [front, List.take_left] at leads
  exact ⟨read, leads, taken⟩

theorem advance {token : Token} {rest : List Token} (front : s.rest = token :: rest)
    (taken : among token.kind) : Takes among s s.advance :=
  ⟨[token], .advance front, List.forall_mem_singleton.mpr taken⟩

end Takes

/-- A rule that reads only tokens of some kinds, wherever it starts. -/
def TakesOnly {α : Type} (among : TokenKind → Prop) (rule : Rule α) : Prop :=
  ∀ s, Ensures rule s fun _ t => Takes among s t

namespace TakesOnly

variable {α β : Type} {among : TokenKind → Prop} {rule : Rule α} {next : α → Rule β}

theorem pure (x : α) : TakesOnly among (pure x) := fun s => .refl s

theorem bind (first : TakesOnly among rule) (second : ∀ x, TakesOnly among (next x)) :
    TakesOnly among (rule >>= next) := by
  intro s
  refine (first s).bind ?_
  intro x u front
  exact (second x u).mono fun _ _ back => front.trans back

theorem get {next : Reading → Rule β} (second : ∀ s, TakesOnly among (next s)) :
    TakesOnly among (MonadState.get >>= next) := fun s => second s s

theorem tokens {next : List Token → Rule β} (second : ∀ tokens, TakesOnly among (next tokens)) :
    TakesOnly among (tokens >>= next) := fun s => second s.rest s

theorem extent (start : Nat) (incomplete : Bool) : TakesOnly among (extent start incomplete) :=
  fun s => .refl s

theorem record (fault : SyntaxFault) (span : Span) : TakesOnly among (record fault span) :=
  fun s => .record s _

theorem expected (what : Expectation) : TakesOnly among (expected what) := fun s => .record s _

theorem accept {kind : TokenKind} (taken : among kind) : TakesOnly among (accept kind) := by
  intro s
  have read : Ensures (Grammar.accept kind >>= Pure.pure) s fun _ t => Takes among s t := by
    refine ensures_accept ?_ (.refl s)
    intro token rest front found
    exact .advance front (found ▸ taken)
  exact read

theorem accept? {kind : TokenKind} (taken : among kind) : TakesOnly among (accept? kind) := by
  intro s
  have read : Ensures (Grammar.accept? kind >>= Pure.pure) s fun _ t => Takes among s t := by
    refine ensures_accept? ?_ (.refl s)
    intro token rest front found
    exact .advance front (found ▸ taken)
  exact read

theorem halt (what : Expectation) : TakesOnly among (halt what : Rule (Parts α)) :=
  (expected what).bind fun _ => .pure _

theorem andThen {first second : Rule (Parts α)} (here : TakesOnly among first)
    (there : TakesOnly among second) : TakesOnly among (andThen first second) := by
  refine here.bind fun read => ?_
  split
  · exact there.bind fun _ => .pure _
  · exact .pure _

theorem separated {item : Rule (Parts α)} (here : TakesOnly among item) (comma : among .comma) :
    TakesOnly among (separated item) := by
  refine .tokens fun tokens => ?_
  generalize tokens.length + 1 = bound
  induction bound with
  | zero => exact .halt .expression
  | succ bound ih =>
      refine .andThen here ((accept comma).bind fun more => ?_)
      split
      · exact ih
      · exact .pure _

end TakesOnly

/-! ## Names -/

section

variable {among : TokenKind → Prop} {stars : Bool}
  (names : ∀ kind, continuesColumn stars kind = true → among kind)

include names

theorem takes_column? : TakesOnly among (column? stars) := by
  intro s
  unfold column?
  rw [ensures_tokens]
  split
  · exact .refl s
  · rename_i first others run
    obtain ⟨⟨rest, front⟩, -, -, continues⟩ := columnRun_joined run
    have taken : Takes among s (s.skip (first :: others).length) :=
      .skip front fun token member => names _ (continues token member)
    rw [ensures_skip]
    refine Ensures.mono ?_ fun _ _ later => taken.trans later
    refine TakesOnly.bind (.extent _ _) (fun extent => ?_) _
    split
    · exact (TakesOnly.record _ _).bind fun _ => .pure _
    split
    · exact (TakesOnly.record _ _).bind fun _ => .pure _
    · exact .pure _

theorem takes_requiredColumn : TakesOnly among (requiredColumn stars) := by
  refine (takes_column? names).bind fun column? => ?_
  split
  · exact .pure _
  · exact (TakesOnly.expected _).bind fun _ => .pure _

theorem takes_columnOperand : TakesOnly among (columnOperand stars) := by
  refine (takes_requiredColumn names).bind fun column? => ?_
  split <;> exact .pure _

end

/-! ## Expressions -/

/-- The reserved words that open a clause of a command that reads a source. -/
def opensClause : TokenKind → Bool
  | .keyword .metadata | .keyword .on | .keyword .with => true
  | _ => false

/-- A kind of token that may stand in an expression. -/
def IsInner (kind : TokenKind) : Prop := opensClause kind = false

theorem isInner_of_continuesColumn {stars : Bool} (kind : TokenKind)
    (continues : continuesColumn stars kind = true) : IsInner kind := by
  cases kind with
  | keyword word => cases stars <;> cases continues
  | _ => rfl

theorem IsSymbol.isInner {kind : TokenKind} (symbol : IsSymbol kind) : IsInner kind := by
  rcases symbol with ⟨operator, found⟩ | ⟨word, member, rfl⟩
  · cases kind with
    | keyword word => cases found
    | _ => rfl
  · have all : operatorWords.all (fun word => !opensClause (.keyword word)) = true := by decide
    have closed := List.all_eq_true.mp all word member
    rwa [Bool.not_eq_true'] at closed

theorem takes_accept {kind : TokenKind} (inner : opensClause kind = false) :
    TakesOnly IsInner (accept kind) := .accept inner

theorem takes_operator {s : Reading} {operator : Operator}
    (found : operator? s.rest = some operator) : Takes IsInner s (s.skip operator.width) := by
  obtain ⟨first, others, rest, front, width, symbols⟩ := operator?_append found
  have inner : ∀ token ∈ first :: others, IsInner token.kind :=
    fun token member => (symbols token member).isInner
  rw [width]
  exact Takes.skip front inner

theorem takes_binaryNode (name : String) (left : Expr) (right : Option Expr) :
    TakesOnly IsInner (binaryNode name left right) :=
  (TakesOnly.extent _ _).bind fun _ => .pure _

theorem takes_nullTest (operand : Expr) : TakesOnly IsInner (nullTest operand) := by
  refine (takes_accept rfl).bind fun negated => (takes_accept rfl).bind fun complete => ?_
  have node : TakesOnly IsInner (do
      let extent ← extent operand.span.start (!complete)
      pure (Expr.apply (if negated then "is not null" else "is null") .trailing [operand]
        extent)) :=
    (TakesOnly.extent _ _).bind fun _ => .pure _
  cases complete with
  | true => exact node
  | false => exact (TakesOnly.expected _).bind fun _ => node

theorem takes_castsFrom (bound : Nat) (value : Expr) :
    TakesOnly IsInner (castsFrom bound value) := by
  have type : TakesOnly IsInner castType := by
    intro s
    unfold castType
    rw [ensures_tokens]
    split
    · rename_i name found
      obtain ⟨token, first, named⟩ := Option.bind_eq_some_iff.mp found
      obtain ⟨rest, front⟩ := List.head?_eq_some_iff.mp first
      refine Takes.advance front ?_
      cases kind : token.kind <;> rw [kind] at named <;> first | rfl | cases named
    · exact .record s _
  induction bound generalizing value with
  | zero => exact .pure _
  | succ bound ih =>
      unfold castsFrom
      split
      · exact .pure _
      · refine (takes_accept rfl).bind fun more => ?_
        split
        · exact type.bind fun target? => (TakesOnly.extent _ _).bind fun extent => ih _
        · exact .pure _

theorem takes_unaryNode (sign : Token) (name : String) (operand : Option Expr) :
    TakesOnly IsInner (unaryNode sign name operand) := by
  unfold unaryNode
  split
  · exact .get fun _ => .pure _
  · exact (TakesOnly.extent _ _).bind fun _ => .pure _

theorem isInner_of_unaryOperator? {kind : TokenKind} {operator : String × Nat}
    (found : unaryOperator? kind = some operator) : IsInner kind := by
  unfold unaryOperator? at found
  split at found <;> first | rfl | cases found

section

variable {s : Reading} {token : Token} {rest : List Token} (front : s.rest = token :: rest)

include front

theorem takes_literalExpr? (inner : IsInner token.kind) (kind : LiteralKind) (value : String)
    (incomplete : Bool) :
    Ensures (literalExpr? kind value incomplete) s fun _ t => Takes IsInner s t :=
  .advance front inner

theorem takes_integerExpr? (integer : token.kind = .integer) :
    Ensures (integerExpr? token rest) s fun _ t => Takes IsInner s t := by
  have inner : IsInner token.kind := by
    rw [integer]
    rfl
  unfold integerExpr?
  split
  · rename_i unit others
    split
    · rename_i word
      have second : IsInner unit.kind := by
        cases kind : unit.kind <;> rw [kind] at word <;> first | rfl | cases word
      have both : ∀ other ∈ [token, unit], IsInner other.kind :=
        List.forall_mem_cons.mpr ⟨inner, List.forall_mem_singleton.mpr second⟩
      exact Takes.skip front both
    · exact takes_literalExpr? front inner _ _ _
  · exact takes_literalExpr? front inner _ _ _

theorem takes_stringExpr? {value : String} {terminated : Bool}
    (kind : token.kind = .string value terminated) :
    Ensures (stringExpr? token value terminated) s fun _ t => Takes IsInner s t := by
  have inner : IsInner token.kind := by
    rw [kind]
    rfl
  cases terminated with
  | true => exact takes_literalExpr? front inner _ _ _
  | false =>
      have recorded : Takes IsInner s (s.record ⟨.unterminatedString, token.span⟩) := .record s _
      exact recorded.trans (.advance front inner)

end

theorem takes_columnExpr? : TakesOnly IsInner columnExpr? := by
  refine (takes_column? isInner_of_continuesColumn).bind fun column? => ?_
  split <;> exact .pure _

theorem takes_closeGroup (inner? : Option Expr) : TakesOnly IsInner (closeGroup inner?) := by
  unfold closeGroup
  split
  · exact .pure _
  · split
    · exact .pure _
    · refine (takes_accept rfl).bind fun closed => ?_
      split
      · exact .pure _
      · exact (TakesOnly.expected _).bind fun _ => .pure _

theorem takes_nothing (what : Expectation) :
    TakesOnly IsInner (do expected what; pure (none : Option Expr)) :=
  (TakesOnly.expected what).bind fun _ => .pure _

/-- What the rules for expressions read under one bound. -/
structure ExpressionsTake (bound : Nat) : Prop where
  binary : ∀ power, TakesOnly IsInner (binary bound power)
  operatorsFrom : ∀ power left, TakesOnly IsInner (operatorsFrom bound power left)
  unary : TakesOnly IsInner (unary bound)
  memberList : TakesOnly IsInner (memberList bound)
  listing : ∀ close starred, IsInner close → TakesOnly IsInner (listing bound close starred)
  itemsFrom : ∀ close starred, IsInner close → TakesOnly IsInner (itemsFrom bound close starred)
  primary : TakesOnly IsInner (primary bound)

namespace ExpressionsTake

variable {bound : Nat} (inner : ExpressionsTake bound)

include inner

theorem binary_succ (power : Nat) : TakesOnly IsInner (Grammar.binary (bound + 1) power) := by
  unfold Grammar.binary
  refine inner.unary.bind fun left? => ?_
  split
  · exact .pure _
  · exact (inner.operatorsFrom power _).bind fun _ => .pure _

theorem operatorsFrom_succ (power : Nat) (left : Expr) :
    TakesOnly IsInner (Grammar.operatorsFrom (bound + 1) power left) := by
  intro s
  unfold Grammar.operatorsFrom
  rw [ensures_tokens]
  split
  · exact .refl s
  rename_i operator found
  split
  · exact .refl s
  rw [ensures_skip]
  refine Ensures.mono ?_ fun _ _ later => (takes_operator found).trans later
  have again (rule : Rule Expr) (applied : TakesOnly IsInner rule) :
      TakesOnly IsInner (do Grammar.operatorsFrom bound power (← rule)) :=
    applied.bind fun x => inner.operatorsFrom power x
  split
  · exact again _ ((inner.binary _).bind fun _ => takes_binaryNode _ _ _) _
  · exact again _ (inner.memberList.bind fun _ => takes_binaryNode _ _ _) _
  · exact again _ (takes_nullTest left) _

theorem unary_succ : TakesOnly IsInner (Grammar.unary (bound + 1)) := by
  intro s
  unfold Grammar.unary
  rw [ensures_tokens]
  split
  · exact takes_nothing .expression s
  rename_i token rest front
  split
  · rename_i name power sign
    have taken : Takes IsInner s s.advance := .advance front (isInner_of_unaryOperator? sign)
    rw [ensures_advance]
    refine Ensures.mono ?_ fun _ _ later => taken.trans later
    exact TakesOnly.bind (inner.binary power) (fun operand =>
      (takes_unaryNode token name operand).bind fun _ => .pure _) _
  · refine TakesOnly.bind inner.primary (fun value? => ?_) s
    split
    · exact .pure _
    · exact .tokens fun tokens => (takes_castsFrom _ _).bind fun _ => .pure _

theorem memberList_succ : TakesOnly IsInner (Grammar.memberList (bound + 1)) := by
  have opening : IsInner .openParen := rfl
  unfold Grammar.memberList
  refine TakesOnly.bind (.accept? opening) fun opening? => ?_
  split
  · exact takes_nothing .openParen
  · exact (inner.listing .closeParen false rfl).bind fun items =>
      (TakesOnly.extent _ _).bind fun _ => .pure _

theorem listing_succ (close : TokenKind) (starred : Bool) (closes : IsInner close) :
    TakesOnly IsInner (Grammar.listing (bound + 1) close starred) := by
  unfold Grammar.listing
  refine (TakesOnly.accept closes).bind fun closed => ?_
  split
  · exact .pure _
  · exact inner.itemsFrom close starred closes

/-- What is read of a listing behind one of its items. -/
theorem itemsFrom_rest (close : TokenKind) (starred : Bool) (item : Option Expr)
    (closes : IsInner close) :
    TakesOnly IsInner (do
      match item with
      | none => pure .halted
      | some item =>
          if item.incomplete then pure (.one item true)
          else if ← accept .comma then
            pure ((Parts.one item false).append (← Grammar.itemsFrom bound close starred))
          else if ← accept close then pure (.one item false)
          else
            expected (afterItem close)
            pure (.one item true)) := by
  split
  · exact .pure _
  split
  · exact .pure _
  refine (takes_accept rfl).bind fun comma => ?_
  split
  · exact (inner.itemsFrom close starred closes).bind fun _ => .pure _
  refine (TakesOnly.accept closes).bind fun closed => ?_
  split
  · exact .pure _
  · exact (TakesOnly.expected _).bind fun _ => .pure _

theorem itemsFrom_succ (close : TokenKind) (starred : Bool) (closes : IsInner close) :
    TakesOnly IsInner (Grammar.itemsFrom (bound + 1) close starred) := by
  have behind (item : Option Expr) := inner.itemsFrom_rest close starred item closes
  intro s
  unfold Grammar.itemsFrom
  rw [ensures_tokens]
  split
  · rename_i row
    obtain ⟨-, whole⟩ := Bool.and_eq_true_iff.mp row
    have taken : Ensures wholeRow s fun _ t => Takes IsInner s t := by
      unfold isWholeRow at whole
      split at whole
      · rename_i star close others front
        refine Takes.advance front ?_
        rw [beq_iff_eq.mp (Bool.and_eq_true_iff.mp whole).1]
        rfl
      · cases whole
    refine taken.bind fun x u front => ?_
    exact (behind (some x) u).mono fun _ _ later => front.trans later
  · exact TakesOnly.bind (inner.binary Power.or) behind s

theorem listExpr?_takes {s : Reading} {token : Token} {rest : List Token}
    (front : s.rest = token :: rest) (opens : token.kind = .openBracket) :
    Ensures (listExpr? bound token) s fun _ t => Takes IsInner s t := by
  have taken : Takes IsInner s s.advance := .advance front (by rw [opens]; rfl)
  unfold listExpr?
  rw [ensures_advance]
  refine Ensures.mono ?_ fun _ _ later => taken.trans later
  exact TakesOnly.bind (inner.listing .closeBracket false rfl) (fun items =>
    (TakesOnly.extent _ _).bind fun _ => .pure _) _

theorem groupExpr?_takes {s : Reading} {token : Token} {rest : List Token}
    (front : s.rest = token :: rest) (opens : token.kind = .openParen) :
    Ensures (groupExpr? bound) s fun _ t => Takes IsInner s t := by
  have taken : Takes IsInner s s.advance := .advance front (by rw [opens]; rfl)
  unfold groupExpr?
  rw [ensures_advance]
  refine Ensures.mono ?_ fun _ _ later => taken.trans later
  exact TakesOnly.bind (inner.binary Power.or) takes_closeGroup _

theorem callExpr?_takes {s : Reading} {token : Token} {rest : List Token} {name : String}
    (front : s.rest = token :: rest) (word : token.kind = .word name) :
    Ensures (callExpr? bound token rest) s fun _ t => Takes IsInner s t := by
  unfold callExpr?
  split
  · rename_i call
    obtain ⟨opening, others, rfl, found⟩ := exists_cons_of_head? call
    have both : ∀ other ∈ [token, opening], IsInner other.kind := by
      refine List.forall_mem_cons.mpr ⟨?_, List.forall_mem_singleton.mpr ?_⟩
      · rw [word]
        rfl
      · rw [beq_iff_eq.mp found]
        rfl
    have taken : Takes IsInner s (s.skip 2) := .skip front both
    rw [ensures_skip]
    refine Ensures.mono ?_ fun _ _ later => taken.trans later
    exact TakesOnly.bind (inner.listing .closeParen true rfl) (fun args =>
      (TakesOnly.extent _ _).bind fun _ => .pure _) _
  · exact takes_columnExpr? s

theorem primary_succ : TakesOnly IsInner (Grammar.primary (bound + 1)) := by
  intro s
  rw [primary_eq, ensures_tokens]
  split
  · exact takes_nothing .expression s
  rename_i token rest front
  have literal {kind : TokenKind} (found : token.kind = kind) (other : IsInner kind) :=
    takes_literalExpr? front (found ▸ other)
  unfold primaryAt
  split
  case h_1 kind => exact takes_integerExpr? front kind
  case h_2 kind => exact literal kind rfl _ _ _
  case h_3 value terminated kind => exact takes_stringExpr? front kind
  case h_4 kind => exact literal kind rfl _ _ _
  case h_5 kind => exact literal kind rfl _ _ _
  case h_6 kind => exact literal kind rfl _ _ _
  case h_7 name kind => exact literal kind rfl _ _ _
  case h_8 kind => exact inner.listExpr?_takes front kind
  case h_9 kind => exact inner.groupExpr?_takes front kind
  case h_10 => exact takes_columnExpr? s
  case h_11 name kind => exact inner.callExpr?_takes front kind
  case h_12 => exact takes_nothing .expression s

end ExpressionsTake

theorem expressionsTake (bound : Nat) : ExpressionsTake bound := by
  induction bound with
  | zero =>
      exact {
        binary := fun _ => takes_nothing .expression
        operatorsFrom := fun _ left => .pure left
        unary := takes_nothing .expression
        memberList := takes_nothing .openParen
        listing := fun _ _ _ => .halt .expression
        itemsFrom := fun _ _ _ => .halt .expression
        primary := takes_nothing .expression }
  | succ bound inner =>
      exact {
        binary := inner.binary_succ
        operatorsFrom := inner.operatorsFrom_succ
        unary := inner.unary_succ
        memberList := inner.memberList_succ
        listing := inner.listing_succ
        itemsFrom := inner.itemsFrom_succ
        primary := inner.primary_succ }

/-- An expression holds no word that opens a clause. -/
theorem takes_expression : TakesOnly IsInner expression :=
  .tokens fun _ => (expressionsTake _).binary Power.or

theorem takes_operand {among : TokenKind → Prop} {rule : Rule (Option Expr)}
    (taken : TakesOnly among rule) : TakesOnly among (operand rule) := by
  refine taken.bind fun expr? => ?_
  split <;> exact .pure _

theorem takes_field? : TakesOnly IsInner field? := by
  intro s
  have name : TakesOnly IsInner (requiredColumn false) :=
    takes_requiredColumn isInner_of_continuesColumn
  unfold field?
  rw [ensures_tokens]
  split
  · rename_i ahead
    refine ((name s).and (requiredColumn_assignment ahead)).bind ?_
    rintro target? u ⟨taken, behind⟩
    cases target? with
    | none => exact taken
    | some target =>
        obtain ⟨equals, rest, front, kind⟩ := behind rfl
        have named : Takes IsInner s u.advance :=
          taken.trans (.advance front (by rw [kind]; rfl))
        simp only [ensures_advance]
        refine (takes_expression u.advance).bind ?_
        intro value t later
        exact named.trans later
  · exact takes_expression s

end Esql.Grammar
