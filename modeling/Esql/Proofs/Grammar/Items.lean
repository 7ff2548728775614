import Esql.Proofs.Grammar.Level
import Esql.Proofs.Traced.Basic

/-!
# The tokens of items

Whatever a rule for expressions reads of an expression that is complete are the tokens of an item.
So a listing that is closed is made of items and the commas between them, and a listing that is not
closed breaks off behind an item or misses one. All rules are looked at together, by induction on
the bound of the recursion.
-/

namespace Esql.Grammar

/-- The expression is complete or a literal. A literal that is marked as incomplete may lack a
parenthesis around it or its own end, but no part. -/
def Ended (expr : Expr) : Prop := expr.incomplete = false ∨ expr.literal?.isSome = true

/-- Tokens that close no more than they open, without commas of their own, lead to a state. -/
def Through (s t : Reading) : Prop := ∃ read, Leads s read t ∧ Settled read 0

/-- The tokens of an item lead to a state. -/
def PastItem (s t : Reading) : Prop := ∃ read, Leads s read t ∧ IsItem read

/-- An expression that ended was read from the tokens of an item. Of one that is missing no more
than opening parentheses were read. -/
structure ReadItem (s : Reading) (x : Option Expr) (read : List Token) (t : Reading) : Prop where
  leads : Leads s read t
  opens : x.isNone = true → ∀ token ∈ read, token.kind = .openParen
  item : ∀ expr ∈ x, Ended expr → IsItem read

/-- What a rule reads of an expression satisfies `ReadItem`. -/
def ItemRead (s : Reading) (x : Option Expr) (t : Reading) : Prop := ∃ read, ReadItem s x read t

section

variable {s u t : Reading} {x : Option Expr} {left expr : Expr} {token : Token} {rest : List Token}

theorem PastItem.through (past : PastItem s t) : Through s t := by
  obtain ⟨read, leads, item⟩ := past
  exact ⟨read, leads, item.settled⟩

theorem Through.trans (before : Through s u) (behind : Through u t) : Through s t := by
  obtain ⟨front, first, settled⟩ := before
  obtain ⟨read, second, later⟩ := behind
  exact ⟨front ++ read, first.trans second, settled.append later⟩

theorem PastItem.itemRead (past : PastItem s t) : ItemRead s (some expr) t := by
  obtain ⟨read, leads, item⟩ := past
  exact ⟨read, leads, Bool.noConfusion, fun _ _ _ => item⟩

theorem PastItem.behind (before : Through s u) (past : PastItem u t) : PastItem s t := by
  obtain ⟨front, first, settled⟩ := before
  obtain ⟨read, second, item⟩ := past
  exact ⟨front ++ read, first.trans second, .append settled item⟩

theorem pastItem_one (front : s.rest = token :: rest) (plain : isDelimiter token.kind = false) :
    PastItem s s.advance :=
  ⟨[token], .advance front,
    .of_plain (List.cons_ne_nil token []) (List.forall_mem_singleton.mpr plain)⟩

theorem through_record (s : Reading) (error : SyntaxError) : Through s (s.record error) :=
  ⟨[], .record s error, .nil⟩

theorem ItemRead.past (read : ItemRead s (some expr) t) (ended : Ended expr) : PastItem s t := by
  obtain ⟨tokens, here⟩ := read
  exact ⟨tokens, here.leads, here.item expr rfl ended⟩

theorem itemRead_none (leads : Leads s [] t) : ItemRead s none t :=
  ⟨[], leads, fun _ => List.forall_mem_nil _, fun _ absent => absurd absent (Option.not_mem_none _)⟩

/-- An expression that is complete only with its last part was read of an item. -/
theorem ItemRead.behind (before : Through s u) (read : ItemRead u x t)
    (ends : Ended expr → ∃ part ∈ x, Ended part) : ItemRead s (some expr) t := by
  obtain ⟨front, first, settled⟩ := before
  obtain ⟨tokens, here⟩ := read
  refine ⟨front ++ tokens, first.trans here.leads, Bool.noConfusion, ?_⟩
  rintro _ ⟨⟩ ended
  obtain ⟨part, member, whole⟩ := ends ended
  exact .append settled (here.item part member whole)

/-- An expression is complete if it ended and is no literal. -/
theorem Ended.complete (ended : Ended expr) (other : expr.literal? = none) :
    expr.incomplete = false := by
  refine ended.resolve_right ?_
  rw [other]
  exact Bool.false_ne_true

/-- What was read of an expression that did not end does not matter. -/
theorem Follows.itemRead (follows : Follows s t) (broken : ¬ Ended expr) :
    ItemRead s (some expr) t := by
  obtain ⟨read, leads⟩ := follows
  refine ⟨read, leads, Bool.noConfusion, ?_⟩
  rintro _ ⟨⟩ ended
  exact absurd ended broken

theorem exists_ended (finished : isUnfinished x = false) : ∃ part ∈ x, Ended part := by
  cases x with
  | none => cases finished
  | some part => exact ⟨part, rfl, .inl finished⟩

/-! ## Tokens that make no level -/

theorem isDelimiter_of_isSymbol {kind : TokenKind} (symbol : IsSymbol kind) :
    isDelimiter kind = false := by
  rcases symbol with ⟨operator, found⟩ | ⟨word, -, rfl⟩
  · cases kind <;> first | rfl | cases found
  · rfl

theorem isDelimiter_of_isName {kind : TokenKind} (name : kind.isName = true) :
    isDelimiter kind = false := by
  cases kind <;> first | rfl | cases name

theorem isDelimiter_of_continuesColumn {stars : Bool} {kind : TokenKind}
    (continues : continuesColumn stars kind = true) : isDelimiter kind = false := by
  cases kind <;> first | rfl | (cases stars <;> cases continues)

theorem isDelimiter_of_unaryOperator? {kind : TokenKind} {operator : String × Nat}
    (found : unaryOperator? kind = some operator) : isDelimiter kind = false := by
  cases kind <;> first | rfl | cases found

theorem through_operator {operator : Operator} (found : operator? s.rest = some operator) :
    Through s (s.skip operator.width) := by
  obtain ⟨first, others, rest, front, width, symbols⟩ := operator?_append found
  have leads := leads_skip s operator.width
  rw [front, width, ← List.length_cons (a := first), ← List.cons_append, List.take_left',
    List.length_cons, ← width] at leads
  · exact ⟨_, leads, .of_plain fun token member => isDelimiter_of_isSymbol (symbols token member)⟩
  · rfl

/-! ## Parts of expressions -/

theorem binaryNode_item (name : String) {right : Option Expr} (before : Through s u)
    (read : ItemRead u right t) :
    Ensures (binaryNode name left right) t fun x v => ItemRead s (some x) v := by
  unfold binaryNode
  rw [ensures_extent, ensures_pure]
  exact read.behind before fun ended => exists_ended (ended.complete rfl)

theorem nullTest_item (before : Through s u) :
    Ensures (nullTest left) u fun x t => ItemRead s (some x) t := by
  have word {v : Reading} {token : Token} {rest : List Token} {reserved : Keyword}
      (here : Through s v) (front : v.rest = token :: rest)
      (found : token.kind = .keyword reserved) : PastItem s v.advance :=
    .behind here (pastItem_one front (by rw [found]; rfl))
  have ending (negated : Bool) {v : Reading} (here : Through s v) : Ensures (do
      let complete ← acceptWord .null
      if !complete then expected .null
      let extent ← extent left.span.start (!complete)
      pure (.apply (if negated then "is not null" else "is null") .trailing [left] extent)) v
      fun x t => ItemRead s (some x) t := by
    refine ensures_accept (fun token rest front found => ?_) ?_
    · exact (word here front found).itemRead
    · obtain ⟨read, leads, -⟩ := here
      refine Follows.itemRead ⟨_, leads.trans (.record v _)⟩ fun ended => ?_
      cases ended.complete rfl
  unfold nullTest
  refine ensures_accept (fun token rest front found => ?_) (ending false before)
  exact ending true (word before front found).through

theorem castType_item (s : Reading) :
    Ensures castType s fun x t => Follows s t ∧ (x.isNone = false → PastItem s t) := by
  unfold castType
  rw [ensures_tokens]
  split
  · rename_i name found
    obtain ⟨token, first, named⟩ := Option.bind_eq_some_iff.mp found
    obtain ⟨rest, front⟩ := List.head?_eq_some_iff.mp first
    have plain := isDelimiter_of_isName (Option.isSome_iff_exists.mpr ⟨name, named⟩)
    exact ⟨⟨_, .advance front⟩, fun _ => pastItem_one front plain⟩
  · exact ⟨⟨_, .record s _⟩, Bool.noConfusion⟩

theorem castsFrom_item (bound : Nat) (read : ItemRead s (some expr) u) :
    Ensures (castsFrom bound expr) u fun x t => ItemRead s (some x) t := by
  induction bound generalizing expr u with
  | zero => exact read
  | succ bound ih =>
      unfold castsFrom
      split
      · exact read
      · rename_i complete
        have past := read.past (.inl (Bool.eq_false_iff.mpr complete))
        refine ensures_accept (fun token rest front found => ?_) read
        have colons : PastItem s u.advance :=
          .behind past.through (pastItem_one front (by rw [found]; rfl))
        refine (castType_item u.advance).bind fun target? t cast => ?_
        rw [ensures_extent]
        refine ih ?_
        cases target? with
        | some target => exact ((cast.2 rfl).behind colons.through).itemRead
        | none =>
            obtain ⟨front, leads, -⟩ := colons
            refine Follows.itemRead (.trans ⟨front, leads⟩ cast.1) fun ended => ?_
            cases ended.complete rfl

theorem unaryNode_item {sign : Token} {operator : String × Nat} (name : String)
    (front : s.rest = sign :: rest) (found : unaryOperator? sign.kind = some operator)
    (read : ItemRead s.advance x t) :
    Ensures (unaryNode sign name x) t fun y v => ItemRead s (some y) v := by
  have before := (pastItem_one front (isDelimiter_of_unaryOperator? found)).through
  unfold unaryNode
  split
  · rename_i number signed
    rw [signedLiteral?_eq_some signed] at read
    exact (read.past (.inr rfl)).behind before |>.itemRead
  · rw [ensures_extent]
    exact read.behind before fun ended => exists_ended (ended.complete rfl)

/-! ## Expressions without operators -/

theorem literalExpr?_item (kind : LiteralKind) (value : String) (before : Through s u)
    (front : u.rest = token :: rest) (plain : isDelimiter token.kind = false) (incomplete : Bool) :
    Ensures (literalExpr? kind value incomplete) u fun x t => ItemRead s x t :=
  ((pastItem_one front plain).behind before).itemRead

theorem integerExpr?_item (front : s.rest = token :: rest) (kind : token.kind = .integer) :
    Ensures (integerExpr? token rest) s fun x t => ItemRead s x t := by
  have plain : isDelimiter token.kind = false := by
    rw [kind]
    rfl
  have integer := literalExpr?_item .integer token.text ⟨[], .refl s, .nil⟩ front plain false
  unfold integerExpr?
  split
  · rename_i unit rest
    split
    · rename_i word
      have second := isDelimiter_of_isName (isName_of_isWord word)
      exact ((pastItem_one (Reading.advance_rest front) second).behind
        (pastItem_one front plain).through).itemRead
    · exact integer
  · exact integer

theorem stringExpr?_item {value : String} {terminated : Bool} (front : s.rest = token :: rest)
    (kind : token.kind = .string value terminated) :
    Ensures (stringExpr? token value terminated) s fun x t => ItemRead s x t := by
  have plain : isDelimiter token.kind = false := by
    rw [kind]
    rfl
  cases terminated with
  | true => exact literalExpr?_item _ _ ⟨[], .refl s, .nil⟩ front plain false
  | false => exact literalExpr?_item _ _ (through_record s _) front plain true

theorem columnExpr?_item (s : Reading) : Ensures columnExpr? s fun x t => ItemRead s x t := by
  refine (column?_run false s).bind fun column? t read => ?_
  obtain ⟨run, leads, absent, here⟩ := read
  cases column? with
  | none =>
      obtain rfl := absent rfl
      exact itemRead_none leads
  | some column =>
      obtain ⟨nonempty, -, continues⟩ := here column rfl
      have past : PastItem s t := ⟨run, leads, .of_plain nonempty fun token member =>
        isDelimiter_of_continuesColumn (continues token member)⟩
      exact past.itemRead

theorem wholeRow_item (found : isWholeRow s.rest = true) :
    Ensures wholeRow s fun x t => ItemRead s (some x) t := by
  unfold isWholeRow at found
  split at found
  · rename_i star close rest front
    rw [Bool.and_eq_true, beq_iff_eq] at found
    exact (pastItem_one front (by rw [found.1]; rfl)).itemRead
  · cases found

/-- A group that is not closed opens a parenthesis more than it closes. -/
theorem closeGroup_item {opening : Token} (front : s.rest = opening :: rest)
    (opens : opening.kind = .openParen) (read : ItemRead s.advance x u) :
    Ensures (closeGroup x) u fun y t => ItemRead s y t := by
  obtain ⟨tokens, here⟩ := read
  have leads := (Leads.advance front).trans here.leads
  cases x with
  | none =>
      exact ⟨_, leads, fun _ => List.forall_mem_cons.mpr ⟨opens, here.opens rfl⟩,
        fun _ absent => absurd absent (Option.not_mem_none _)⟩
  | some inner =>
      have unclosed (ended : Ended inner) : IsItem (opening :: tokens) :=
        .unclosed opens (here.item inner rfl ended)
      unfold closeGroup
      dsimp only
      split
      · refine ⟨_, leads, Bool.noConfusion, ?_⟩
        rintro _ ⟨⟩ ended
        exact unclosed ended
      · rename_i complete
        have ended : Ended inner := .inl (Bool.eq_false_iff.mpr complete)
        refine ensures_accept (fun close behind front closes => ?_) ?_
        · refine ⟨_, leads.trans (.advance front), Bool.noConfusion, fun _ _ _ => ?_⟩
          exact .parens opens (here.item inner rfl ended).settled closes
        · have recorded := leads.trans (.record u (u.missing .closeParen))
          rw [List.append_nil] at recorded
          exact ⟨_, recorded, Bool.noConfusion, fun _ _ _ => unclosed ended⟩

/-! ## Listings -/

/-- What was read of a listing. One that is closed is made of tokens that close no more than they
open and the closing token. One that is not closed is `Unclosed` if all of its items are
complete. -/
structure ReadItems (close : TokenKind) (s : Reading) (parts : Parts Expr) (read : List Token)
    (t : Reading) : Prop where
  leads : Leads s read t
  closed : parts.complete = true → ∃ inner closing separators, read = inner ++ [closing] ∧
    closing.kind = close ∧ Settled inner separators
  broken : parts.complete = false → (∀ item ∈ parts.items, item.incomplete = false) →
    Unclosed parts.items.length read

/-- What a rule reads of a listing satisfies `ReadItems`. -/
def ItemsRead (close : TokenKind) (s : Reading) (parts : Parts Expr) (t : Reading) : Prop :=
  ∃ read, ReadItems close s parts read t

variable {close : TokenKind} {parts : Parts Expr}

/-- No item was read, only opening parentheses. -/
theorem itemsRead_halted (read : ItemRead s none t) : ItemsRead close s .halted t := by
  obtain ⟨tokens, here⟩ := read
  refine ⟨tokens, here.leads, Bool.noConfusion, fun _ _ => ?_⟩
  exact .missing rfl .nil nofun (here.opens rfl)

/-- A node over a listing from its opening token on. -/
theorem ItemsRead.itemRead {opening : Token} (read : ItemsRead close s.advance parts t)
    (front : s.rest = opening :: rest)
    (pair : opening.kind = .openParen ∧ close = .closeParen ∨
      opening.kind = .openBracket ∧ close = .closeBracket)
    (node : expr.literal? = none) (marked : expr.incomplete = !parts.complete) :
    ItemRead s (some expr) t := by
  obtain ⟨tokens, here⟩ := read
  refine ⟨opening :: tokens, (Leads.advance front).trans here.leads, Bool.noConfusion, ?_⟩
  rintro _ ⟨⟩ ended
  have complete : parts.complete = true := by
    have whole := ended.complete node
    rwa [marked, Bool.not_eq_false'] at whole
  obtain ⟨inner, closing, separators, rfl, closes, settled⟩ := here.closed complete
  rcases pair with ⟨opens, rfl⟩ | ⟨opens, rfl⟩
  · exact .parens opens settled closes
  · exact .brackets opens settled closes

/-- Behind a complete item a comma and more items follow, or the closing token, or nothing that
belongs there. -/
theorem ItemsRead.cons {comma : Token} (past : PastItem s u) (front : u.rest = comma :: rest)
    (mark : comma.kind = .comma) (later : ItemsRead close u.advance parts t) :
    ItemsRead close s ((Parts.one expr false).append parts) t := by
  obtain ⟨item, first, here⟩ := past
  obtain ⟨tokens, behind⟩ := later
  refine ⟨item ++ comma :: tokens, first.trans ((Leads.advance front).trans behind.leads), ?_, ?_⟩
  · intro complete
    obtain ⟨inner, closing, separators, rfl, closes, settled⟩ := behind.closed complete
    exact ⟨item ++ comma :: inner, closing, _, by simp, closes, settled.behind here mark⟩
  · intro incomplete all
    have others := behind.broken incomplete fun part member => all part (.tail _ member)
    exact others.behind here mark

theorem itemsRead_closed {closing : Token} (past : PastItem s u) (front : u.rest = closing :: rest)
    (closes : closing.kind = close) : ItemsRead close s (.one expr false) u.advance := by
  obtain ⟨item, leads, here⟩ := past
  exact ⟨item ++ [closing], leads.trans (.advance front),
    fun _ => ⟨item, closing, 0, rfl, closes, here.settled⟩, Bool.noConfusion⟩

theorem itemsRead_broken (past : PastItem s u) (error : SyntaxError) :
    ItemsRead close s (.one expr true) (u.record error) := by
  obtain ⟨item, leads, here⟩ := past
  have recorded := leads.trans (.record u error)
  rw [List.append_nil] at recorded
  exact ⟨item, recorded, Bool.noConfusion, fun _ _ => .behindItem here.ends⟩

/-- The items end with one that is incomplete. -/
theorem ItemRead.itemsRead (read : ItemRead s (some expr) t) (incomplete : expr.incomplete = true) :
    ItemsRead close s (.one expr true) t := by
  obtain ⟨tokens, here⟩ := read
  refine ⟨tokens, here.leads, Bool.noConfusion, fun _ all => ?_⟩
  have complete := all expr (.head _)
  rw [incomplete] at complete
  cases complete

end

/-! ## All rules -/

/-- What the rules for expressions read under one bound. -/
structure ItemRules (bound : Nat) : Prop where
  binary : ∀ power s, Ensures (binary bound power) s fun x t => ItemRead s x t
  operatorsFrom : ∀ power left s u, ItemRead s (some left) u →
    Ensures (operatorsFrom bound power left) u fun x t => ItemRead s (some x) t
  unary : ∀ s, Ensures (unary bound) s fun x t => ItemRead s x t
  memberList : ∀ s, Ensures (memberList bound) s fun x t => ItemRead s x t
  listing : ∀ close starred s, Ensures (listing bound close starred) s fun parts t =>
    ItemsRead close s parts t
  itemsFrom : ∀ close starred s, Ensures (itemsFrom bound close starred) s fun parts t =>
    ItemsRead close s parts t
  primary : ∀ s, Ensures (primary bound) s fun x t => ItemRead s x t

theorem expected_item (what : Expectation) (s : Reading) :
    Ensures (do expected what; pure none) s fun x t => ItemRead s x t :=
  itemRead_none (.record s _)

theorem halt_items (what : Expectation) (close : TokenKind) (s : Reading) :
    Ensures (halt what) s fun parts t => ItemsRead close s parts t :=
  itemsRead_halted (expected_item what s)

namespace ItemRules

variable {bound : Nat} (inner : ItemRules bound)

include inner

theorem binary_succ (power : Nat) (s : Reading) :
    Ensures (Grammar.binary (bound + 1) power) s fun x t => ItemRead s x t := by
  unfold Grammar.binary
  refine (inner.unary s).bind fun x u read => ?_
  cases x with
  | none => exact read
  | some left => exact (inner.operatorsFrom power left s u read).bind fun _ _ result => result

theorem operatorsFrom_succ (power : Nat) (left : Expr) (s u : Reading)
    (read : ItemRead s (some left) u) :
    Ensures (Grammar.operatorsFrom (bound + 1) power left) u fun x t => ItemRead s (some x) t := by
  unfold Grammar.operatorsFrom
  rw [ensures_tokens]
  split
  · exact read
  rename_i operator found
  split
  · exact read
  rename_i applies
  rw [Bool.or_eq_true, not_or] at applies
  have ended : Ended left := .inl (Bool.eq_false_iff.mpr applies.1)
  have before : Through s (u.skip operator.width) := (read.past ended).through.trans
    (through_operator found)
  have applied {right : Option Expr} {v : Reading}
      (later : ItemRead (u.skip operator.width) right v) :
      Ensures (binaryNode operator.name left right >>= Grammar.operatorsFrom bound power) v
        fun x t => ItemRead s (some x) t :=
    (binaryNode_item operator.name before later).bind fun x t node =>
      inner.operatorsFrom power x s t node
  rw [ensures_skip]
  split
  · exact (inner.binary _ _).bind fun _ _ later => applied later
  · exact (inner.memberList _).bind fun _ _ later => applied later
  · exact (nullTest_item before).bind fun x t node => inner.operatorsFrom power x s t node

theorem unary_succ (s : Reading) :
    Ensures (Grammar.unary (bound + 1)) s fun x t => ItemRead s x t := by
  unfold Grammar.unary
  rw [ensures_tokens]
  split
  · exact expected_item .expression s
  rename_i token rest front
  split
  · rename_i name power sign
    rw [ensures_advance]
    refine (inner.binary power s.advance).bind fun operand u read => ?_
    exact (unaryNode_item name front sign read).bind fun _ _ result => result
  · refine (inner.primary s).bind fun x u read => ?_
    cases x with
    | none => exact read
    | some value =>
        rw [ensures_tokens]
        exact (castsFrom_item _ read).bind fun _ _ result => result

theorem memberList_succ (s : Reading) :
    Ensures (Grammar.memberList (bound + 1)) s fun x t => ItemRead s x t := by
  unfold Grammar.memberList
  refine ensures_accept? (fun opening rest front opens => ?_) (expected_item .openParen s)
  refine (inner.listing .closeParen false s.advance).bind fun items t read => ?_
  exact read.itemRead front (.inl ⟨opens, rfl⟩) rfl rfl

theorem listing_succ (close : TokenKind) (starred : Bool) (s : Reading) :
    Ensures (Grammar.listing (bound + 1) close starred) s fun parts t =>
      ItemsRead close s parts t := by
  unfold Grammar.listing
  refine ensures_accept (fun closing rest front closes => ?_) (inner.itemsFrom close starred s)
  exact ⟨[closing], .advance front, fun _ => ⟨[], closing, 0, rfl, closes, .nil⟩, Bool.noConfusion⟩

theorem itemsFrom_rest (close : TokenKind) (starred : Bool) {s u : Reading} (item : Option Expr)
    (read : ItemRead s item u) :
    Ensures (do
      match item with
      | none => pure .halted
      | some item =>
          if item.incomplete then pure (.one item true)
          else if ← accept .comma then
            pure ((Parts.one item false).append (← Grammar.itemsFrom bound close starred))
          else if ← accept close then pure (.one item false)
          else
            expected (afterItem close)
            pure (.one item true)) u fun parts t => ItemsRead close s parts t := by
  cases item with
  | none => exact itemsRead_halted read
  | some item =>
      dsimp only
      split
      · rename_i incomplete
        exact read.itemsRead incomplete
      · rename_i complete
        have past := read.past (.inl (Bool.eq_false_iff.mpr complete))
        refine ensures_accept (fun comma rest front mark => ?_) ?_
        · exact (inner.itemsFrom close starred u.advance).bind fun _ _ later =>
            .cons past front mark later
        · refine ensures_accept (fun closing rest front closes => ?_) ?_
          · exact itemsRead_closed past front closes
          · exact itemsRead_broken past _

theorem itemsFrom_succ (close : TokenKind) (starred : Bool) (s : Reading) :
    Ensures (Grammar.itemsFrom (bound + 1) close starred) s fun parts t =>
      ItemsRead close s parts t := by
  unfold Grammar.itemsFrom
  rw [ensures_tokens]
  split
  · rename_i star
    refine (wholeRow_item (Bool.and_eq_true_iff.mp star).2).bind fun row u read => ?_
    exact inner.itemsFrom_rest close starred (some row) read
  · exact (inner.binary Power.or s).bind fun item _ read =>
      inner.itemsFrom_rest close starred item read

theorem callExpr?_item {s : Reading} {token : Token} {rest : List Token}
    (front : s.rest = token :: rest) (plain : isDelimiter token.kind = false) :
    Ensures (callExpr? bound token rest) s fun x t => ItemRead s x t := by
  unfold callExpr?
  split
  · rename_i call
    obtain ⟨opening, others, rfl, found⟩ := exists_cons_of_head? call
    rw [ensures_skip]
    refine (inner.listing .closeParen true (s.skip 2)).bind fun args t read => ?_
    rw [ensures_extent, ensures_pure]
    have node : ItemRead s.advance (some (.apply token.lower .call args.items
        (t.extent token.span.start (!args.complete)))) t :=
      read.itemRead (Reading.advance_rest front) (.inl ⟨beq_iff_eq.mp found, rfl⟩) rfl rfl
    exact node.behind (pastItem_one front plain).through fun ended => ⟨_, rfl, ended⟩
  · exact columnExpr?_item s

theorem primary_succ (s : Reading) :
    Ensures (Grammar.primary (bound + 1)) s fun x t => ItemRead s x t := by
  rw [primary_eq, ensures_tokens]
  split
  · exact expected_item .expression s
  rename_i token rest front
  have literal {kind : TokenKind} (found : token.kind = kind) (plain : isDelimiter kind = false)
      (sort : LiteralKind) (value : String) :=
    literalExpr?_item sort value ⟨[], .refl s, .nil⟩ front (found ▸ plain) false
  unfold primaryAt
  split
  case h_1 kind => exact integerExpr?_item front kind
  case h_3 value terminated kind => exact stringExpr?_item front kind
  case h_8 kind =>
    unfold listExpr?
    rw [ensures_advance]
    refine (inner.listing .closeBracket false s.advance).bind fun items t read => ?_
    exact read.itemRead front (.inr ⟨kind, rfl⟩) rfl rfl
  case h_9 kind =>
    unfold groupExpr?
    rw [ensures_advance]
    exact (inner.binary Power.or s.advance).bind fun x u read => closeGroup_item front kind read
  case h_10 => exact columnExpr?_item s
  case h_11 name kind => exact inner.callExpr?_item front (by rw [kind]; rfl)
  case h_12 => exact expected_item .expression s
  all_goals
    rename_i kind
    exact literal kind rfl _ _

end ItemRules

theorem itemRules (bound : Nat) : ItemRules bound := by
  induction bound with
  | zero =>
      exact {
        binary := fun _ => expected_item .expression
        operatorsFrom := fun _ _ _ _ read => read
        unary := expected_item .expression
        memberList := expected_item .openParen
        listing := fun close _ => halt_items .expression close
        itemsFrom := fun close _ => halt_items .expression close
        primary := expected_item .expression }
  | succ bound inner =>
      exact {
        binary := inner.binary_succ
        operatorsFrom := inner.operatorsFrom_succ
        unary := inner.unary_succ
        memberList := inner.memberList_succ
        listing := inner.listing_succ
        itemsFrom := inner.itemsFrom_succ
        primary := inner.primary_succ }

end Esql.Grammar
