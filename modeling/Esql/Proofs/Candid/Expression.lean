import Esql.Proofs.Grammar.Stages
import Esql.Proofs.Candid.Tree

/-!
# The grammar marks what it could not finish

Every rule hands on that one of its parts was closed early: a right operand that is missing, an item
of a list, an argument of a call, a value of a field. Nothing is read after an expression that is
marked, so a left operand is always complete. The trees that are read are therefore candid.
-/

namespace Esql.Grammar

/-- Whatever a rule reads, its result satisfies a condition. -/
def Yields {α : Type} (rule : Rule α) (holds : α → Prop) : Prop := ∀ s, holds (rule.run s).1

namespace Yields

variable {α β : Type} {rule : Rule α} {next : α → Rule β} {middle : α → Prop} {holds : β → Prop}

theorem pure {x : β} (here : holds x) : Yields (pure x) holds := fun _ => here

theorem bind (first : Yields rule middle) (second : ∀ x, middle x → Yields (next x) holds) :
    Yields (rule >>= next) holds :=
  fun s => second _ (first s) _

theorem mono {weaker : α → Prop} (first : Yields rule middle)
    (implies : ∀ x, middle x → weaker x) : Yields rule weaker :=
  fun s => implies _ (first s)

/-- The result of the first rule does not matter. -/
theorem after (second : ∀ x, Yields (next x) holds) : Yields (rule >>= next) holds :=
  fun _ => second _ _

theorem ensures (yields : Yields rule middle) (s : Reading) :
    Ensures rule s fun x _ => middle x := yields s

end Yields

/-- A node is marked as the rule that makes it says. -/
theorem yields_extent (start : Nat) (incomplete : Bool) :
    Yields (extent start incomplete) fun extent => extent.incomplete = incomplete :=
  fun _ => rfl

/-- The expression is candid. -/
abbrev CandidExpr (expr : Expr) : Prop := (Node.expr expr).Candid

/-- The expression is candid, if there is one. -/
def CandidIfAny (expr? : Option Expr) : Prop := ∀ expr ∈ expr?, CandidExpr expr

theorem CandidIfAny.some {expr : Expr} (candid : CandidExpr expr) : CandidIfAny (some expr) :=
  fun _ member => Option.some.inj member ▸ candid

theorem CandidIfAny.none : CandidIfAny .none := nofun

theorem exists_of_isUnfinished {operand : Option Expr} (finished : isUnfinished operand = false) :
    ∃ expr, operand = some expr ∧ expr.incomplete = false := by
  cases operand with
  | none => cases finished
  | some expr => exact ⟨expr, rfl, finished⟩

/-- What a rule read of a sequence: all items satisfy a condition, and if it read the whole sequence,
no item is marked. -/
structure Accounted {α : Type} (holds : α → Prop) (marked : α → Bool) (read : Parts α) : Prop where
  items : ∀ item ∈ read.items, holds item
  finished : read.complete = true → ∀ item ∈ read.items, marked item = false

namespace Accounted

variable {α : Type} {holds : α → Prop} {marked : α → Bool}

theorem nil {complete : Bool} : Accounted holds marked ⟨[], complete⟩ := ⟨nofun, nofun⟩

theorem single {item : α} {complete : Bool} (here : holds item)
    (told : complete = true → marked item = false) : Accounted holds marked ⟨[item], complete⟩ :=
  ⟨List.forall_mem_singleton.mpr here, fun finished => List.forall_mem_singleton.mpr (told finished)⟩

/-- An item that is told to be as it is marked. -/
theorem one (item : α) (here : holds item) : Accounted holds marked (.one item (marked item)) :=
  .single here fun told => by simpa using told

theorem append {first second : Parts α} (front : Accounted holds marked first)
    (back : Accounted holds marked second) (complete : first.complete = true) :
    Accounted holds marked (first.append second) :=
  ⟨List.forall_mem_append.mpr ⟨front.items, back.items⟩, fun finished =>
    List.forall_mem_append.mpr ⟨front.finished complete, back.finished finished⟩⟩

theorem mono {other : α → Prop} {read : Parts α} (accounted : Accounted holds marked read)
    (implies : ∀ item, holds item → other item) : Accounted other marked read :=
  ⟨fun item member => implies item (accounted.items item member), accounted.finished⟩

end Accounted

section

variable {α : Type} {holds : α → Prop} {marked : α → Bool}

theorem yields_halt (what : Expectation) : Yields (halt what) (Accounted holds marked) :=
  .after fun _ => .pure .nil

theorem yields_andThen {first second : Rule (Parts α)} (here : Yields first (Accounted holds marked))
    (there : Yields second (Accounted holds marked)) :
    Yields (andThen first second) (Accounted holds marked) := by
  refine here.bind fun read before => ?_
  split
  · rename_i complete
    exact there.bind fun others behind => .pure (before.append behind complete)
  · exact .pure before

theorem yields_separated {item : Rule (Parts α)} (here : Yields item (Accounted holds marked)) :
    Yields (separated item) (Accounted holds marked) := by
  refine .after fun tokens => ?_
  generalize tokens.length + 1 = bound
  induction bound with
  | zero => exact yields_halt .expression
  | succ bound ih =>
      refine yields_andThen here (.after fun comma => ?_)
      split
      · exact ih
      · exact .pure .nil

end

/-! ## Expressions -/

/-- What is known of a sequence of expressions. -/
abbrev CandidExprs (read : Parts Expr) : Prop := Accounted CandidExpr Expr.incomplete read

section

variable {name : String} {left value : Expr} {right : Option Expr} {extent : Extent}

/-- An operator with a complete left operand that is marked if the right one is missing or marked. -/
theorem candid_binary (first : CandidExpr left) (second : CandidIfAny right)
    (told : extent.incomplete = false → left.incomplete = false ∧ isUnfinished right = false) :
    CandidExpr (.apply name .binary (operands [left] right) extent) := by
  refine .expr ?_ ?_ ?_
  · intro complete count two
    obtain ⟨expr, rfl, _⟩ := exists_of_isUnfinished (told complete).2
    exact Option.some.inj two
  · intro complete part member
    obtain ⟨expr, rfl, finished⟩ := exists_of_isUnfinished (told complete).2
    rcases List.mem_cons.mp member with rfl | behind
    · exact (told complete).1
    · exact List.mem_singleton.mp behind ▸ finished
  · intro part member
    rcases List.mem_cons.mp member with rfl | behind
    · exact first
    · exact second part (Option.mem_toList.mp behind)

theorem candid_trailing (inner : CandidExpr value) (complete : value.incomplete = false) :
    CandidExpr (.apply name .trailing [value] extent) :=
  .expr (fun _ _ one => Option.some.inj one) (fun _ => List.forall_mem_singleton.mpr complete)
    (List.forall_mem_singleton.mpr inner)

theorem candid_cast (inner : CandidExpr value) (complete : value.incomplete = false) :
    CandidExpr (.cast value name extent) :=
  .expr (fun _ => trivial) (fun _ => List.forall_mem_singleton.mpr complete)
    (List.forall_mem_singleton.mpr inner)

theorem candid_list {read : Parts Expr} (inner : CandidExprs read)
    (told : extent.incomplete = !read.complete) : CandidExpr (.list read.items extent) :=
  .expr (fun _ => trivial)
    (fun complete => inner.finished (by simpa using told.symm.trans complete))
    inner.items

theorem candid_call {read : Parts Expr} (inner : CandidExprs read)
    (told : extent.incomplete = !read.complete) : CandidExpr (.apply name .call read.items extent) :=
  .expr (fun _ _ none => nomatch none)
    (fun complete => inner.finished (by simpa using told.symm.trans complete))
    inner.items

end

theorem yields_literal (kind : LiteralKind) (value : String) (incomplete : Bool) :
    Yields (literal kind value incomplete) fun expr =>
      CandidExpr expr ∧ expr.incomplete = incomplete :=
  .after fun _ => .after fun _ => (yields_extent _ _).bind fun _ told =>
    .pure ⟨.leaf trivial rfl, told⟩

theorem yields_literalExpr? (kind : LiteralKind) (value : String) (incomplete : Bool) :
    Yields (literalExpr? kind value incomplete) CandidIfAny :=
  (yields_literal kind value incomplete).bind fun _ candid => .pure (.some candid.1)

theorem yields_interval (number unit : Token) : Yields (interval number unit) CandidExpr :=
  .after fun _ => .after fun _ => .pure (.leaf trivial rfl)

theorem yields_wholeRow : Yields wholeRow CandidExpr :=
  .after fun _ => .after fun _ => .after fun _ => .pure (.leaf trivial rfl)

theorem yields_columnExpr? : Yields columnExpr? CandidIfAny := by
  refine .after fun column => ?_
  split
  · exact .pure (.some (.leaf trivial rfl))
  · exact .pure .none

theorem yields_castsFrom (bound : Nat) {value : Expr} (candid : CandidExpr value) :
    Yields (castsFrom bound value) CandidExpr := by
  induction bound generalizing value with
  | zero => exact .pure candid
  | succ bound ih =>
      unfold castsFrom
      split
      · exact .pure candid
      · rename_i complete
        refine .after fun found => ?_
        split
        · exact .after fun _ => .after fun _ =>
            ih (candid_cast candid (Bool.eq_false_iff.mpr complete))
        · exact .pure candid

theorem yields_unaryNode (sign : Token) (name : String) {operand : Option Expr}
    (candid : CandidIfAny operand) : Yields (unaryNode sign name operand) CandidExpr := by
  unfold unaryNode
  split
  · exact .after fun _ => .pure (.leaf trivial rfl)
  · refine (yields_extent _ _).bind fun extent told => .pure (.expr ?_ ?_ ?_)
    · intro complete count one
      obtain ⟨expr, rfl, _⟩ := exists_of_isUnfinished (told.symm.trans complete)
      exact Option.some.inj one
    · intro complete part member
      obtain ⟨expr, rfl, finished⟩ := exists_of_isUnfinished (told.symm.trans complete)
      exact List.mem_singleton.mp member ▸ finished
    · exact fun part member => candid part (Option.mem_toList.mp member)

theorem yields_binaryNode (name : String) {left : Expr} {right : Option Expr}
    (first : CandidExpr left) (complete : left.incomplete = false) (second : CandidIfAny right) :
    Yields (binaryNode name left right) CandidExpr :=
  (yields_extent _ _).bind fun _ told =>
    .pure (candid_binary first second fun finished => ⟨complete, told.symm.trans finished⟩)

theorem yields_nullTest {operand : Expr} (candid : CandidExpr operand)
    (complete : operand.incomplete = false) : Yields (nullTest operand) CandidExpr := by
  refine .after fun negated => .after fun found => ?_
  cases found with
  | false => exact Yields.after fun _ => .after fun _ => .pure (candid_trailing candid complete)
  | true => exact Yields.after fun _ => .pure (candid_trailing candid complete)

theorem yields_closeGroup {inner? : Option Expr} (candid : CandidIfAny inner?) :
    Yields (closeGroup inner?) CandidIfAny := by
  cases inner? with
  | none => exact .pure .none
  | some inner =>
      unfold closeGroup
      dsimp only
      split
      · exact .pure candid
      · refine .after fun closed => ?_
        split
        · exact .pure candid
        · exact .after fun _ => .pure (.some (candid inner rfl).markIncomplete)

/-- What the rules for expressions yield under one bound. -/
structure CandidExpressions (bound : Nat) : Prop where
  binary : ∀ power, Yields (binary bound power) CandidIfAny
  operatorsFrom : ∀ power {left : Expr}, CandidExpr left →
    Yields (operatorsFrom bound power left) CandidExpr
  unary : Yields (unary bound) CandidIfAny
  memberList : Yields (memberList bound) CandidIfAny
  listing : ∀ close starred, Yields (listing bound close starred) CandidExprs
  itemsFrom : ∀ close starred, Yields (itemsFrom bound close starred) CandidExprs
  primary : Yields (primary bound) CandidIfAny

namespace CandidExpressions

variable {bound : Nat} (inner : CandidExpressions bound)

include inner

theorem binary_succ (power : Nat) : Yields (Grammar.binary (bound + 1) power) CandidIfAny := by
  unfold Grammar.binary
  refine inner.unary.bind fun left? candid => ?_
  cases left? with
  | none => exact .pure .none
  | some left =>
      exact (inner.operatorsFrom power (candid left rfl)).bind fun _ result => .pure (.some result)

theorem operatorsFrom_succ (power : Nat) {left : Expr} (candid : CandidExpr left) :
    Yields (Grammar.operatorsFrom (bound + 1) power left) CandidExpr := by
  unfold Grammar.operatorsFrom
  refine .after fun tokens => ?_
  split
  · exact .pure candid
  · rename_i operator _
    split
    · exact .pure candid
    · rename_i goesOn
      -- Nothing is read after a marked operand.
      rw [Bool.or_eq_true, not_or, Bool.not_eq_true] at goesOn
      refine .after fun _ => ?_
      split
      · exact (inner.binary _).bind fun right second =>
          (yields_binaryNode operator.name candid goesOn.1 second).bind
            fun _ applied => inner.operatorsFrom power applied
      · exact inner.memberList.bind fun right second =>
          (yields_binaryNode operator.name candid goesOn.1 second).bind
            fun _ applied => inner.operatorsFrom power applied
      · exact (yields_nullTest candid goesOn.1).bind
          fun _ applied => inner.operatorsFrom power applied

theorem unary_succ : Yields (Grammar.unary (bound + 1)) CandidIfAny := by
  unfold Grammar.unary
  refine .after fun tokens => ?_
  split
  · exact .after fun _ => .pure .none
  · split
    · exact .after fun _ => (inner.binary _).bind fun operand candid =>
        (yields_unaryNode _ _ candid).bind fun _ result => .pure (.some result)
    · refine inner.primary.bind fun value? candid => ?_
      cases value? with
      | none => exact .pure .none
      | some value =>
          exact .after fun rest =>
            (yields_castsFrom _ (candid value rfl)).bind fun _ result => .pure (.some result)

theorem memberList_succ : Yields (Grammar.memberList (bound + 1)) CandidIfAny := by
  unfold Grammar.memberList
  refine .after fun opening? => ?_
  split
  · exact .after fun _ => .pure .none
  · exact (inner.listing _ _).bind fun read items =>
      (yields_extent _ _).bind fun _ told => .pure (.some (candid_list items told))

theorem listing_succ (close : TokenKind) (starred : Bool) :
    Yields (Grammar.listing (bound + 1) close starred) CandidExprs := by
  unfold Grammar.listing
  refine .after fun closed => ?_
  split
  · exact .pure .nil
  · exact inner.itemsFrom close starred

/-- What is read of a listing behind one of its items. -/
theorem itemsFrom_rest (close : TokenKind) (starred : Bool) (item : Option Expr)
    (candid : CandidIfAny item) :
    Yields (do
      match item with
      | none => pure .halted
      | some item =>
          if item.incomplete then pure (.one item true)
          else if ← accept .comma then
            pure ((Parts.one item false).append (← Grammar.itemsFrom bound close starred))
          else if ← accept close then pure (.one item false)
          else
            expected (afterItem close)
            pure (.one item true)) CandidExprs := by
  cases item with
  | none => exact .pure .nil
  | some item =>
      have here := candid item rfl
      have broken : CandidExprs (.one item true) := .single here Bool.noConfusion
      dsimp only
      split
      · exact .pure broken
      · rename_i complete
        have finished : CandidExprs (.one item false) :=
          .single here fun _ => Bool.eq_false_iff.mpr complete
        refine .after fun comma => ?_
        split
        · exact (inner.itemsFrom close starred).bind fun rest others =>
            .pure (finished.append others rfl)
        · refine .after fun closed => ?_
          split
          · exact .pure finished
          · exact .after fun _ => .pure broken

theorem itemsFrom_succ (close : TokenKind) (starred : Bool) :
    Yields (Grammar.itemsFrom (bound + 1) close starred) CandidExprs := by
  unfold Grammar.itemsFrom
  refine .after fun tokens => ?_
  split
  · exact yields_wholeRow.bind fun _ row => inner.itemsFrom_rest close starred _ (.some row)
  · exact (inner.binary Power.or).bind (inner.itemsFrom_rest close starred)

theorem primary_succ : Yields (Grammar.primary (bound + 1)) CandidIfAny := by
  rw [primary_eq]
  refine .after fun tokens => ?_
  split
  · exact .after fun _ => .pure .none
  · rename_i token rest
    unfold primaryAt
    split
    case h_1 =>
      unfold integerExpr?
      split
      · split
        · exact (yields_interval _ _).bind fun _ candid => .pure (.some candid)
        · exact yields_literalExpr? _ _ _
      · exact yields_literalExpr? _ _ _
    case h_3 value terminated _ =>
      cases terminated with
      | false => exact Yields.after fun _ => yields_literalExpr? _ _ _
      | true => exact yields_literalExpr? _ _ _
    case h_8 =>
      exact .after fun _ => (inner.listing _ _).bind fun read items =>
        (yields_extent _ _).bind fun _ told => .pure (.some (candid_list items told))
    case h_9 => exact .after fun _ => (inner.binary Power.or).bind fun _ => yields_closeGroup
    case h_10 => exact yields_columnExpr?
    case h_11 =>
      unfold callExpr?
      split
      · exact .after fun _ => (inner.listing _ _).bind fun read items =>
          (yields_extent _ _).bind fun _ told => .pure (.some (candid_call items told))
      · exact yields_columnExpr?
    case h_12 => exact .after fun _ => .pure .none
    all_goals exact yields_literalExpr? _ _ _

end CandidExpressions

theorem candidExpressions (bound : Nat) : CandidExpressions bound := by
  induction bound with
  | zero =>
      exact {
        binary := fun _ => .after fun _ => .pure .none
        operatorsFrom := fun _ _ candid => .pure candid
        unary := .after fun _ => .pure .none
        memberList := .after fun _ => .pure .none
        listing := fun _ _ => yields_halt .expression
        itemsFrom := fun _ _ => yields_halt .expression
        primary := .after fun _ => .pure .none }
  | succ bound inner =>
      exact {
        binary := inner.binary_succ
        operatorsFrom := inner.operatorsFrom_succ
        unary := inner.unary_succ
        memberList := inner.memberList_succ
        listing := inner.listing_succ
        itemsFrom := inner.itemsFrom_succ
        primary := inner.primary_succ }

theorem yields_expression : Yields expression CandidIfAny :=
  .after fun _ => (candidExpressions _).binary Power.or

theorem yields_operand {rule : Rule (Option Expr)} (candid : Yields rule CandidIfAny) :
    Yields (operand rule) CandidExprs := by
  refine candid.bind fun expr? here => ?_
  cases expr? with
  | none => exact .pure .nil
  | some expr => exact .pure (.one expr (here expr rfl))

end Esql.Grammar
