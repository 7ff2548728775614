import Esql.Proofs.Grammar.Term
import Esql.Proofs.Token.Point

/-!
# Terms with a lost point are broken off

Where a point stands for a number, there is no expression. All that was read around it is left
incomplete, and the rules read no further.
-/

namespace Esql.Grammar

open Token

/-- Nothing was read, or something incomplete that is no literal, as a sign takes in a literal and
forgets whether it is complete. -/
def isBroken : Option Expr → Bool
  | some (.literal _) => false
  | read => isUnfinished read

theorem isUnfinished_of_isBroken {read : Option Expr} (broken : isBroken read = true) :
    isUnfinished read = true := by
  unfold isBroken at broken
  split at broken
  · cases broken
  · exact broken

/-- An expression is broken off. -/
def Breaks (rule : Rule (Option Expr)) (s : Reading) : Prop :=
  Ensures rule s fun read _ => isBroken read = true

/-- A sequence is broken off. -/
def Halts {α : Type} (rule : Rule (Parts α)) (s : Reading) : Prop :=
  Ensures rule s fun read _ => read.complete = false

section

variable {bound power : Nat} {s : Reading}

theorem ensures_operatorsFrom_incomplete {left : Expr} {post : Expr → Reading → Prop}
    (incomplete : left.incomplete = true) :
    Ensures (operatorsFrom bound power left) s post ↔ post left s := by
  cases bound with
  | zero => exact Iff.rfl
  | succ bound =>
      unfold operatorsFrom
      rw [ensures_tokens]
      split
      · exact Iff.rfl
      · rw [incomplete, Bool.true_or, if_pos rfl]
        exact Iff.rfl

theorem ensures_castsFrom_incomplete {value : Expr} {post : Expr → Reading → Prop}
    (incomplete : value.incomplete = true) :
    Ensures (castsFrom bound value) s post ↔ post value s := by
  cases bound with
  | zero => exact Iff.rfl
  | succ bound =>
      unfold castsFrom
      rw [if_pos incomplete]
      exact Iff.rfl

/-- No operator is applied to an operand that is broken off. -/
theorem Breaks.binary (operand : Breaks (unary bound) s) : Breaks (binary (bound + 1) power) s := by
  unfold Breaks Grammar.binary
  refine operand.bind fun read t broken => ?_
  cases read with
  | none => exact broken
  | some left =>
      have incomplete : left.incomplete = true := isUnfinished_of_isBroken broken
      have same : Ensures (operatorsFrom bound power left) t fun y _ => y = left :=
        (ensures_operatorsFrom_incomplete incomplete).mpr rfl
      refine same.bind ?_
      rintro _ _ rfl
      exact broken

/-- No cast is applied to a value that is broken off. -/
theorem Breaks.unary {token : Token} {rest : List Token} (front : s.rest = token :: rest)
    (noSign : unaryOperator? token.kind = none) (value : Breaks (primary bound) s) :
    Breaks (unary (bound + 1)) s := by
  unfold Breaks Grammar.unary
  rw [ensures_tokens, front]
  simp only [noSign]
  refine value.bind fun read t broken => ?_
  cases read with
  | none => exact broken
  | some value =>
      have incomplete : value.incomplete = true := isUnfinished_of_isBroken broken
      dsimp only
      rw [ensures_tokens]
      have same : Ensures (castsFrom (t.rest.length + 1) value) t fun y _ => y = value :=
        (ensures_castsFrom_incomplete incomplete).mpr rfl
      refine same.bind ?_
      rintro _ _ rfl
      exact broken

/-- A primary expression that is broken off is all that is read. -/
theorem Breaks.primary {token : Token} {rest : List Token} (front : s.rest = token :: rest)
    (noSign : unaryOperator? token.kind = none) (covers : Covers 3 bound s)
    (breaks : ∀ {bound : Nat}, Covers 1 (bound + 1) s → Breaks (primaryAt bound token rest) s) :
    Breaks (Grammar.binary bound power) s := by
  obtain ⟨bound, rfl⟩ := covers.exists_succ
  obtain ⟨bound, rfl⟩ := covers.pred.exists_succ
  obtain ⟨bound, rfl⟩ := covers.pred.pred.exists_succ
  exact .binary (.unary front noSign ((ensures_primary front).mpr (breaks covers.pred.pred)))

end

/-! ## What a lost point breaks off -/

/-- A term is broken off wherever it is lost. -/
def IsBroken (term : Term) : Prop :=
  ∀ {run : List Token} {bound : Nat} {s : Reading}, term.Lost run → s.rest = run → s.Ready →
    Covers 3 bound s → Breaks (binary bound Power.or) s

section

variable {term operand left right : Term} {items : List Term} {run rest : List Token}
  {opening : Token} {bound power : Nat} {s : Reading}

/-- A column is never lost. -/
theorem isBroken_column (name : BareColumn) : IsBroken (.column name) := by
  intro run bound s lost
  cases lost with
  | leading first => cases first

theorem isBroken_literal (leaf : Leaf) : IsBroken (.literal leaf) := by
  intro run bound s lost front ready covers
  cases lost with
  | point kind =>
      refine Breaks.primary front (by rw [kind]; rfl) covers fun _ => ?_
      unfold primaryAt
      rw [kind]
      exact rfl
  | leading first => cases first

/-- An operand in parentheses that is broken off. -/
theorem breaks_group (inner : IsBroken operand) (opens : opening.kind = .openParen)
    (lost : operand.Lost rest) (front : s.rest = opening :: rest) (ready : s.Ready)
    (covers : Covers 3 bound s) : Breaks (binary bound power) s := by
  refine Breaks.primary front (by rw [opens]; rfl) covers fun covers => ?_
  have next : s.advance.rest = rest := Reading.advance_rest front
  have covers : Covers 3 _ s.advance := covers_advance front covers.pred (by decide)
  have ready : s.advance.Ready := ready_advance front ready
  unfold primaryAt
  rw [opens]
  dsimp only
  unfold groupExpr?
  rw [Breaks, ensures_advance]
  refine (inner lost next ready covers).bind fun read t broken => ?_
  unfold closeGroup
  cases read with
  | none => exact broken
  | some inner =>
      have incomplete : inner.incomplete = true := isUnfinished_of_isBroken broken
      dsimp only
      rw [if_pos incomplete]
      exact broken

theorem binaryNode_breaks {name : String} {first : Expr} {second : Option Expr}
    (unfinished : isUnfinished second = true) :
    Ensures (binaryNode name first second) s fun y _ => isBroken (some y) = true := by
  unfold binaryNode
  rw [ensures_extent, unfinished]
  exact rfl

/-! ## Lists -/

theorem afterItem?_halts {close : TokenKind} {starred : Bool} {read : Option Expr}
    (broken : isBroken read = true) : Halts (afterItem? bound close starred read) s := by
  cases read with
  | none => exact rfl
  | some item =>
      have incomplete : item.incomplete = true := isUnfinished_of_isBroken broken
      unfold Halts afterItem?
      dsimp only
      rw [if_pos incomplete]
      exact rfl

/-- A list of items is broken off at the first item that is lost. -/
theorem itemsFrom_halts {close : TokenKind} {starred : Bool} (each : ∀ term ∈ items, IsBroken term)
    (lost : Term.LostAll items run) (front : s.rest = run) (ready : s.Ready)
    (covers : Covers 4 bound s) : Halts (itemsFrom bound close starred) s := by
  induction items generalizing run bound s with
  | nil => cases lost
  | cons term items ih =>
      rw [List.forall_mem_cons] at each
      obtain ⟨bound, rfl⟩ := covers.exists_succ
      cases lost with
      | first inside =>
          have noStar : isWholeRow s.rest = false := by
            obtain ⟨first, others, rfl, starts⟩ := inside.head
            rw [front]
            exact not_isWholeRow_of_startsTerm starts
          rw [Halts, ensures_itemsFrom noStar]
          exact (each.1 inside front ready covers.pred).bind fun _ _ => afterItem?_halts
      | behind spelled kind inside =>
          refine ensures_itemsFrom_comma (isRead term) spelled kind front ready covers ?_
          intro item t _ _ left ready covers
          exact ih each.2 inside left ready covers

theorem listing_halts {close : TokenKind} {starred : Bool} (each : ∀ term ∈ items, IsBroken term)
    (lost : Term.LostAll items run) (closes : Term.startsTerm close = false)
    (front : s.rest = run) (ready : s.Ready) (covers : Covers 5 bound s) :
    Halts (listing bound close starred) s := by
  obtain ⟨bound, rfl⟩ := covers.exists_succ
  have opened : s.isAt close = false := by
    obtain ⟨first, others, rfl, starts⟩ := lost.head
    exact not_isAt_of_startsTerm front starts closes
  unfold Halts listing
  rw [ensures_refused opened]
  exact itemsFrom_halts each lost front ready covers.pred

theorem isBroken_list (each : ∀ term ∈ items, IsBroken term) : IsBroken (.list items) := by
  intro run bound s lost front ready covers
  cases lost with
  | leading first => cases first
  | list opens inside =>
      refine Breaks.primary front (by rw [opens]; rfl) covers fun covers => ?_
      have next := Reading.advance_rest front
      have covers : Covers 5 _ s.advance := covers_advance front covers.pred (by decide)
      have ready : s.advance.Ready := ready_advance front ready
      unfold primaryAt
      rw [opens]
      dsimp only
      unfold listExpr?
      rw [Breaks, ensures_advance]
      refine (listing_halts each inside rfl next ready covers).bind fun read t halted => ?_
      rw [ensures_extent, halted]
      exact rfl

theorem isBroken_call (name : BareWord) (each : ∀ term ∈ items, IsBroken term) :
    IsBroken (.call name items) := by
  intro run bound s lost front ready covers
  cases lost with
  | leading first => cases first
  | @call _ _ title opening rest kind opens inside =>
      refine Breaks.primary front (by rw [kind]; rfl) covers fun covers => ?_
      have next : (s.skip 2).rest = rest := by
        rw [Reading.rest_skip, front]
        rfl
      have covers : Covers 5 _ (s.skip 2) :=
        covers.pred.less (by rw [next, front]; simp) (by decide)
      have ready : (s.skip 2).Ready := ready_skip ready 2
      have opened : ((opening :: rest).head?.any fun next => next.kind == .openParen) = true :=
        beq_iff_eq.mpr opens
      unfold primaryAt
      rw [kind]
      dsimp only
      unfold callExpr?
      rw [opened, if_pos rfl, Breaks, ensures_skip]
      refine (listing_halts each inside rfl next ready covers).bind fun read t halted => ?_
      rw [ensures_extent, halted]
      exact rfl

/-! ## Operators -/

/-- An operator whose application is broken off is the last one. -/
theorem breaks_operator {group others : List Token} {operator : Operator}
    (bracket : Group left.Spells group) (front : s.rest = group ++ others) (ready : s.Ready)
    (covers : Covers 3 bound s) (found : operator? others = some operator)
    (applied : ∀ {bound : Nat} {value : Expr} {t : Reading}, t.rest = others → t.Ready →
      Covers 1 (bound + 1) t →
      Ensures (applyOperator bound operator value) (t.skip operator.width) fun y _ =>
        isBroken (some y) = true) :
    Breaks (binary bound Power.or) s := by
  refine ensures_operator (isRead left) bracket front ready covers found ?_
  intro bound value t _ _ left ready covers
  refine (applied left ready covers).bind fun y u broken => ?_
  exact (ensures_operatorsFrom_incomplete (isUnfinished_of_isBroken broken)).mpr broken

theorem isBroken_binary {connective : Connective} (first : IsBroken left)
    (second : IsBroken right) : IsBroken (.binary connective left right) := by
  intro run bound s lost front ready covers
  cases lost with
  | leading starts opens inside =>
      cases starts
      exact breaks_group first opens inside front ready covers
  | right bracket kinds opens inside =>
      obtain ⟨operator, found, -, shape, width, -⟩ := operator?_connective kinds _
      refine breaks_operator bracket front ready covers found ?_
      intro bound value t left ready covers
      obtain ⟨next, shorter⟩ := skip_operator found width left
      have ready : (t.skip operator.width).Ready := ready_skip ready _
      unfold applyOperator
      rw [shape]
      refine (breaks_group second opens inside next ready
        (covers.pred.less shorter (by decide))).bind fun operand u broken => ?_
      exact binaryNode_breaks (isUnfinished_of_isBroken broken)

/-- A membership test is broken off with its operand or with its list. -/
theorem isBroken_member {negated : Bool} (first : IsBroken left)
    (each : ∀ term ∈ items, IsBroken term) : IsBroken (.member negated left items) := by
  intro run bound s lost front ready covers
  cases lost with
  | leading starts opens inside =>
      cases starts
      exact breaks_group first opens inside front ready covers
  | member bracket kinds opens inside =>
      obtain ⟨operator, found, -, shape, width⟩ := operator?_member kinds _
      refine breaks_operator bracket front ready covers found ?_
      intro bound value t left ready covers
      obtain ⟨next, shorter⟩ := skip_operator found width left
      have ready : (t.skip operator.width).Ready := ready_skip ready _
      unfold applyOperator
      rw [shape]
      have list : Ensures (memberList bound) (t.skip operator.width) fun list _ =>
          isUnfinished list = true := by
        have covers : Covers 6 bound (t.skip operator.width) :=
          covers.pred.less shorter (by decide)
        obtain ⟨bound, rfl⟩ := covers.exists_succ
        have behind := Reading.advance_rest next
        have covers : Covers 5 bound (t.skip operator.width).advance :=
          covers_advance next covers.pred (by decide)
        have ready := ready_advance next ready
        unfold memberList
        rw [ensures_accepted? next opens]
        refine (listing_halts each inside rfl behind ready covers).bind fun read u halted => ?_
        rw [ensures_extent, halted]
        exact rfl
      exact list.bind fun _ _ => binaryNode_breaks

theorem isBroken_nullTest {negated : Bool} (inner : IsBroken operand) :
    IsBroken (.nullTest negated operand) := by
  intro run bound s lost front ready covers
  cases lost with
  | leading starts opens inside =>
      cases starts
      exact breaks_group inner opens inside front ready covers

theorem isBroken_cast {target : BareWord} (inner : IsBroken operand) :
    IsBroken (.cast operand target) := by
  intro run bound s lost front ready covers
  cases lost with
  | leading starts opens inside =>
      cases starts
      exact breaks_group inner opens inside front ready covers

theorem isBroken_unary {sign : Sign} (inner : IsBroken operand) :
    IsBroken (.unary sign operand) := by
  intro run bound s lost front ready covers
  cases lost with
  | leading first => cases first
  | @unary _ _ mark opening rest kind opens inside =>
      obtain ⟨power, operator⟩ : ∃ power, unaryOperator? mark.kind = some (sign.name, power) := by
        rw [kind]
        cases sign <;> exact ⟨_, rfl⟩
      obtain ⟨bound, rfl⟩ := covers.exists_succ
      obtain ⟨bound, rfl⟩ := covers.pred.exists_succ
      have next := Reading.advance_rest front
      have ready : s.advance.Ready := ready_advance front ready
      have covers : Covers 3 bound s.advance := covers_advance front covers.pred.pred (by decide)
      refine Breaks.binary ?_
      rw [Breaks, ensures_unary_sign front operator]
      refine (breaks_group inner opens inside next ready covers).bind fun read t broken => ?_
      have apart : signedLiteral? mark sign.name read = none := by
        unfold isBroken at broken
        split at broken
        · cases broken
        · rename_i other
          unfold signedLiteral?
          split
          · exact absurd rfl (other _)
          · rfl
      unfold unaryNode
      rw [apart]
      dsimp only
      rw [ensures_bind_assoc, ensures_extent, isUnfinished_of_isBroken broken]
      exact rfl

end

mutual

/-- Every term is broken off where it is lost. -/
theorem isBroken_of_lost : ∀ term : Term, IsBroken term
  | .column name => isBroken_column name
  | .literal leaf => isBroken_literal leaf
  | .list items => isBroken_list (isBroken_of_mem items)
  | .call name args => isBroken_call name (isBroken_of_mem args)
  | .binary _ left right => isBroken_binary (isBroken_of_lost left) (isBroken_of_lost right)
  | .unary _ operand => isBroken_unary (isBroken_of_lost operand)
  | .nullTest _ operand => isBroken_nullTest (isBroken_of_lost operand)
  | .member _ operand items => isBroken_member (isBroken_of_lost operand) (isBroken_of_mem items)
  | .cast operand _ => isBroken_cast (isBroken_of_lost operand)

theorem isBroken_of_mem : ∀ items : List Term, ∀ term ∈ items, IsBroken term
  | [] => List.forall_mem_nil _
  | first :: rest => List.forall_mem_cons.mpr ⟨isBroken_of_lost first, isBroken_of_mem rest⟩

end

end Esql.Grammar
