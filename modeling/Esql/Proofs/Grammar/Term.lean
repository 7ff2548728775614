import Esql.Proofs.Frame.Expression
import Esql.Proofs.Grammar.Written
import Esql.Proofs.Syntax.Grouping
import Esql.Proofs.Token.Term

/-!
# Written terms are read back

The rules for expressions read the tokens that spell a term as the tree of the term, and stop where
the term ends. Parentheses around each operand leave nothing to the powers of the operators, so
each operator is read by itself. The one thing that looks through parentheses is a sign, which takes
in a number only if nothing stands between them.
-/

namespace Esql.Grammar

open Token

/-- What may follow a term: nothing, a comma, or a closing bracket. -/
def Ends (rest : List Token) : Prop :=
  ∀ token ∈ rest.head?, token.kind ∈ [.comma, .closeParen, .closeBracket]

section

variable {rest : List Token} (ends : Ends rest)

include ends

theorem Ends.operator?_eq_none : operator? rest = none := by
  cases rest with
  | nil => rfl
  | cons token rest =>
      have kind := ends token rfl
      simp only [List.mem_cons, List.not_mem_nil, or_false] at kind
      rcases kind with found | found | found <;> (rw [operator?, found]; rfl)

theorem Ends.head?_any (member : TokenKind → Bool)
    (other : [TokenKind.comma, .closeParen, .closeBracket].any member = false) :
    (rest.head?.any fun token => member token.kind) = false := by
  cases rest with
  | nil => rfl
  | cons token rest => exact Bool.eq_false_iff.mpr (List.any_eq_false.mp other _ (ends token rfl))

theorem Ends.not_continuesColumn :
    ∀ next ∈ rest.head?, continuesColumn false next.kind = false := by
  intro next first
  have kind := ends next first
  simp only [List.mem_cons, List.not_mem_nil, or_false] at kind
  rcases kind with found | found | found <;> (rw [found]; rfl)

theorem Ends.not_isAt {kind : TokenKind} (other : kind ∉ [.comma, .closeParen, .closeBracket])
    {s : Reading} (left : s.rest = rest) : s.isAt kind = false := by
  rw [Reading.isAt, left]
  refine ends.head?_any (· == kind) (List.any_eq_false.mpr fun found member same => ?_)
  exact other (beq_iff_eq.mp same ▸ member)

end

/-- What may follow a name by itself: nothing that goes on with it, and nothing that makes it a call
or the operand of a cast. -/
def EndsName (rest : List Token) : Prop :=
  ∀ token ∈ rest.head?, continuesColumn false token.kind = false ∧
    token.kind ∉ [.openParen, .doubleColon]

theorem EndsName.not_continuesColumn {rest : List Token} (ends : EndsName rest) :
    ∀ next ∈ rest.head?, continuesColumn false next.kind = false :=
  fun next front => (ends next front).1

theorem EndsName.head?_any {rest : List Token} (ends : EndsName rest) (kind : TokenKind)
    (other : kind ∈ [TokenKind.openParen, .doubleColon]) :
    (rest.head?.any fun token => token.kind == kind) = false := by
  cases rest with
  | nil => rfl
  | cons token rest =>
      exact beq_eq_false_iff_ne.mpr fun same => (ends token rfl).2 (same ▸ other)

theorem Ends.endsName {rest : List Token} (ends : Ends rest) : EndsName rest := by
  refine fun next front => ⟨ends.not_continuesColumn next front, fun other => ?_⟩
  have found := ends next front
  generalize next.kind = kind at found other
  simp only [List.mem_cons, List.not_mem_nil, or_false] at found other
  rcases found with rfl | rfl | rfl <;> rcases other with other | other <;> cases other

/-- A complete expression of this shape was read up to a rest, and nothing was recorded. -/
structure Reads (shape : Expr) (rest : List Token) (s : Reading) (x : Option Expr) (t : Reading) :
    Prop where
  expr : ∃ expr, x = some expr ∧ expr.relocate .nowhere = shape
  errors : t.errors = s.errors
  rest : t.rest = rest

theorem Reads.not_none {shape : Expr} {rest : List Token} {s t : Reading} :
    ¬ Reads shape rest s none t := by
  rintro ⟨⟨_, ⟨⟩, _⟩, -, -⟩

/-- A term is read wherever it is spelled, up to its end. -/
def IsRead (term : Term) : Prop :=
  ∀ {run rest : List Token} {bound : Nat} {s : Reading}, term.Spells run → Ends rest →
    s.rest = run ++ rest → s.Ready → Covers 3 bound s →
    Ensures (binary bound Power.or) s (Reads term.expr rest s)

/-! ## One token after the other -/

section

variable {s : Reading} {token : Token} {rest : List Token} (front : s.rest = token :: rest)

include front

theorem ready_advance (ready : s.Ready) : s.advance.Ready :=
  Follows.ready ⟨_, Leads.advance front⟩ ready

theorem covers_advance {weight more bound : Nat} (covers : Covers weight bound s)
    (bounded : more ≤ weight + 8) : Covers more bound s.advance := by
  refine covers.less ?_ bounded
  rw [Reading.advance_rest front, front, List.length_cons]

end

theorem ready_skip {s : Reading} (ready : s.Ready) (count : Nat) : (s.skip count).Ready :=
  Follows.ready ⟨_, leads_skip s count⟩ ready

/-! ## One rule after the other -/

theorem ensures_accepted? {β : Type} {kind : TokenKind} {next : Option Token → Rule β} {s : Reading}
    {post : β → Reading → Prop} {token : Token} {rest : List Token}
    (front : s.rest = token :: rest) (found : token.kind = kind) :
    Ensures (accept? kind >>= next) s post ↔ Ensures (next (some token)) s.advance post := by
  have accepted : s.isAt kind = true := by simp [Reading.isAt, front, found]
  unfold Ensures
  rw [StateT.run_bind, run_accept?, if_pos accepted, front]
  rfl

section

variable {bound power : Nat} {s : Reading}

theorem ensures_operatorsFrom_none {left : Expr} {post : Expr → Reading → Prop}
    (none : operator? s.rest = none) :
    Ensures (operatorsFrom bound power left) s post ↔ post left s := by
  cases bound with
  | zero => exact Iff.rfl
  | succ bound =>
      unfold operatorsFrom
      rw [ensures_tokens, none]
      exact Iff.rfl

theorem ensures_operatorsFrom_some {left : Expr} {operator : Operator}
    {post : Expr → Reading → Prop} (found : operator? s.rest = some operator)
    (complete : left.incomplete = false) (binds : power ≤ operator.power) :
    Ensures (operatorsFrom (bound + 1) power left) s post ↔
      Ensures (applyOperator bound operator left >>= operatorsFrom bound power)
        (s.skip operator.width) post := by
  have applies : (left.incomplete || decide (operator.power < power)) = false := by
    rw [complete, decide_eq_false (Nat.not_lt.mpr binds)]
    rfl
  unfold operatorsFrom
  rw [ensures_tokens, found]
  simp only [applies, Bool.false_eq_true, if_false, ensures_skip]
  unfold applyOperator
  cases operator.shape <;> rfl

theorem ensures_castsFrom_none {value : Expr} {post : Expr → Reading → Prop}
    (none : s.isAt .doubleColon = false) :
    Ensures (castsFrom bound value) s post ↔ post value s := by
  cases bound with
  | zero => exact Iff.rfl
  | succ bound =>
      unfold castsFrom
      split
      · exact Iff.rfl
      · rw [ensures_refused none]
        exact Iff.rfl

variable {post : Option Expr → Reading → Prop}

/-- An operand and the operators behind it. -/
theorem ensures_binary {middle : Option Expr → Reading → Prop}
    (operand : Ensures (unary bound) s middle) (present : ∀ t, ¬ middle none t)
    (applied : ∀ left t, middle (some left) t →
      Ensures (operatorsFrom bound power left) t fun y u => post (some y) u) :
    Ensures (binary (bound + 1) power) s post := by
  unfold binary
  refine operand.bind fun x t holds => ?_
  cases x with
  | none => exact absurd holds (present t)
  | some left => exact (applied left t holds).bind fun _ _ => id

/-- An operand without a sign, and the casts behind it. -/
theorem ensures_unary {middle : Option Expr → Reading → Prop} {token : Token} {rest : List Token}
    (front : s.rest = token :: rest) (noSign : unaryOperator? token.kind = none)
    (operand : Ensures (primary bound) s middle) (present : ∀ t, ¬ middle none t)
    (applied : ∀ value t, middle (some value) t →
      Ensures (castsFrom (t.rest.length + 1) value) t fun y u => post (some y) u) :
    Ensures (unary (bound + 1)) s post := by
  unfold unary
  rw [ensures_tokens, front]
  simp only [noSign]
  refine operand.bind fun x t holds => ?_
  cases x with
  | none => exact absurd holds (present t)
  | some value =>
      dsimp only
      rw [ensures_tokens]
      exact (applied value t holds).bind fun _ _ => id

theorem ensures_primary {token : Token} {rest : List Token} (front : s.rest = token :: rest) :
    Ensures (primary (bound + 1)) s post ↔ Ensures (primaryAt bound token rest) s post := by
  rw [primary_eq, ensures_tokens, front]

end

/-! ## Terms without operators -/

section

variable {term : Term} {bound power : Nat} {s : Reading} {rest : List Token}

/-- What is read with its signs and casts up to the end of a term is read as the whole term. -/
theorem Reads.of_unary {shape : Expr} (ends : Ends rest)
    (read : Ensures (unary bound) s (Reads shape rest s)) :
    Ensures (binary (bound + 1) power) s (Reads shape rest s) := by
  refine ensures_binary read (fun _ => Reads.not_none) fun left t reads => ?_
  refine (ensures_operatorsFrom_none ?_).mpr reads
  rw [reads.rest]
  exact ends.operator?_eq_none

/-- What is read as a primary expression up to the end of a term is read as the whole term. -/
theorem Reads.of_primary {shape : Expr} {token : Token} {others : List Token}
    (front : s.rest = token :: others) (noSign : unaryOperator? token.kind = none)
    (ends : Ends rest) (covers : Covers 3 bound s)
    (read : ∀ {bound : Nat}, Covers 1 (bound + 1) s →
      Ensures (primaryAt bound token others) s (Reads shape rest s)) :
    Ensures (binary bound power) s (Reads shape rest s) := by
  obtain ⟨bound, rfl⟩ := covers.exists_succ
  obtain ⟨bound, rfl⟩ := covers.pred.exists_succ
  obtain ⟨bound, rfl⟩ := covers.pred.pred.exists_succ
  refine Reads.of_unary ends (ensures_unary front noSign
    ((ensures_primary front).mpr (read covers.pred.pred)) (fun _ => Reads.not_none)
    fun value t reads => ?_)
  exact (ensures_castsFrom_none (ends.not_isAt (by decide) reads.rest)).mpr reads

/-- A column is read with its signs and casts where its name ends. -/
theorem unary_column {column : Column} {run : List Token} (spelled : column.SpelledBy run)
    (ends : EndsName rest) (front : s.rest = run ++ rest) (covers : Covers 2 bound s) :
    Ensures (unary bound) s (Reads (.column column) rest s) := by
  obtain ⟨bound, rfl⟩ := covers.exists_succ
  obtain ⟨bound, rfl⟩ := covers.pred.exists_succ
  obtain ⟨first, others, start, stop, rfl, spells⟩ := spelled.spells
  rw [List.cons_append] at front
  have found : Ensures columnExpr? s (Reads (.column column) rest s) := by
    unfold columnExpr?
    refine (column?_of_spells spells spelled.ended front ends.not_continuesColumn).bind ?_
    rintro _ t ⟨⟨found, rfl, named, complete, parts, quoted⟩, errors, left⟩
    refine ⟨⟨_, rfl, ?_⟩, errors, left⟩
    rw [Expr.relocate, Column.relocate, Relocation.extent, complete, named, parts, quoted,
      ← spelled.name, ← spelled.quoted]
    exact congrArg (fun extent => Expr.column ⟨extent, _, _, _⟩) spelled.placed.symm
  have noCall : ((others ++ rest).head?.any fun next => next.kind == .openParen) = false := by
    cases others with
    | nil => exact ends.head?_any .openParen (by decide)
    | cons second others =>
        refine beq_eq_false_iff_ne.mpr fun opens => ?_
        have inside := spells.continues second (.tail _ (.head _))
        rw [opens] at inside
        cases inside
  have starts := spells.starts
  have operand : Ensures (primaryAt bound first (others ++ rest)) s
      (Reads (.column column) rest s) := by
    unfold primaryAt
    cases kind : first.kind with
    | word name =>
        dsimp only
        unfold callExpr?
        rwa [noCall, if_neg Bool.false_ne_true]
    | quoted name terminated => exact found
    | _ => rw [kind] at starts; cases starts
  have noSign : unaryOperator? first.kind = none := by
    cases kind : first.kind with
    | word name => rfl
    | quoted name terminated => rfl
    | _ => rw [kind] at starts; cases starts
  refine ensures_unary front noSign ((ensures_primary front).mpr operand)
    (fun _ => Reads.not_none) fun value t reads => ?_
  refine (ensures_castsFrom_none ?_).mpr reads
  rw [Reading.isAt, reads.rest]
  exact ends.head?_any .doubleColon (by decide)

theorem isRead_column (name : BareColumn) : IsRead (.column name) := by
  intro run rest bound s spells ends front ready covers
  obtain ⟨bound, rfl⟩ := covers.exists_succ
  exact Reads.of_unary ends (unary_column spells.column ends.endsName front covers.pred)

/-- An integer is no interval unless a word follows. -/
theorem integerExpr?_of_noUnit {token : Token}
    (noUnit : (rest.head?.any fun unit => unit.kind.isWord) = false) :
    integerExpr? token rest = literalExpr? .integer token.text false := by
  cases rest with
  | nil => rfl
  | cons unit rest =>
      have other : unit.kind.isWord = false := noUnit
      rw [integerExpr?, other, if_neg Bool.false_ne_true]

/-- A leaf is read from its token, whatever kind of value it is. -/
theorem primaryAt_leaf {leaf : Leaf} {token : Token} (kind : token.kind = leaf.tokenKind)
    (text : token.text = String.ofList leaf.chars)
    (noUnit : (rest.head?.any fun unit => unit.kind.isWord) = false) :
    primaryAt bound token rest = literalExpr? leaf.kind leaf.value false := by
  unfold primaryAt
  rw [kind]
  cases leaf with
  | integer digits => exact (integerExpr?_of_noUnit noUnit).trans (by rw [text]; rfl)
  | decimal digits => exact congrArg (literalExpr? .decimal · false) text
  | param name mark => rfl
  | string value => rfl
  | boolean value =>
      have lower : token.lower = (Leaf.boolean value).value := by
        rw [Token.lower, text]
        cases value <;> decide +kernel
      cases value <;> exact congrArg (literalExpr? .boolean · false) lower
  | null =>
      have lower : token.lower = "null" := by
        rw [Token.lower, text]
        decide +kernel
      exact congrArg (literalExpr? .null · false) lower

theorem isRead_literal (leaf : Leaf) : IsRead (.literal leaf) := by
  rintro run rest bound s ⟨token, rfl, kind, text⟩ ends front - covers
  rw [List.singleton_append] at front
  have noSign : unaryOperator? token.kind = none := by
    rw [kind]
    cases leaf with
    | boolean value => cases value <;> rfl
    | _ => rfl
  refine Reads.of_primary front noSign ends covers fun _ => ?_
  rw [primaryAt_leaf kind text (ends.head?_any TokenKind.isWord (by decide))]
  exact ⟨⟨_, rfl, rfl⟩, Reading.errors_advance s, Reading.advance_rest front⟩

end

/-! ## Lists of terms -/

/-- Complete expressions of these shapes were read up to a rest, and nothing was recorded. -/
structure ReadsAll (shapes : List Expr) (rest : List Token) (s : Reading) (read : Parts Expr)
    (t : Reading) : Prop where
  items : read.items.map (Expr.relocate .nowhere) = shapes
  complete : read.complete = true
  errors : t.errors = s.errors
  rest : t.rest = rest

/-- Nothing was recorded before, either. -/
theorem ReadsAll.before {shapes : List Expr} {rest : List Token} {s t u : Reading}
    {read : Parts Expr} (reads : ReadsAll shapes rest t read u) (errors : t.errors = s.errors) :
    ReadsAll shapes rest s read u :=
  ⟨reads.items, reads.complete, reads.errors.trans errors, reads.rest⟩

/-- A kind of token that closes a listing. -/
def Closer (close : TokenKind) : Prop := close = .closeParen ∨ close = .closeBracket

theorem Closer.ends {token : Token} (closer : Closer token.kind) (rest : List Token) :
    Ends (token :: rest) := by
  rintro _ ⟨⟩
  rcases closer with found | found <;> (rw [found]; decide)

theorem not_isAt_of_startsTerm {s : Reading} {first : Token} {others : List Token}
    {close : TokenKind} (front : s.rest = first :: others)
    (starts : Term.startsTerm first.kind = true) (closes : Term.startsTerm close = false) :
    s.isAt close = false := by
  rw [Reading.isAt, front]
  refine beq_eq_false_iff_ne.mpr fun same => ?_
  rw [same, closes] at starts
  cases starts

theorem not_isWholeRow_of_startsTerm {first : Token} {others : List Token}
    (starts : Term.startsTerm first.kind = true) : isWholeRow (first :: others) = false := by
  have noStar : (first.kind == .star) = false := by
    refine beq_eq_false_iff_ne.mpr fun same => ?_
    rw [same] at starts
    cases starts
  cases others with
  | nil => rfl
  | cons second others => rw [isWholeRow, noStar, Bool.false_and]

section

variable {items : List Term} {run rest : List Token} {closing : Token} {starred : Bool}
  {bound : Nat} {s : Reading}

/-- What is done behind an item of a listing. -/
def afterItem? (bound : Nat) (close : TokenKind) (starred : Bool) : Option Expr → Rule (Parts Expr)
  | none => pure .halted
  | some item => do
      if item.incomplete then pure (.one item true)
      else if ← accept .comma then
        pure ((Parts.one item false).append (← itemsFrom bound close starred))
      else if ← accept close then pure (.one item false)
      else
        expected (afterItem close)
        pure (.one item true)

theorem ensures_itemsFrom {close : TokenKind} {post : Parts Expr → Reading → Prop}
    (noStar : isWholeRow s.rest = false) :
    Ensures (itemsFrom (bound + 1) close starred) s post ↔
      Ensures (binary bound Power.or >>= afterItem? bound close starred) s post := by
  unfold itemsFrom
  rw [ensures_tokens, noStar, Bool.and_false, if_neg Bool.false_ne_true]
  rfl

/-- Behind an item and a comma, the items that follow are read. -/
theorem ensures_itemsFrom_comma {term : Term} {comma : Token} {close : TokenKind}
    {post : Parts Expr → Reading → Prop} (inner : IsRead term) (spelled : term.Spells run)
    (found : comma.kind = .comma) (front : s.rest = run ++ comma :: rest) (ready : s.Ready)
    (covers : Covers 4 (bound + 1) s)
    (behind : ∀ (item : Expr) (t : Reading), item.relocate .nowhere = term.expr →
      t.errors = s.errors → t.rest = rest → t.Ready → Covers 4 bound t →
      Ensures (itemsFrom bound close starred) t fun read u =>
        post ((Parts.one item false).append read) u) :
    Ensures (itemsFrom (bound + 1) close starred) s post := by
  have noStar : isWholeRow s.rest = false := by
    obtain ⟨first, others, rfl, starts⟩ := spelled.head
    rw [front]
    exact not_isWholeRow_of_startsTerm starts
  have ends : Ends (comma :: rest) := by
    rintro _ ⟨⟩
    rw [found]
    decide
  rw [ensures_itemsFrom noStar]
  refine ((inner spelled ends front ready covers.pred).and
    ((expressionOutcomes bound).binary Power.or s)).bind ?_
  rintro _ t ⟨⟨⟨item, rfl, same⟩, errors, left⟩, outcome⟩
  have passed := outcome.passage.follows
  have covers : Covers 4 bound t.advance :=
    covers_advance left (covers.pred.mono passed.length_le (Nat.le_refl 3)) (by decide)
  have comma : t.isAt .comma = true := by simp [Reading.isAt, left, found]
  unfold afterItem?
  dsimp only
  rw [Term.complete_of_relocate same, if_neg Bool.false_ne_true, ensures_accepted comma, if_pos rfl]
  exact (behind item t.advance same ((Reading.errors_advance t).trans errors)
    (Reading.advance_rest left) (ready_advance left (passed.ready ready)) covers).bind
    fun _ _ => id

/-- A complete item before what closes the listing. -/
theorem afterItem?_closed {item : Expr} (complete : item.incomplete = false)
    (closer : Closer closing.kind) (front : s.rest = closing :: rest) :
    Ensures (afterItem? bound closing.kind starred (some item)) s
      (ReadsAll [item.relocate .nowhere] rest s) := by
  have noComma : s.isAt .comma = false := by
    rw [Reading.isAt, front]
    rcases closer with found | found <;> (rw [List.head?_cons, Option.any_some, found]; rfl)
  have closed : s.isAt closing.kind = true := by simp [Reading.isAt, front]
  unfold afterItem?
  dsimp only
  rw [complete, if_neg Bool.false_ne_true, ensures_refused noComma, if_neg Bool.false_ne_true,
    ensures_accepted closed]
  exact ⟨rfl, rfl, Reading.errors_advance s, Reading.advance_rest front⟩

/-- The items of a listing are read one by one, and what closes it is read behind them. -/
theorem itemsFrom_reads (given : items ≠ []) (each : ∀ term ∈ items, IsRead term)
    (spells : Term.SpellsAll items run) (closer : Closer closing.kind)
    (front : s.rest = run ++ closing :: rest) (ready : s.Ready) (covers : Covers 4 bound s) :
    Ensures (itemsFrom bound closing.kind starred) s (ReadsAll (Term.exprs items) rest s) := by
  induction items generalizing run bound s with
  | nil => contradiction
  | cons term items ih =>
      rw [List.forall_mem_cons] at each
      obtain ⟨bound, rfl⟩ := covers.exists_succ
      cases items with
      | nil =>
          have noStar : isWholeRow s.rest = false := by
            obtain ⟨first, others, rfl, starts⟩ := spells.head
            rw [front]
            exact not_isWholeRow_of_startsTerm starts
          rw [ensures_itemsFrom noStar]
          refine (each.1 spells (closer.ends rest) front ready covers.pred).bind ?_
          rintro _ t ⟨⟨item, rfl, same⟩, errors, left⟩
          have closed : Ensures (afterItem? bound closing.kind starred (some item)) t
              (ReadsAll [item.relocate .nowhere] rest t) :=
            afterItem?_closed (Term.complete_of_relocate same) closer left
          rw [same] at closed
          exact closed.mono fun read u reads => reads.before errors
      | cons second items =>
          obtain ⟨first, _, rfl, spelled, _, others, rfl, single, behind⟩ := spells
          obtain ⟨comma, rfl, found⟩ := kinds_singleton.mp single
          rw [List.append_assoc, List.append_assoc, List.singleton_append] at front
          refine ensures_itemsFrom_comma each.1 spelled found front ready covers ?_
          intro item t same errors left ready covers
          refine (ih (List.cons_ne_nil _ _) each.2 behind left ready covers).mono ?_
          intro read u reads
          exact ⟨congrArg₂ List.cons same reads.items, reads.complete, reads.errors.trans errors,
            reads.rest⟩

/-- A listing of terms is read through what closes it. -/
theorem listing_reads (each : ∀ term ∈ items, IsRead term) (spells : Term.SpellsAll items run)
    (closer : Closer closing.kind) (front : s.rest = run ++ closing :: rest) (ready : s.Ready)
    (covers : Covers 5 bound s) :
    Ensures (listing bound closing.kind starred) s (ReadsAll (Term.exprs items) rest s) := by
  obtain ⟨bound, rfl⟩ := covers.exists_succ
  unfold listing
  cases items with
  | nil =>
      obtain rfl : run = [] := spells
      have closed : s.isAt closing.kind = true := by simp [Reading.isAt, front]
      rw [ensures_accepted closed]
      exact ⟨rfl, rfl, Reading.errors_advance s, Reading.advance_rest front⟩
  | cons term items =>
      obtain ⟨first, others, rfl, starts⟩ := spells.head
      have opened : s.isAt closing.kind = false := by
        refine not_isAt_of_startsTerm front starts ?_
        rcases closer with found | found <;> (rw [found]; rfl)
      rw [ensures_refused opened]
      exact itemsFrom_reads (List.cons_ne_nil _ _) each spells closer front ready covers.pred

end

/-! ## Terms in brackets -/

section

variable {term : Term} {items : List Term} {bound : Nat} {s : Reading} {run rest : List Token}

/-- A list in brackets is read. -/
theorem isRead_list (each : ∀ term ∈ items, IsRead term) : IsRead (.list items) := by
  intro run rest bound s spells ends front ready covers
  obtain ⟨opening, body, closing, rfl, opens, inside, closes⟩ := exists_within spells
  rw [List.cons_append, List.append_assoc, List.singleton_append] at front
  refine Reads.of_primary front (by rw [opens]; rfl) ends covers fun covers => ?_
  have next : s.advance.rest = body ++ closing :: rest := Reading.advance_rest front
  have covers : Covers 5 _ s.advance := covers_advance front covers.pred (by decide)
  have ready : s.advance.Ready := ready_advance front ready
  unfold primaryAt
  rw [opens]
  dsimp only
  unfold listExpr?
  rw [ensures_advance, ← closes]
  refine (listing_reads each inside (.inr closes) next ready covers).bind fun read t reads => ?_
  rw [ensures_extent, reads.complete]
  refine ⟨⟨_, rfl, ?_⟩, reads.errors.trans (Reading.errors_advance s), reads.rest⟩
  rw [Expr.relocate, Expr.relocateAll_eq_map, reads.items]
  rfl

/-- A call is read with its arguments. -/
theorem isRead_call (name : BareWord) (each : ∀ term ∈ items, IsRead term) :
    IsRead (.call name items) := by
  rintro run rest bound s ⟨_, _, rfl, ⟨token, rfl, kind, text⟩, group⟩ ends front ready covers
  obtain ⟨opening, body, closing, rfl, opens, inside, closes⟩ := exists_within group
  simp only [List.cons_append, List.nil_append, List.append_assoc] at front
  refine Reads.of_primary front (by rw [kind]; rfl) ends covers fun covers => ?_
  have next : (s.skip 2).rest = body ++ closing :: rest := by
    rw [Reading.rest_skip, front]
    rfl
  have covers : Covers 5 _ (s.skip 2) := covers.pred.less (by rw [next, front]; simp) (by decide)
  have ready : (s.skip 2).Ready := ready_skip ready 2
  have opened : ((opening :: (body ++ closing :: rest)).head?.any fun next =>
      next.kind == .openParen) = true := beq_iff_eq.mpr opens
  unfold primaryAt
  rw [kind]
  dsimp only
  unfold callExpr?
  rw [opened, if_pos rfl, ensures_skip, ← closes]
  refine (listing_reads each inside (.inl closes) next ready covers).bind fun read t reads => ?_
  rw [ensures_extent, reads.complete]
  refine ⟨⟨_, rfl, ?_⟩, reads.errors.trans (Reading.errors_skip s 2), reads.rest⟩
  rw [Expr.relocate, Expr.relocateAll_eq_map, reads.items, Token.lower, text]
  rfl

/-- A term in parentheses was read, and it does not start where they open. -/
structure ReadsGroup (shape : Expr) (rest : List Token) (s : Reading) (x : Option Expr)
    (t : Reading) : Prop extends Reads shape rest s x t where
  inside : ∀ expr ∈ x, s.nextStart < expr.span.start

variable (inner : IsRead term) (group : Group term.Spells run) (front : s.rest = run ++ rest)
  (ready : s.Ready)

include inner group front ready

theorem primary_group (covers : Covers 1 bound s) :
    Ensures (primary bound) s (ReadsGroup term.expr rest s) := by
  obtain ⟨bound, rfl⟩ := covers.exists_succ
  obtain ⟨opening, body, closing, rfl, opens, inside, closes⟩ := exists_within group
  rw [List.cons_append, List.append_assoc, List.singleton_append] at front
  have next : s.advance.rest = body ++ closing :: rest := Reading.advance_rest front
  have covers : Covers 3 bound s.advance :=
    covers_advance front covers.pred (by decide)
  have ready' : s.advance.Ready := ready_advance front ready
  have ends : Ends (closing :: rest) := Closer.ends (.inl closes) rest
  rw [ensures_primary front]
  unfold primaryAt
  rw [opens]
  dsimp only
  unfold groupExpr?
  rw [ensures_advance]
  refine ((inner inside ends next ready' covers).and
    ((expressionOutcomes bound).binary Power.or s.advance)).bind ?_
  rintro _ t ⟨⟨⟨expr, rfl, same⟩, errors, left⟩, outcome⟩
  have closed : t.isAt .closeParen = true := by simp [Reading.isAt, left, closes]
  unfold closeGroup
  dsimp only
  rw [Term.complete_of_relocate same, if_neg Bool.false_ne_true, ensures_accepted closed]
  refine ⟨⟨⟨expr, rfl, same⟩, ?_, Reading.advance_rest left⟩, ?_⟩
  · exact (Reading.errors_advance t).trans (errors.trans (Reading.errors_advance s))
  · rintro _ ⟨⟩
    have starts := (outcome.placed ready').bounds.1
    rw [Reading.lastStop_advance front] at starts
    have nonempty := (ready.head front).1.nonempty
    rw [Reading.nextStart, front]
    exact Nat.lt_of_lt_of_le nonempty starts

theorem unary_group (noCast : (rest.head?.any fun token => token.kind == .doubleColon) = false)
    (covers : Covers 2 bound s) : Ensures (unary bound) s (ReadsGroup term.expr rest s) := by
  obtain ⟨bound, rfl⟩ := covers.exists_succ
  obtain ⟨opening, body, closing, whole, opens, -, -⟩ := exists_within group
  have first : s.rest = opening :: (body ++ [closing] ++ rest) := by
    rw [front, whole, List.cons_append]
  refine ensures_unary first (by rw [opens]; rfl)
    (primary_group inner group front ready covers.pred) (fun _ reads => reads.not_none)
    fun value t reads => ?_
  refine (ensures_castsFrom_none ?_).mpr reads
  rwa [Reading.isAt, reads.rest]

theorem binary_group {power : Nat} (none : operator? rest = none)
    (noCast : (rest.head?.any fun token => token.kind == .doubleColon) = false)
    (covers : Covers 3 bound s) : Ensures (binary bound power) s (ReadsGroup term.expr rest s) := by
  obtain ⟨bound, rfl⟩ := covers.exists_succ
  refine ensures_binary (unary_group inner group front ready noCast covers.pred)
    (fun _ reads => reads.not_none) fun value t reads => ?_
  refine (ensures_operatorsFrom_none ?_).mpr reads
  rw [reads.rest, none]

end

/-! ## Operators -/

theorem operator?_power {tokens : List Token} {operator : Operator}
    (found : operator? tokens = some operator) : Power.or ≤ operator.power := by
  unfold operator? at found
  split at found
  · cases found
  split at found
  case h_7 =>
    obtain ⟨next, -, bound⟩ := Option.bind_eq_some_iff.mp found
    obtain ⟨keyword, -, negated⟩ := Option.bind_eq_some_iff.mp bound
    unfold negatedTest? at negated
    split at negated <;> cases negated <;> decide
  case h_8 =>
    obtain ⟨symbol, -, same⟩ := Option.bind_eq_some_iff.mp found
    split at same <;> cases same <;> exact Nat.succ_pos _
  all_goals
    cases found
    decide

theorem operator?_not_doubleColon {tokens : List Token} {operator : Operator}
    (found : operator? tokens = some operator) :
    (tokens.head?.any fun token => token.kind == .doubleColon) = false := by
  cases tokens with
  | nil => rfl
  | cons token rest =>
      refine beq_eq_false_iff_ne.mpr fun same => ?_
      rw [operator?, same] at found
      cases found

/-- The operator between two operands is found from the tokens that are written for it. -/
theorem operator?_connective {connective : Connective} {symbol : List Token}
    (kinds : Kinds connective.kinds symbol) (rest : List Token) :
    ∃ operator, operator? (symbol ++ rest) = some operator ∧ operator.name = connective.name ∧
      operator.shape = .binary ∧ operator.width = symbol.length ∧
      operator.power = connective.strength := by
  cases connective
  case notLike | notRlike =>
    obtain ⟨word, _, rfl, negates, single⟩ := kinds.exists_cons
    obtain ⟨test, rfl, found⟩ := kinds_singleton.mp single
    rw [List.cons_append, List.singleton_append, operator?, negates, List.head?_cons,
      Option.bind_some, found]
    exact ⟨_, rfl, rfl, rfl, rfl, rfl⟩
  all_goals
    obtain ⟨token, rfl, found⟩ := kinds_singleton.mp kinds
    rw [List.singleton_append, operator?, found]
    exact ⟨_, rfl, rfl, rfl, rfl, rfl⟩

/-- The membership test is found from its words. -/
theorem operator?_member {negated : Bool} {symbol : List Token}
    (kinds : Kinds (Term.memberKinds negated) symbol) (rest : List Token) :
    ∃ operator, operator? (symbol ++ rest) = some operator ∧
      operator.name = Term.memberName negated ∧ operator.shape = .membership ∧
      operator.width = symbol.length := by
  cases negated with
  | false =>
      obtain ⟨token, rfl, found⟩ := kinds_singleton.mp kinds
      rw [List.singleton_append, operator?, found]
      exact ⟨_, rfl, rfl, rfl, rfl⟩
  | true =>
      obtain ⟨word, _, rfl, negates, single⟩ := kinds.exists_cons
      obtain ⟨test, rfl, found⟩ := kinds_singleton.mp single
      rw [List.cons_append, List.singleton_append, operator?, negates, List.head?_cons,
        Option.bind_some, found]
      exact ⟨_, rfl, rfl, rfl, rfl⟩

section

variable {left right : Term} {items : List Term} {group others rest : List Token} {bound : Nat}
  {s : Reading} {shape : Expr} {operator : Operator}

/-- An operand in parentheses is read up to the operator behind it, which is applied to it. -/
theorem ensures_operator {post : Option Expr → Reading → Prop} (inner : IsRead left)
    (bracket : Group left.Spells group) (front : s.rest = group ++ others) (ready : s.Ready)
    (covers : Covers 3 bound s) (found : operator? others = some operator)
    (applied : ∀ {bound : Nat} {value : Expr} {t : Reading},
      value.relocate .nowhere = left.expr → t.errors = s.errors → t.rest = others → t.Ready →
      Covers 1 (bound + 1) t →
      Ensures (applyOperator bound operator value >>= operatorsFrom bound Power.or)
        (t.skip operator.width) fun y u => post (some y) u) :
    Ensures (binary bound Power.or) s post := by
  obtain ⟨bound, rfl⟩ := covers.exists_succ
  obtain ⟨bound, rfl⟩ := covers.pred.exists_succ
  have operand := unary_group inner bracket front ready (operator?_not_doubleColon found)
    covers.pred
  refine ensures_binary (operand.and ((expressionOutcomes _).unary s))
    (fun _ holds => holds.1.not_none) ?_
  rintro value t ⟨reads, outcome⟩
  obtain ⟨_, ⟨⟩, same⟩ := reads.expr
  have operator? : operator? t.rest = some operator := reads.rest ▸ found
  rw [ensures_operatorsFrom_some operator? (Term.complete_of_relocate same) (operator?_power found)]
  have passed := outcome.passage.follows
  exact applied same reads.errors reads.rest (passed.ready ready)
    (covers.pred.mono passed.length_le (by decide))

/-- What an operator makes of an operand in parentheses is read, if the term ends behind it. -/
theorem Reads.of_operator (inner : IsRead left) (bracket : Group left.Spells group)
    (front : s.rest = group ++ others) (ends : Ends rest) (ready : s.Ready)
    (covers : Covers 3 bound s) (found : operator? others = some operator)
    (applied : ∀ {bound : Nat} {value : Expr} {t : Reading},
      value.relocate .nowhere = left.expr → t.rest = others → t.Ready → Covers 1 (bound + 1) t →
      Ensures (applyOperator bound operator value) (t.skip operator.width) fun y u =>
        Reads shape rest t (some y) u) :
    Ensures (binary bound Power.or) s (Reads shape rest s) := by
  refine ensures_operator inner bracket front ready covers found ?_
  intro bound value t same errors left ready covers
  refine (applied same left ready covers).bind fun y u whole => ?_
  rw [ensures_operatorsFrom_none]
  · exact ⟨whole.expr, whole.errors.trans errors, whole.rest⟩
  · rw [whole.rest]
    exact ends.operator?_eq_none

/-- The tokens of an operator are passed over. -/
theorem skip_operator {t : Reading} {symbol : List Token}
    (found : operator? (symbol ++ others) = some operator) (width : operator.width = symbol.length)
    (left : t.rest = symbol ++ others) :
    (t.skip operator.width).rest = others ∧
      (t.skip operator.width).rest.length + 1 ≤ t.rest.length := by
  have passed : (t.skip operator.width).rest = others := by
    rw [Reading.rest_skip, left, width, List.drop_left]
  have positive := (operator?_width found).2
  rw [passed, left, List.length_append]
  exact ⟨rfl, by omega⟩

/-- Two complete operands and the name of their operator. -/
theorem binaryNode_reads {t : Reading} {name : String} {first second firstShape secondShape : Expr}
    (same : first.relocate .nowhere = firstShape) (same' : second.relocate .nowhere = secondShape)
    (complete : second.incomplete = false) :
    Ensures (binaryNode name first (some second)) t fun y u => u = t ∧
      y.relocate .nowhere = .apply name .binary [firstShape, secondShape] .nowhere := by
  have finished : isUnfinished (some second) = false := complete
  subst same same'
  unfold binaryNode
  rw [ensures_extent, finished]
  exact ⟨rfl, rfl⟩

/-- An operator between two operands is read by itself. -/
theorem isRead_binary {connective : Connective} (first : IsRead left) (second : IsRead right) :
    IsRead (.binary connective left right) := by
  rintro run rest bound s ⟨group, _, rfl, bracket, symbol, behind, rfl, kinds, bracket'⟩ ends front
    ready covers
  obtain ⟨operator, found, name, shape, width, -⟩ := operator?_connective kinds (behind ++ rest)
  rw [List.append_assoc, List.append_assoc] at front
  refine Reads.of_operator first bracket front ends ready covers found ?_
  intro bound value t same left ready covers
  obtain ⟨next, shorter⟩ := skip_operator found width left
  have ready : (t.skip operator.width).Ready := ready_skip ready _
  unfold applyOperator
  rw [shape]
  refine (binary_group second bracket' next ready ends.operator?_eq_none
    (ends.head?_any (· == .doubleColon) (by decide))
    (covers.pred.less shorter (by decide))).bind ?_
  rintro _ u ⟨⟨⟨operand, rfl, same'⟩, errors, left'⟩, -⟩
  refine (binaryNode_reads same same' (Term.complete_of_relocate same')).mono ?_
  rintro y _ ⟨rfl, whole⟩
  rw [name] at whole
  exact ⟨⟨y, rfl, whole⟩, errors.trans (Reading.errors_skip t _), left'⟩

/-- The list on the right of a membership test is read. -/
theorem memberList_reads {t : Reading} {run : List Token} (each : ∀ term ∈ items, IsRead term)
    (spells : Group (Term.SpellsAll items) run) (left : t.rest = run ++ rest) (ready : t.Ready)
    (covers : Covers 6 bound t) :
    Ensures (memberList bound) t (Reads (.list (Term.exprs items) .nowhere) rest t) := by
  obtain ⟨bound, rfl⟩ := covers.exists_succ
  obtain ⟨opening, body, closing, rfl, opens, inside, closes⟩ := exists_within spells
  rw [List.cons_append, List.append_assoc, List.singleton_append] at left
  have next : t.advance.rest = body ++ closing :: rest := Reading.advance_rest left
  have covers : Covers 5 bound t.advance :=
    covers_advance left covers.pred (by decide)
  have ready : t.advance.Ready := ready_advance left ready
  unfold memberList
  rw [ensures_accepted? left opens, ← closes]
  refine (listing_reads each inside (.inl closes) next ready covers).bind fun read u reads => ?_
  rw [ensures_extent, reads.complete]
  refine ⟨⟨_, rfl, ?_⟩, reads.errors.trans (Reading.errors_advance t), reads.rest⟩
  rw [Expr.relocate, Expr.relocateAll_eq_map, reads.items]
  rfl

/-- A test for membership is read with its list. -/
theorem isRead_member {negated : Bool} (first : IsRead left) (each : ∀ term ∈ items, IsRead term) :
    IsRead (.member negated left items) := by
  rintro run rest bound s ⟨group, _, rfl, bracket, symbol, behind, rfl, kinds, bracket'⟩ ends front
    ready covers
  obtain ⟨operator, found, name, shape, width⟩ := operator?_member kinds (behind ++ rest)
  rw [List.append_assoc, List.append_assoc] at front
  refine Reads.of_operator first bracket front ends ready covers found ?_
  intro bound value t same left ready covers
  obtain ⟨next, shorter⟩ := skip_operator found width left
  have ready : (t.skip operator.width).Ready := ready_skip ready _
  unfold applyOperator
  rw [shape]
  refine (memberList_reads each bracket' next ready
    (covers.pred.less shorter (by decide))).bind ?_
  rintro _ u ⟨⟨list, rfl, same'⟩, errors, left'⟩
  have complete : list.incomplete = false := by
    rw [← list.relocate_incomplete .nowhere, same']
    rfl
  refine (binaryNode_reads same same' complete).mono ?_
  rintro y _ ⟨rfl, whole⟩
  rw [name] at whole
  exact ⟨⟨y, rfl, whole⟩, errors.trans (Reading.errors_skip t _), left'⟩

/-- The words of a test for null are read behind the first of them. -/
theorem nullTest_reads {t : Reading} {value : Expr} {tests : List Token} {negated : Bool}
    (same : value.relocate .nowhere = shape)
    (kinds : Kinds (if negated then [.keyword .not, .keyword .null] else [.keyword .null]) tests)
    (left : t.rest = tests ++ rest) :
    Ensures (nullTest value) t fun y u =>
      Reads (.apply (Term.nullTestName negated) .trailing [shape] .nowhere) rest t (some y) u := by
  subst same
  unfold nullTest acceptWord
  cases negated with
  | false =>
      obtain ⟨word, rfl, null⟩ := kinds_singleton.mp kinds
      have refused : t.isAt (.keyword .not) = false := by simp [Reading.isAt, left, null]
      have accepted : t.isAt (.keyword .null) = true := by simp [Reading.isAt, left, null]
      rw [ensures_refused refused, ensures_accepted accepted]
      exact ⟨⟨_, rfl, rfl⟩, Reading.errors_advance t, Reading.advance_rest left⟩
  | true =>
      obtain ⟨first, _, rfl, negates, single⟩ := Kinds.exists_cons kinds
      obtain ⟨word, rfl, null⟩ := kinds_singleton.mp single
      have next : t.advance.rest = word :: rest := Reading.advance_rest left
      have accepted : t.isAt (.keyword .not) = true := by simp [Reading.isAt, left, negates]
      have accepted' : t.advance.isAt (.keyword .null) = true := by simp [Reading.isAt, next, null]
      rw [ensures_accepted accepted, ensures_accepted accepted']
      exact ⟨⟨_, rfl, rfl⟩, (Reading.errors_advance _).trans (Reading.errors_advance t),
        Reading.advance_rest next⟩

/-- A test for null is read. -/
theorem isRead_nullTest {negated : Bool} (inner : IsRead left) :
    IsRead (.nullTest negated left) := by
  rintro run rest bound s ⟨group, _, rfl, bracket, kinds⟩ ends front ready covers
  obtain ⟨word, tests, rfl, found, kinds⟩ := kinds.exists_cons
  rw [List.append_assoc, List.cons_append] at front
  have operator? : operator? (word :: (tests ++ rest)) =
      some ⟨"is null", Power.comparison, .nullTest, 1⟩ := by
    rw [operator?, found]
  refine Reads.of_operator inner bracket front ends ready covers operator? ?_
  intro bound value t same left _ _
  refine (nullTest_reads same kinds (Reading.advance_rest left)).mono ?_
  rintro y u ⟨expr, errors, left'⟩
  exact ⟨expr, errors.trans (Reading.errors_advance t), left'⟩

/-- A cast of an operand is read with its target. -/
theorem isRead_cast {target : BareWord} (inner : IsRead left) : IsRead (.cast left target) := by
  rintro run rest bound s ⟨group, _, rfl, bracket, _, _, rfl, colons, title⟩ ends front ready covers
  obtain ⟨colon, rfl, doubled⟩ := kinds_singleton.mp colons
  obtain ⟨word, rfl, named⟩ := kinds_singleton.mp title
  obtain ⟨opening, body, closing, whole, opens, -, -⟩ := exists_within bracket
  rw [List.append_assoc] at front
  have first : s.rest = opening :: (body ++ [closing] ++ (colon :: word :: rest)) := by
    rw [front, whole]
    simp
  obtain ⟨bound, rfl⟩ := covers.exists_succ
  obtain ⟨bound, rfl⟩ := covers.pred.exists_succ
  refine Reads.of_unary ends ?_
  refine ensures_unary first (by rw [opens]; rfl)
    (primary_group inner bracket front ready covers.pred.pred) (fun _ reads => reads.not_none)
    fun value t reads => ?_
  obtain ⟨_, ⟨⟩, same⟩ := reads.expr
  have left : t.rest = colon :: word :: rest := reads.rest
  have accepted : t.isAt .doubleColon = true := by simp [Reading.isAt, left, doubled]
  have next : t.advance.rest = word :: rest := Reading.advance_rest left
  have title : Ensures castType t.advance fun x u =>
      x = some (Text.lower target.name) ∧ u = t.advance.advance := by
    unfold castType
    rw [ensures_tokens, next, List.head?_cons, Option.bind_some, named]
    exact ⟨rfl, rfl⟩
  unfold castsFrom
  rw [Term.complete_of_relocate same, if_neg Bool.false_ne_true, ensures_accepted accepted,
    if_pos rfl]
  refine title.bind ?_
  rintro _ _ ⟨rfl, rfl⟩
  have last : t.advance.advance.rest = rest := Reading.advance_rest next
  rw [ensures_extent, ensures_castsFrom_none (ends.not_isAt (by decide) last)]
  refine ⟨⟨_, rfl, ?_⟩, ?_, last⟩
  · rw [Expr.relocate, same]
    rfl
  · rw [Reading.errors_advance, Reading.errors_advance, reads.errors]

/-- A number that does not begin where a sign ends does not take it in. -/
theorem signedLiteral?_eq_none {mark : Token} {name : String} {expr : Expr}
    (apart : expr.span.start ≠ mark.span.stop) : signedLiteral? mark name (some expr) = none := by
  cases expr with
  | literal number =>
      have differs : (number.span.start == mark.span.stop) = false := beq_eq_false_iff_ne.mpr apart
      rw [signedLiteral?, differs, Bool.and_false, if_neg Bool.false_ne_true]
  | _ => rfl

theorem unaryNode_reads {mark : Token} {name : String} {t : Reading} {expr : Expr}
    (same : expr.relocate .nowhere = shape) (complete : expr.incomplete = false)
    (apart : expr.span.start ≠ mark.span.stop) :
    Ensures (unaryNode mark name (some expr)) t fun y u => u = t ∧
      y.relocate .nowhere = .apply name .unary [shape] .nowhere := by
  have finished : isUnfinished (some expr) = false := complete
  subst same
  unfold unaryNode
  rw [signedLiteral?_eq_none apart]
  dsimp only
  rw [ensures_extent, finished]
  exact ⟨rfl, rfl⟩

theorem ensures_unary_sign {mark : Token} {name : String} {power : Nat}
    {post : Option Expr → Reading → Prop} (front : s.rest = mark :: others)
    (sign : unaryOperator? mark.kind = some (name, power)) :
    Ensures (unary (bound + 1)) s post ↔
      Ensures (do
        let operand ← binary bound power
        pure (some (← unaryNode mark name operand))) s.advance post := by
  unfold unary
  rw [ensures_tokens, front]
  simp only [sign]
  rfl

/-- The operand of a sign in parentheses is read by itself: even a number in them begins behind the
parenthesis, so that it does not take in the sign. -/
theorem isRead_unary {sign : Sign} (inner : IsRead left) : IsRead (.unary sign left) := by
  rintro run rest bound s ⟨_, group, rfl, single, bracket⟩ ends front ready covers
  obtain ⟨mark, rfl, kind⟩ := kinds_singleton.mp single
  rw [List.append_assoc, List.singleton_append] at front
  obtain ⟨power, operator⟩ : ∃ power, unaryOperator? mark.kind = some (sign.name, power) := by
    rw [kind]
    cases sign <;> exact ⟨_, rfl⟩
  obtain ⟨bound, rfl⟩ := covers.exists_succ
  obtain ⟨bound, rfl⟩ := covers.pred.exists_succ
  have next : s.advance.rest = group ++ rest := Reading.advance_rest front
  have ready : s.advance.Ready := ready_advance front ready
  have covers : Covers 3 bound s.advance :=
    covers_advance front covers.pred.pred (by decide)
  refine Reads.of_unary ends ?_
  rw [ensures_unary_sign front operator]
  refine (binary_group inner bracket next ready ends.operator?_eq_none
    (ends.head?_any (· == .doubleColon) (by decide)) covers).bind ?_
  rintro _ t ⟨⟨⟨operand, rfl, same⟩, errors, left⟩, inside⟩
  have apart : operand.span.start ≠ mark.span.stop := by
    obtain ⟨opening, body, closing, rfl, -, -, -⟩ := exists_within bracket
    have starts := (ready.head next).2
    have behind := inside operand rfl
    rw [Reading.nextStart, next] at behind
    rw [Reading.lastStop_advance front] at starts
    exact Nat.ne_of_gt (Nat.lt_of_le_of_lt starts behind)
  refine (unaryNode_reads same (Term.complete_of_relocate same) apart).bind ?_
  rintro y _ ⟨rfl, whole⟩
  exact ⟨⟨y, rfl, whole⟩, errors.trans (Reading.errors_advance s), left⟩

end

mutual

theorem isRead : ∀ term : Term, IsRead term
  | .column name => isRead_column name
  | .literal leaf => isRead_literal leaf
  | .list items => isRead_list (isRead_of_mem items)
  | .call name args => isRead_call name (isRead_of_mem args)
  | .binary _ left right => isRead_binary (isRead left) (isRead right)
  | .unary _ operand => isRead_unary (isRead operand)
  | .nullTest _ operand => isRead_nullTest (isRead operand)
  | .member _ operand items => isRead_member (isRead operand) (isRead_of_mem items)
  | .cast operand _ => isRead_cast (isRead operand)

theorem isRead_of_mem : ∀ items : List Term, ∀ term ∈ items, IsRead term
  | [] => List.forall_mem_nil _
  | first :: rest => List.forall_mem_cons.mpr ⟨isRead first, isRead_of_mem rest⟩

end

end Esql.Grammar
