import Esql.Proofs.Token.Term

/-!
# Lost points

Directly behind a bracket, a number that starts with its decimal point is scanned as a point and
what is left of the number. In a tight writing, a term that is not free of such numbers is spelled
up to the first of them.
-/

namespace Esql

namespace Term

open Token

/-- The operand in parentheses with which a term starts. -/
def leading? : Term → Option Term
  | .binary _ operand _ | .nullTest _ operand | .member _ operand _ | .cast operand _ =>
      some operand
  | .column _ | .literal _ | .list _ | .call .. | .unary .. => none

mutual

/-- The tokens spell a term up to a point that stands for the number behind it. -/
inductive Lost : Term → List Token → Prop
  | point {leaf : Leaf} {dot : Token} {rest : List Token} (kind : dot.kind = .dot) :
      Lost (.literal leaf) (dot :: rest)
  | leading {term operand : Term} {opening : Token} {rest : List Token}
      (first : term.leading? = some operand) (opens : opening.kind = .openParen)
      (inside : Lost operand rest) : Lost term (opening :: rest)
  | right {connective : Connective} {left right : Term} {group symbol : List Token}
      {opening : Token} {rest : List Token} (bracket : Group left.Spells group)
      (kinds : Kinds connective.kinds symbol) (opens : opening.kind = .openParen)
      (inside : Lost right rest) :
      Lost (.binary connective left right) (group ++ (symbol ++ opening :: rest))
  | unary {sign : Sign} {operand : Term} {mark opening : Token} {rest : List Token}
      (kind : mark.kind = sign.kind) (opens : opening.kind = .openParen)
      (inside : Lost operand rest) : Lost (.unary sign operand) (mark :: opening :: rest)
  | list {items : List Term} {opening : Token} {rest : List Token}
      (opens : opening.kind = .openBracket) (inside : LostAll items rest) :
      Lost (.list items) (opening :: rest)
  | call {name : BareWord} {args : List Term} {title opening : Token} {rest : List Token}
      (kind : title.kind = .word name.name) (opens : opening.kind = .openParen)
      (inside : LostAll args rest) : Lost (.call name args) (title :: opening :: rest)
  | member {negated : Bool} {operand : Term} {items : List Term} {group symbol : List Token}
      {opening : Token} {rest : List Token} (bracket : Group operand.Spells group)
      (kinds : Kinds (memberKinds negated) symbol) (opens : opening.kind = .openParen)
      (inside : LostAll items rest) :
      Lost (.member negated operand items) (group ++ (symbol ++ opening :: rest))

/-- The tokens spell a list of terms up to such a point. -/
inductive LostAll : List Term → List Token → Prop
  | first {term : Term} {items : List Term} {rest : List Token} (inside : Lost term rest) :
      LostAll (term :: items) rest
  | behind {term : Term} {items : List Term} {run : List Token} {comma : Token}
      {rest : List Token} (spelled : term.Spells run) (kind : comma.kind = .comma)
      (inside : LostAll items rest) : LostAll (term :: items) (run ++ comma :: rest)

end

/-- A term that is lost starts as one that is spelled does, or with the point itself. -/
theorem Lost.head {term : Term} {run : List Token} (lost : Lost term run) :
    ∃ first others, run = first :: others ∧ startsTerm first.kind = true := by
  cases lost with
  | point kind => exact ⟨_, _, rfl, kind ▸ rfl⟩
  | leading first opens inside => exact ⟨_, _, rfl, opens ▸ rfl⟩
  | right bracket kinds opens inside =>
      obtain ⟨first, others, rfl, starts⟩ := startsTerm_group bracket
      exact ⟨first, _, rfl, starts⟩
  | @unary sign _ mark _ _ kind opens inside =>
      refine ⟨mark, _, rfl, ?_⟩
      rw [kind]
      cases sign <;> rfl
  | list opens inside => exact ⟨_, _, rfl, opens ▸ rfl⟩
  | call kind opens inside => exact ⟨_, _, rfl, kind ▸ rfl⟩
  | member bracket kinds opens inside =>
      obtain ⟨first, others, rfl, starts⟩ := startsTerm_group bracket
      exact ⟨first, _, rfl, starts⟩

theorem LostAll.head {items : List Term} {run : List Token} (lost : LostAll items run) :
    ∃ first others, run = first :: others ∧ startsTerm first.kind = true := by
  cases lost with
  | first inside => exact inside.head
  | behind spelled kind inside =>
      obtain ⟨first, others, rfl, starts⟩ := Spells.head spelled
      exact ⟨first, _, rfl, starts⟩

end Term

namespace Token

theorem scanFrom_openParen (glued : Bool) (offset : Nat) (rest : List Char) :
    scanFrom ('(' :: rest) 0 glued offset =
      ⟨.openParen, "(", ⟨offset, offset + 1⟩⟩ :: scanFrom rest 0 true (offset + 1) :=
  scanFrom_mark rfl (by decide) (by decide) (by decide +kernel) rfl offset

theorem scanFrom_openBracket (glued : Bool) (offset : Nat) (rest : List Char) :
    scanFrom ('[' :: rest) 0 glued offset =
      ⟨.openBracket, "[", ⟨offset, offset + 1⟩⟩ :: scanFrom rest 0 true (offset + 1) :=
  scanFrom_mark rfl (by decide) (by decide) (by decide +kernel) rfl offset

end Token

namespace Term

open Token

theorem enclosed_tight (opening closing : Char) (body tail : List Char) :
    enclosed opening closing [] body ++ tail = opening :: (body ++ closing :: tail) := by
  simp [enclosed]

theorem blank_nil : Text.Blank [] := List.forall_mem_nil _

/-- An operand that is lost in parentheses. -/
def Hidden (operand : Term) : Prop :=
  (operand.isFreeOfPoints && !operand.startsWithPoint) = false

/-- Terms that are lost in brackets. -/
def HiddenAll (items : List Term) : Prop :=
  (areFreeOfPoints items && !items.head?.any startsWithPoint) = false

/-- A term that does not start with a point itself is only lost with some part of it. -/
theorem not_free_of_lost {term : Term} {glued : Bool} (other : term.startsWithPoint = false)
    (lost : term.isFreeOfPoints = true → glued = true ∧ term.startsWithPoint = true) :
    term.isFreeOfPoints = false := by
  refine Bool.eq_false_iff.mpr fun free => ?_
  rw [other] at lost
  exact Bool.noConfusion (lost free).2

theorem starts_of_hidden {free starts : Bool} (hidden : (free && !starts) = false)
    (shown : free = true) : true = true ∧ starts = true := by
  rw [shown, Bool.true_and, Bool.not_eq_false'] at hidden
  exact ⟨rfl, hidden⟩

theorem not_hidden {operand : Term} (shown : ¬ operand.Hidden) :
    operand.isFreeOfPoints = true ∧ operand.startsWithPoint = false := by
  rw [Hidden, Bool.not_eq_false, Bool.and_eq_true, Bool.not_eq_true'] at shown
  exact shown

/-- An operand that is not lost in parentheses is spelled in them. -/
theorem scans_shown {operand : Term} (shown : ¬ operand.Hidden) (glued : Bool)
    (tail : List Char) :
    Scans (Group operand.Spells) glued (enclosed '(' ')' [] (operand.chars [])) tail :=
  scans_group blank_nil (fun _ => (not_hidden shown).2)
    (scans blank_nil operand fun _ => (not_hidden shown).1) glued tail

/-- What is lost in parentheses behind an operator is lost behind an operand that is shown. -/
theorem lost_behind {term operand : Term} {kinds : List TokenKind} {symbol body tail : List Char}
    {inner : List Token → Prop} (shown : ¬ operand.Hidden)
    (scans : ∀ tail, Scans (Kinds kinds) false symbol (' ' :: tail))
    (lost : ∀ {tail : List Char}, Stops tail → ∀ offset,
      inner (scanFrom (body ++ tail) 0 true offset))
    (whole : ∀ {group symbols : List Token} {opening : Token} {rest : List Token},
      Group operand.Spells group → Kinds kinds symbols → opening.kind = .openParen → inner rest →
      Lost term (group ++ (symbols ++ opening :: rest))) (glued : Bool) (offset : Nat) :
    Lost term (scanFrom (enclosed '(' ')' [] (operand.chars []) ++
      ' ' :: (symbol ++ ' ' :: enclosed '(' ')' [] body) ++ tail) 0 glued offset) := by
  rw [List.append_assoc, List.cons_append, List.append_assoc, List.cons_append,
    enclosed_tight _ _ body]
  obtain ⟨group, after, stop, bracket, scanned⟩ := scans_shown shown glued
    (' ' :: (symbol ++ ' ' :: '(' :: (body ++ ')' :: tail))) offset
  obtain ⟨symbols, after', stop', kinds, scanned'⟩ := scans ('(' :: (body ++ ')' :: tail)) (stop + 1)
  rw [scanned, scanFrom_blank, scanned', scanFrom_blank, scanFrom_openParen]
  exact whole bracket kinds rfl (lost (stops_cons.mpr isMark_closeParen.1) _)

/-- A term that starts with an operand is written with the operand in parentheses first. -/
theorem chars_leading {term operand : Term} (first : term.leading? = some operand) :
    ∃ behind, term.chars [] = enclosed '(' ')' [] (operand.chars []) ++ behind := by
  cases term <;> cases first <;> exact ⟨_, rfl⟩

/-- A term that starts with an operand that is lost in parentheses is lost there. -/
theorem lost_leading {term operand : Term} (first : term.leading? = some operand)
    (inside : ∀ {tail : List Char}, Stops tail → ∀ offset,
      Lost operand (scanFrom (operand.chars [] ++ tail) 0 true offset))
    (glued : Bool) (tail : List Char) (offset : Nat) :
    Lost term (scanFrom (term.chars [] ++ tail) 0 glued offset) := by
  obtain ⟨behind, written⟩ := chars_leading first
  rw [written, List.append_assoc, enclosed_tight, scanFrom_openParen]
  exact .leading first rfl (inside (stops_cons.mpr isMark_closeParen.1) _)

mutual

/-- In a tight writing, a term with a number that is lost is scanned up to the first of them. -/
theorem lost_scanFrom : ∀ (term : Term) {glued : Bool} {tail : List Char}, Stops tail →
    (term.isFreeOfPoints = true → glued = true ∧ term.startsWithPoint = true) →
    ∀ offset, Lost term (scanFrom (term.chars [] ++ tail) 0 glued offset)
  | .column _, _, _, _, lost, _ => Bool.noConfusion (lost rfl).2
  | .literal leaf, _, _, _, lost, offset => by
      obtain ⟨rfl, starts⟩ := lost rfl
      obtain ⟨others, written⟩ := List.head?_eq_some_iff.mp (beq_iff_eq.mp starts)
      rw [chars, written, List.cons_append, scanFrom_point]
      exact .point rfl
  | .list items, _, tail, _, lost, offset => by
      have inside : HiddenAll items := not_free_of_lost rfl lost
      rw [chars, enclosed_tight, scanFrom_openBracket]
      exact .list rfl (lostAll_scanFrom items (stops_cons.mpr isMark_closeBracket.1)
        (starts_of_hidden inside) _)
  | .call name args, _, tail, _, lost, offset => by
      have inside : HiddenAll args := not_free_of_lost rfl lost
      obtain ⟨_, after, stop, ⟨title, rfl, kind, -⟩, scanned⟩ :=
        name.scans (stops_cons.mpr isMark_openParen.1) offset
      rw [chars, List.append_assoc, enclosed_tight, scanned, scanFrom_openParen]
      exact .call kind rfl (lostAll_scanFrom args (stops_cons.mpr isMark_closeParen.1)
        (starts_of_hidden inside) _)
  | .binary connective left right, glued, tail, _, lost, offset => by
      have parts := not_free_of_lost rfl lost
      by_cases first : left.Hidden
      · exact lost_leading rfl (fun stops => lost_scanFrom left stops (starts_of_hidden first))
          glued tail offset
      · have second : right.Hidden := by
          rw [isFreeOfPoints, Bool.and_assoc, Bool.and_eq_false_iff] at parts
          exact parts.resolve_left first
        exact lost_behind first connective.scans
          (fun stops => lost_scanFrom right stops (starts_of_hidden second)) .right glued offset
  | .unary sign operand, glued, tail, _, lost, offset => by
      have inside : operand.Hidden := not_free_of_lost rfl lost
      obtain ⟨_, after, stop, kinds, scanned⟩ :=
        sign.scans glued ('(' :: (operand.chars [] ++ ')' :: tail)) offset
      obtain ⟨mark, rfl, kind⟩ := kinds_singleton.mp kinds
      rw [chars, List.append_assoc, enclosed_tight, scanned, scanFrom_openParen]
      exact .unary kind rfl (lost_scanFrom operand (stops_cons.mpr isMark_closeParen.1)
        (starts_of_hidden inside) _)
  | .nullTest _ operand, glued, tail, _, lost, offset =>
      lost_leading rfl (fun stops => lost_scanFrom operand stops
        (starts_of_hidden (not_free_of_lost rfl lost))) glued tail offset
  | .member negated operand items, glued, tail, _, lost, offset => by
      have parts := not_free_of_lost rfl lost
      by_cases first : operand.Hidden
      · exact lost_leading rfl (fun stops => lost_scanFrom operand stops (starts_of_hidden first))
          glued tail offset
      · have second : HiddenAll items := by
          rw [isFreeOfPoints, Bool.and_assoc, Bool.and_eq_false_iff] at parts
          exact parts.resolve_left first
        exact lost_behind first (scans_member negated)
          (fun stops => lostAll_scanFrom items stops (starts_of_hidden second)) .member glued offset
  | .cast operand _, glued, tail, _, lost, offset =>
      lost_leading rfl (fun stops => lost_scanFrom operand stops
        (starts_of_hidden (not_free_of_lost rfl lost))) glued tail offset

theorem lostAll_scanFrom : ∀ (items : List Term) {glued : Bool} {tail : List Char}, Stops tail →
    (areFreeOfPoints items = true → glued = true ∧ items.head?.any startsWithPoint = true) →
    ∀ offset, LostAll items (scanFrom (listed [] items ++ tail) 0 glued offset)
  | [], _, _, _, lost, _ => Bool.noConfusion (lost rfl).2
  | [only], _, _, stops, lost, offset => by
      rw [areFreeOfPoints, areFreeOfPoints, Bool.and_true] at lost
      exact .first (lost_scanFrom only stops lost offset)
  | first :: second :: rest, glued, tail, stops, lost, offset => by
      rw [listed, List.append_assoc, List.cons_append]
      have stops' : Stops (',' :: ' ' :: (listed [] (second :: rest) ++ tail)) :=
        stops_cons.mpr isMark_comma.1
      by_cases hidden : first.isFreeOfPoints = true → glued = true ∧ first.startsWithPoint = true
      · exact .first (lost_scanFrom first stops' hidden offset)
      · rw [Classical.not_imp, not_and, Bool.not_eq_true] at hidden
        obtain ⟨_, after, stop, spelled, scanned⟩ :=
          scans blank_nil first (fun _ => hidden.1) stops' hidden.2 offset
        rw [List.cons_append, scanned, scanFrom_comma, scanFrom_blank]
        refine .behind spelled rfl (lostAll_scanFrom (second :: rest) stops (fun free => ?_) _)
        rw [areFreeOfPoints, hidden.1, free] at lost
        obtain ⟨beside, starts⟩ := lost rfl
        exact absurd starts (by rw [List.head?_cons, Option.any_some, hidden.2 beside]; decide)

end

end Term

end Esql
