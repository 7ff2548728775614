import Esql.Proofs.Grammar.Row

/-!
# Operators are grouped by strength

Columns with operators between them are read as the one tree in which each operator takes operators
at least as strong as itself on its left, and stronger ones on its right. While operators are read,
the tree on their left is only extended by operators of the required power, and the first weaker one
is left to the expression around.
-/

namespace Esql

open Token

/-- The tree of grouped columns, which stands nowhere. -/
def Grouping.expr : Grouping Column → Expr
  | .operand column => .column column
  | .apply connective left right =>
      .apply connective.name .binary [left.expr, right.expr] .nowhere

/-- Only a lone operand can be incomplete. -/
theorem Grouping.complete_expr {tree : Grouping Column}
    (complete : tree.first.incomplete = false) : tree.expr.incomplete = false := by
  cases tree with
  | operand column => exact complete
  | apply connective left right => rfl

theorem Grouping.complete_of_relocate {tree : Grouping Column} {expr : Expr}
    (complete : tree.first.incomplete = false) (same : expr.relocate .nowhere = tree.expr) :
    expr.incomplete = false := by
  rw [← expr.relocate_incomplete .nowhere, same, Grouping.complete_expr complete]

theorem Column.SpelledBy.complete {column : Column} {run : List Token}
    (spelled : column.SpelledBy run) : column.incomplete = false :=
  congrArg Extent.incomplete spelled.placed

/-- The tokens are operators, each with the column behind it. -/
def SpellsLinks : List (Connective × Column) → List Token → Prop
  | [] => (· = [])
  | (connective, column) :: links =>
      Then (Kinds connective.kinds) (Then column.SpelledBy (SpellsLinks links))

/-- The tokens are columns with operators between them. -/
def Chain.SpelledBy (chain : Chain Column) : List Token → Prop :=
  Then chain.first.SpelledBy (SpellsLinks chain.others)

namespace Grammar

variable {run tail : List Token} {links : List (Connective × Column)}

/-- What may follow columns with operators between them. -/
structure EndsChain (tail : List Token) : Prop where
  name : EndsName tail
  operator : operator? tail = none

/-- The first token of an operator does not go on with a name. -/
theorem endsName_connective {connective : Connective} {symbol rest : List Token}
    (kinds : Kinds connective.kinds symbol) : EndsName (symbol ++ rest) := by
  obtain ⟨kind, kinds', same, other⟩ : ∃ kind kinds, connective.kinds = kind :: kinds ∧
      continuesColumn false kind = false ∧ kind ∉ [.openParen, .doubleColon] := by
    cases connective <;> exact ⟨_, _, rfl, rfl, by decide⟩
  rw [same] at kinds
  obtain ⟨token, others, rfl, found, -⟩ := kinds.exists_cons
  rintro _ ⟨⟩
  rwa [found]

theorem endsName_links (spells : SpellsLinks links run) (ends : EndsChain tail) :
    EndsName (run ++ tail) := by
  cases links with
  | nil =>
      obtain rfl : run = [] := spells
      exact ends.name
  | cons link links =>
      obtain ⟨symbol, _, rfl, kinds, -⟩ := spells
      rw [List.append_assoc]
      exact endsName_connective kinds

theorem ensures_operatorsFrom_weaker {bound power : Nat} {left : Expr} {operator : Operator}
    {s : Reading} {post : Expr → Reading → Prop} (found : operator? s.rest = some operator)
    (weaker : operator.power < power) :
    Ensures (operatorsFrom bound power left) s post ↔ post left s := by
  cases bound with
  | zero => exact Iff.rfl
  | succ bound =>
      have stops : (left.incomplete || decide (operator.power < power)) = true := by
        rw [decide_eq_true weaker, Bool.or_true]
      unfold operatorsFrom
      rw [ensures_tokens, found]
      simp only [stops, if_true]
      exact Iff.rfl

/-- The operators that a rule reads extend a tree as far as they bind tightly enough. -/
def ReadsClimbed (power : Nat) (tree : Grouping Column) (links : List (Connective × Column))
    (tail : List Token) (s : Reading) (x : Option Expr) (t : Reading) : Prop :=
  ∃ whole rest run, Climbed power tree links whole rest ∧ SpellsLinks rest run ∧
    Reads whole.expr (run ++ tail) s x t

/-- A weaker operator, or none, leaves the tree as it is. -/
theorem operatorsFrom_stops {bound power : Nat} {tree : Grouping Column} {left : Expr}
    {s : Reading} (climbing : Climbing power tree links) (spells : SpellsLinks links run)
    (ends : EndsChain tail) (front : s.rest = run ++ tail)
    (same : left.relocate .nowhere = tree.expr)
    (weaker : ∀ link ∈ links.head?, link.1.strength < power) :
    Ensures (operatorsFrom bound power left) s fun x t =>
      ReadsClimbed power tree links tail s (some x) t := by
  have stays : ReadsClimbed power tree links tail s (some left) s :=
    ⟨tree, links, run, climbing.stop weaker, spells, ⟨_, rfl, same⟩, rfl, front⟩
  cases links with
  | nil =>
      obtain rfl : run = [] := spells
      exact (ensures_operatorsFrom_none (front ▸ ends.operator)).mpr stays
  | cons link links =>
      obtain ⟨symbol, behind, rfl, kinds, -⟩ := spells
      obtain ⟨operator, found, -, -, -, strength⟩ := operator?_connective kinds (behind ++ tail)
      rw [List.append_assoc] at front
      refine (ensures_operatorsFrom_weaker (front ▸ found) ?_).mpr stays
      rw [strength]
      exact weaker link rfl

/-- Under a bound, operators are added to a tree as they climb. -/
structure ChainRules (bound : Nat) : Prop where
  operatorsFrom : ∀ {power : Nat} {tree : Grouping Column} {links : List (Connective × Column)}
    {run tail : List Token} {left : Expr} {s : Reading}, Climbing power tree links →
    SpellsLinks links run → EndsChain tail → s.rest = run ++ tail →
    left.relocate .nowhere = tree.expr → tree.first.incomplete = false → s.Ready →
    Covers 1 bound s →
    Ensures (operatorsFrom bound power left) s fun x t =>
      ReadsClimbed power tree links tail s (some x) t
  binary : ∀ {power : Nat} {column : Column} {links : List (Connective × Column)}
    {first run tail : List Token} {s : Reading}, column.SpelledBy first → SpellsLinks links run →
    EndsChain tail → s.rest = first ++ (run ++ tail) → s.Ready → Covers 3 bound s →
    Ensures (binary bound power) s (ReadsClimbed power (.operand column) links tail s)

namespace ChainRules

variable {bound power : Nat} {tree : Grouping Column} {left : Expr} {s : Reading}

/-- An operand, and what climbs from it. -/
theorem binary_succ (inner : ChainRules bound) {column : Column} {first : List Token}
    (spelled : column.SpelledBy first) (spells : SpellsLinks links run) (ends : EndsChain tail)
    (front : s.rest = first ++ (run ++ tail)) (ready : s.Ready) (covers : Covers 3 (bound + 1) s) :
    Ensures (Grammar.binary (bound + 1) power) s
      (ReadsClimbed power (.operand column) links tail s) := by
  refine ensures_binary ((unary_column spelled (endsName_links spells ends) front covers.pred).and
    ((expressionOutcomes _).unary s)) (fun _ holds => holds.1.not_none) ?_
  rintro left t ⟨⟨⟨_, ⟨⟩, same⟩, errors, rest⟩, outcome⟩
  have passed := outcome.passage.follows
  refine (inner.operatorsFrom (.operand power column links) spells ends rest same
    spelled.complete (passed.ready ready) (covers.pred.mono passed.length_le (by decide))).mono ?_
  rintro x u ⟨whole, links, run, climbed, spells, expr, unchanged, rest⟩
  exact ⟨whole, links, run, climbed, spells, expr, unchanged.trans errors, rest⟩

/-- The right operand of an operator is what climbs behind it, one power above its own. With it the
operator becomes part of the left operand of the next. -/
theorem operatorsFrom_succ (inner : ChainRules bound) {link : Connective × Column}
    (climbing : Climbing power tree (link :: links)) (strong : power ≤ link.1.strength)
    (spells : SpellsLinks (link :: links) run) (ends : EndsChain tail)
    (front : s.rest = run ++ tail) (same : left.relocate .nowhere = tree.expr)
    (complete : tree.first.incomplete = false) (ready : s.Ready)
    (covers : Covers 1 (bound + 1) s) :
    Ensures (Grammar.operatorsFrom (bound + 1) power left) s fun x t =>
      ReadsClimbed power tree (link :: links) tail s (some x) t := by
  obtain ⟨symbol, _, rfl, kinds, first, behind, rfl, spelled, spells⟩ := spells
  obtain ⟨operator, found, name, shape, width, strength⟩ :=
    operator?_connective kinds (first ++ behind ++ tail)
  rw [List.append_assoc] at front
  obtain ⟨next, shorter⟩ := skip_operator found width front
  have ready := ready_skip ready operator.width
  have covers : Covers 8 bound (s.skip operator.width) := covers.pred.less shorter (by decide)
  have right : Ensures (Grammar.binary bound (link.1.strength + 1)) (s.skip operator.width)
      (ReadsClimbed (link.1.strength + 1) (.operand link.2) _ tail _) :=
    inner.binary spelled spells ends (next.trans (List.append_assoc _ _ _)) ready
      (covers.mono (Nat.le_refl _) (by decide))
  rw [ensures_operatorsFrom_some (front ▸ found)
    (Grouping.complete_of_relocate complete same) (strength ▸ strong)]
  unfold applyOperator
  rw [shape, strength, name, ensures_bind_assoc]
  refine (right.and ((expressionOutcomes _).binary _ _)).bind ?_
  rintro _ t ⟨⟨operand, middle, run, climbed, spells, ⟨right, rfl, same'⟩, errors, rest⟩, outcome⟩
  have passed := outcome.passage.follows
  have complete' : operand.first.incomplete = false := climbed.first ▸ spelled.complete
  refine (binaryNode_reads same same' (Grouping.complete_of_relocate complete' same')).bind ?_
  rintro applied _ ⟨rfl, same⟩
  refine (inner.operatorsFrom (climbing.apply strong climbed) spells ends rest same complete
    (passed.ready ready) (covers.mono passed.length_le (by decide))).mono ?_
  rintro x u ⟨whole, links, run, further, spells, expr, unchanged, rest⟩
  exact ⟨whole, links, run, climbed.step further, spells, expr,
    (unchanged.trans errors).trans (Reading.errors_skip s _), rest⟩

end ChainRules

theorem chainRules (bound : Nat) : ChainRules bound := by
  induction bound with
  | zero =>
      constructor
      · intro _ _ _ _ _ _ _ _ _ _ _ _ _ _ covers
        exact absurd covers.exists_succ (by simp)
      · intro _ _ _ _ _ _ _ _ _ _ _ _ covers
        exact absurd covers.exists_succ (by simp)
  | succ bound inner =>
      refine ⟨?_, inner.binary_succ⟩
      intro power tree links run tail left s climbing spells ends front same complete ready covers
      cases links with
      | nil => exact operatorsFrom_stops climbing spells ends front same nofun
      | cons link links =>
          by_cases strong : power ≤ link.1.strength
          · exact inner.operatorsFrom_succ climbing strong spells ends front same complete ready
              covers
          · refine operatorsFrom_stops climbing spells ends front same ?_
            rintro _ ⟨⟩
            exact Nat.lt_of_not_le strong

/-- A chain of columns is read as its grouping. -/
theorem expression_grouping {chain : Chain Column} {s : Reading} (spelled : chain.SpelledBy run)
    (ends : EndsChain tail) (front : s.rest = run ++ tail) (ready : s.Ready) :
    Ensures expression s (Reads chain.grouping.expr tail s) := by
  obtain ⟨first, behind, rfl, operand, links⟩ := spelled
  have covers : Covers 3 (expressionBound s.rest.length) s := by
    unfold Covers expressionBound
    omega
  unfold expression
  rw [ensures_tokens]
  refine ((chainRules _).binary operand links ends (front.trans (List.append_assoc _ _ _)) ready
    covers).mono ?_
  rintro x t ⟨whole, rest, run, climbed, spells, expr, errors, left⟩
  cases rest with
  | nil =>
      obtain rfl : run = [] := spells
      exact ⟨climbed.eq_grouping ▸ expr, errors, left⟩
  | cons link rest =>
      have positive : Power.or ≤ link.1.strength := by
        cases link.1 <;> decide
      exact absurd (climbed.weaker link rfl) (Nat.not_lt.mpr positive)

end Grammar

namespace Chain

open Grammar

/-- Bare names with operators between them, as they are written with blanks around the operators. -/
def chars (names : Chain BareColumn) : List Char :=
  names.first.chars ++ names.others.flatMap fun link =>
    ' ' :: (link.1.name.toList ++ ' ' :: link.2.chars)

/-- The columns of bare names. -/
def columns (names : Chain BareColumn) : Chain Column :=
  ⟨names.first.column, names.others.map fun link => (link.1, link.2.column)⟩

theorem scans_links (links : List (Connective × BareColumn)) (glued : Bool) :
    Scans (SpellsLinks (links.map fun link => (link.1, link.2.column))) glued
      (links.flatMap fun link => ' ' :: (link.1.name.toList ++ ' ' :: link.2.chars)) [] := by
  induction links generalizing glued with
  | nil => exact scans_nil
  | cons link links ih =>
      have stops : Stops ((links.flatMap fun link =>
          ' ' :: (link.1.name.toList ++ ' ' :: link.2.chars)) ++ []) := by
        cases links with
        | nil => exact stops_nil
        | cons next links => exact stops_blank
      have name : Scans link.2.column.SpelledBy false link.2.chars _ :=
        (link.2.scans stops).mono fun _ => Term.SpellsName.column
      rw [List.flatMap_cons, List.cons_append, List.append_assoc, List.cons_append]
      exact .blank ((link.1.scans _).append fun _ => .blank (name.append ih))

/-- Written names and operators are scanned as what they are. -/
theorem scans_chars (names : Chain BareColumn) (glued : Bool) :
    Scans names.columns.SpelledBy glued names.chars [] := by
  have stops : Stops ((names.others.flatMap fun link =>
      ' ' :: (link.1.name.toList ++ ' ' :: link.2.chars)) ++ []) := by
    cases names.others with
    | nil => exact stops_nil
    | cons link links => exact stops_blank
  exact ((names.first.scans stops).mono fun _ => Term.SpellsName.column).append
    (scans_links names.others)

/-- Columns with operators between them, wherever they stand and however they are spaced, are read
as the only tree over them that is grouped by strength. -/
theorem reads_grouping (chain : Chain Column) :
    (chain.grouping.chain = chain ∧ chain.grouping.Grouped ∧
      ∀ tree : Grouping Column, tree.chain = chain → tree.Grouped → tree = chain.grouping) ∧
    (∀ (run tail : List Token) (s : Reading), chain.SpelledBy run → EndsChain tail →
      s.rest = run ++ tail → s.Ready →
      Ensures expression s (Reads chain.grouping.expr tail s)) ∧
    (∀ written : List Char, chain.SpelledBy (scanFrom written 0 false 8) →
      (parse (assignedRow written)).errors = [] ∧
        AssignsRow chain.grouping.expr (parse (assignedRow written)).pipeline.commands) ∧
    ∀ names : Chain BareColumn, names.columns = chain →
      chain.SpelledBy (scanFrom names.chars 0 false 8) := by
  refine ⟨⟨chain.chain_grouping, chain.grouped_grouping, ?_⟩, ?_, ?_, ?_⟩
  · rintro tree rfl grouped
    exact eq_grouping grouped
  · exact fun run tail s => expression_grouping
  · intro written spelled
    have first : chain.grouping.first = chain.first := congrArg Chain.first chain.chain_grouping
    have ⟨_, _, _, operand, _⟩ := spelled
    refine assignsRow_parse ?_ (Grouping.complete_expr (first ▸ operand.complete))
    intro s front ready
    exact expression_grouping spelled ⟨nofun, rfl⟩ (front.trans (List.append_nil _).symm) ready
  · rintro names rfl
    obtain ⟨run, after, stop, spelled, scanned⟩ := names.scans_chars false 8
    rw [List.append_nil, scanFrom_nil, List.append_nil] at scanned
    rwa [scanned]

/-- Names of one letter. -/
def letters : Chain BareColumn where
  first := ⟨"a", by decide +kernel, by decide +kernel⟩
  others := [
    (.or, ⟨"b", by decide +kernel, by decide +kernel⟩),
    (.and, ⟨"c", by decide +kernel, by decide +kernel⟩),
    (.notLike, ⟨"d", by decide +kernel, by decide +kernel⟩),
    (.minus, ⟨"e", by decide +kernel, by decide +kernel⟩),
    (.minus, ⟨"f", by decide +kernel, by decide +kernel⟩),
    (.times, ⟨"g", by decide +kernel, by decide +kernel⟩)]

/-- Sums and tests group from the left, and what binds more tightly goes first. -/
theorem reads_grouping_letters :
    letters.columns.grouping =
      (let leaf (name : String) := Grouping.operand ⟨.nowhere, name, [name], false⟩
      .apply .or (leaf "a") (.apply .and (leaf "b") (.apply .notLike (leaf "c")
        (.apply .minus (.apply .minus (leaf "d") (leaf "e"))
          (.apply .times (leaf "f") (leaf "g")))))) ∧
    assignedRow letters.chars = "ROW x = a or b and c not like d - e - f * g" ∧
    (parse (assignedRow letters.chars)).errors = [] ∧
    AssignsRow letters.columns.grouping.expr
      (parse (assignedRow letters.chars)).pipeline.commands :=
  have reads := reads_grouping letters.columns
  ⟨by decide +kernel, by decide +kernel, reads.2.2.1 _ (reads.2.2.2 _ rfl)⟩

end Chain

end Esql
