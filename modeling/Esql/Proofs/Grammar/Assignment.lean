import Esql.Proofs.Grammar.Point
import Esql.Proofs.Grammar.Row

/-!
# Assigned terms are read back

A row that assigns a written term to a column is parsed without errors, and the value of the
assignment is the tree of the term. With a blank inside each bracket this holds of every term. The
tight writing loses the terms in which a number starts with its point directly behind a bracket, as
a point there is taken to go on a name; of these an error is recorded.
-/

namespace Esql

namespace Term

/-- The assignment of a term to a column with a name of one part. -/
def assigned (name : String) (term : Term) : Expr :=
  .apply "=" .binary [.column ⟨.nowhere, name, [name], false⟩, term.expr] .nowhere

/-- The query that assigns a written term to the column `x`. -/
def rowQuery (pad : List Char) (term : Term) : String :=
  "ROW x = " ++ String.ofList (term.chars pad)

end Term

namespace Grammar

open Token

variable {term : Term} {run : List Token} {s : Reading} {title assign : Token} {name : String}

theorem expression_reads (spells : term.Spells run) : ReadsFrom term.expr run := by
  intro s front ready
  have covers : Covers 3 (expressionBound s.rest.length) s := by
    unfold Covers expressionBound
    omega
  have whole : s.rest = run ++ [] := by rw [front, List.append_nil]
  unfold expression
  rw [ensures_tokens]
  exact isRead term spells nofun whole ready covers

theorem expression_breaks (lost : term.Lost run) (front : s.rest = run) (ready : s.Ready) :
    Breaks expression s := by
  have covers : Covers 3 (expressionBound s.rest.length) s := by
    unfold Covers expressionBound
    omega
  unfold Breaks expression
  rw [ensures_tokens]
  exact isBroken_of_lost term lost front ready covers

section

variable (named : title.kind = .word name) (given : name ≠ "") (assigns : assign.kind = .assign)
  (front : s.rest = title :: assign :: run)

include named given assigns front

/-- An assignment of a lost term is broken off. -/
theorem field?_breaks (lost : term.Lost run) (ready : s.Ready) : Breaks field? s := by
  refine ensures_assignment named given assigns front ready ?_
  intro column t _ _ next ready
  refine (expression_breaks lost next ready).bind fun value u broken => ?_
  rw [ensures_extent, isUnfinished_of_isBroken broken, Bool.or_true]
  exact rfl

/-- The only field is the assignment that is broken off. -/
theorem asArguments_halts (lost : term.Lost run) (ready : s.Ready) :
    Halts (asArguments fields) s := by
  have list : Halts fields s := by
    unfold Halts fields separated operand
    rw [ensures_tokens, separatedFrom, andThen, ensures_bind_assoc]
    refine (field?_breaks named given assigns front lost ready).bind fun read t broken => ?_
    cases read with
    | none => exact rfl
    | some field =>
        have incomplete : field.incomplete = true := isUnfinished_of_isBroken broken
        dsimp only
        rw [ensures_pure_bind, Parts.one, incomplete, Bool.not_true, if_neg Bool.false_ne_true]
        exact rfl
  exact list.bind fun _ _ halted => halted

end

end Grammar

namespace Term

open Grammar

variable {pad : List Char} {term : Term}

/-- The row that assigns a term to the column `x`, up to places and texts. -/
def IsRow (term : Term) (commands : List Command) : Prop :=
  ∃ command, commands = [command] ∧ command.name = "row" ∧
    command.args.map (Argument.relocate .nowhere) = [.expr (term.assigned "x")]

/-- A written term is read back, unless it is written tightly with a number that is lost. -/
theorem parse_rowQuery_written (blank : Text.Blank pad)
    (free : pad = [] → term.isFreeOfPoints = true) :
    (parse (rowQuery pad term)).errors = [] ∧
      term.IsRow (parse (rowQuery pad term)).pipeline.commands := by
  have scans : Token.Scans term.Spells false (term.chars pad) [] :=
    scans blank term free Token.stops_nil Bool.noConfusion
  obtain ⟨run, after, stop, spells, scanned⟩ := scans 8
  rw [List.append_nil, Token.scanFrom_nil, List.append_nil] at scanned
  refine assignsRow_parse ?_ term.expr_complete
  rw [scanned]
  exact expression_reads spells

/-- A tight writing with a number that is lost has an error. -/
theorem parse_rowQuery_lost (lost : term.isFreeOfPoints = false) :
    (parse (rowQuery [] term)).errors ≠ [] := by
  have scanned : term.Lost (Token.scanFrom (term.chars [] ++ []) 0 false 8) :=
    lost_scanFrom term Token.stops_nil (fun free => by rw [lost] at free; cases free) 8
  rw [List.append_nil] at scanned
  refine parse_assignedRow (fun _ t => t.errors ≠ []) (fun _ errors => errors ≠ []) ?_ ?_
  · intro s title assign named assigns front clean ready
    refine ((asArguments_halts named (by decide) assigns front scanned ready).and
      (asArguments_outcome (fields_outcome s))).mono ?_
    rintro read t ⟨halted, outcome⟩
    exact List.ne_nil_of_length_pos
      (Nat.lt_of_le_of_lt (Nat.zero_le _) (outcome.faulty (by rw [halted]; rfl)))
  · intro bound command read u t faulty closes _ _
    exact closes.faulty faulty bound false _

/-- A written term is read back from a row if and only if the row leaves some blanks inside its
brackets, or no number that starts with its point stands directly behind one. -/
theorem isRow_parse_rowQuery (blank : Text.Blank pad) :
    (parse (rowQuery pad term)).errors = [] ∧
        term.IsRow (parse (rowQuery pad term)).pipeline.commands ↔
      (pad = [] → term.isFreeOfPoints = true) := by
  refine ⟨?_, parse_rowQuery_written blank⟩
  rintro ⟨clean, -⟩ rfl
  by_contra lost
  exact parse_rowQuery_lost (Bool.eq_false_iff.mpr lost) clean

/-- One half and one, with nothing before the point. -/
def half : Term :=
  .binary .plus (.literal (.decimal ⟨'.', ['5'], by decide +kernel⟩))
    (.literal (.integer ⟨'1', [], by decide +kernel⟩))

/-- A column that is negated twice, by a sign and in a test. -/
def excluded : Term :=
  .unary .not (.member true (.unary .minus (.column ⟨"a.b", by decide +kernel, by decide +kernel⟩))
    [.literal (.decimal ⟨'1', ['.'], by decide +kernel⟩), .literal (.string "c\"d")])

/-- A tight writing, and one with blanks inside the parentheses, where a number may start with its
point. -/
theorem isRow_parse_rowQuery_half :
    (rowQuery [] excluded = "ROW x = not ((-(a.b)) not in (1., \"c\\\"d\"))" ∧ Text.Blank [] ∧
      excluded.isFreeOfPoints = true ∧ (parse (rowQuery [] excluded)).errors = [] ∧
      excluded.IsRow (parse (rowQuery [] excluded)).pipeline.commands) ∧
    rowQuery [' '] half = "ROW x = ( .5 ) + ( 1 )" ∧ Text.Blank [' '] ∧
      (parse (rowQuery [' '] half)).errors = [] ∧
      half.IsRow (parse (rowQuery [' '] half)).pipeline.commands := by
  have tight : Text.Blank [] := List.forall_mem_nil _
  have free : excluded.isFreeOfPoints = true := by decide +kernel
  have blank : Text.Blank [' '] := List.forall_mem_singleton.mpr (by decide)
  refine ⟨⟨by decide +kernel, tight, free, ?_⟩, by decide +kernel, blank, ?_⟩
  · exact (isRow_parse_rowQuery tight).mpr fun _ => free
  · exact (isRow_parse_rowQuery blank).mpr fun none => absurd none (List.cons_ne_nil _ _)

/-- Directly behind a parenthesis the same number is not read. -/
theorem not_isRow_parse_rowQuery_tight :
    ¬ ∀ term : Term, (parse (rowQuery [] term)).errors = [] ∧
      term.IsRow (parse (rowQuery [] term)).pipeline.commands := by
  intro survives
  have faulty : (parse (rowQuery [] half)).errors ≠ [] := by decide +kernel
  exact faulty (survives half).1

end Term

end Esql
