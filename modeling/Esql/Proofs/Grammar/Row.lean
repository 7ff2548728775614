import Esql.Proofs.Grammar.Term
import Esql.Proofs.Grammar.Tree

/-!
# Rows of one assignment

A query that assigns an expression to a column in a row is read without errors, if the expression is
read from what is written for it. The value of the assignment is what was read.
-/

namespace Esql

/-- The assignment of a value to a column with a name of one part. -/
def Expr.assigned (name : String) (value : Expr) : Expr :=
  .apply "=" .binary [.column ⟨.nowhere, name, [name], false⟩, value] .nowhere

/-- The row that assigns a value to the column `x`, up to places and texts. -/
def AssignsRow (value : Expr) (commands : List Command) : Prop :=
  ∃ command, commands = [command] ∧ command.name = "row" ∧
    command.args.map (Argument.relocate .nowhere) = [.expr (value.assigned "x")]

/-- The query that assigns what is written to the column `x`. -/
def assignedRow (written : List Char) : String := "ROW x = " ++ String.ofList written

theorem Token.scan_assignedRow (written : List Char) :
    scan (assignedRow written) =
      ⟨.word "ROW", "ROW", ⟨0, 3⟩⟩ :: ⟨.word "x", "x", ⟨4, 5⟩⟩ :: ⟨.assign, "=", ⟨6, 7⟩⟩ ::
        scanFrom written 0 false 8 := by
  have whole : (assignedRow written).toList =
      'R' :: (['O', 'W'] ++ ' ' :: 'x' :: ([] ++ ' ' :: '=' :: ' ' :: written)) := by
    rw [assignedRow, String.toList_append]
    exact congrArg ("ROW x = ".toList ++ ·) String.toList_ofList
  have equals : scanFrom ('=' :: ' ' :: written) 0 false 6 =
      ⟨.assign, "=", ⟨6, 7⟩⟩ :: scanFrom (' ' :: written) 0 true 7 := rfl
  rw [scan, whole,
    scanFrom_word 'R' ['O', 'W'] (by decide +kernel) (by decide +kernel) (by decide +kernel),
    scanFrom_word 'x' [] (by decide +kernel) rfl (by decide +kernel)]
  refine congrArg _ (congrArg _ (equals.trans (congrArg _ ?_)))
  exact scanFrom_blank true 7 _

namespace Grammar

open Token

variable {value : Expr} {run : List Token} {s : Reading} {title assign : Token} {name : String}

/-- An expression of this shape is read wherever only these tokens are left. -/
def ReadsFrom (value : Expr) (run : List Token) : Prop :=
  ∀ {s : Reading}, s.rest = run → s.Ready → Ensures expression s (Reads value [] s)

section

variable (named : title.kind = .word name) (given : name ≠ "") (assigns : assign.kind = .assign)
  (front : s.rest = title :: assign :: run)

include named assigns front

theorem assignmentAhead_of_assign : assignmentAhead s.rest = true := by
  have part : isPathPart title.kind = true := by rw [named]; rfl
  have other : isPathPart assign.kind = false := by rw [assigns]; rfl
  rw [front, assignmentAhead, part, runFrom, other, Bool.and_false, if_neg Bool.false_ne_true]
  exact beq_iff_eq.mpr assigns

include given

/-- The target of an assignment is read, if its name has one part. -/
theorem requiredColumn_assigned :
    Ensures (requiredColumn false) s fun x t => (∃ column, x = some column ∧
      column.relocate .nowhere = ⟨.nowhere, name, [name], false⟩) ∧
      t.errors = s.errors ∧ t.rest = assign :: run := by
  have parts : columnParts [title] = [name] := by
    rw [columnParts, columnParts, named]
    exact congrArg (· :: []) String.append_empty
  have spells : SpellsColumn false [name] title.span.start title.span.stop title [] := by
    refine ⟨.cons rfl (.nil _), ?_, ?_, ?_, parts⟩
    · rw [named]
      rfl
    · exact List.forall_mem_singleton.mpr (by rw [named]; rfl)
    · exact List.forall_mem_singleton.mpr (by rw [named]; rfl)
  have ended : [name].getLast? ≠ some "" := fun last => given (Option.some.inj last)
  have ends : ∀ next ∈ (assign :: run).head?, continuesColumn false next.kind = false := by
    rintro _ ⟨⟩
    rw [assigns]
    rfl
  unfold requiredColumn
  refine (column?_of_spells spells ended front ends).bind ?_
  rintro _ t ⟨⟨column, rfl, same, complete, parts, quoted⟩, errors, rest⟩
  refine ⟨⟨column, rfl, ?_⟩, errors, rest⟩
  have plain : ([title].any fun token => isQuoted token.kind) = false := by
    rw [List.any_cons, named]
    rfl
  rw [plain] at quoted
  rw [Column.relocate, Relocation.extent, complete, same, parts, quoted]
  rfl

/-- An assignment is read up to its value, and the value is what is left. -/
theorem ensures_assignment {post : Option Expr → Reading → Prop} (ready : s.Ready)
    (assigned : ∀ (column : Column) (t : Reading),
      column.relocate .nowhere = ⟨.nowhere, name, [name], false⟩ → t.errors = s.errors →
      t.rest = run → t.Ready →
      Ensures (do
        let value ← expression
        let extent ← extent column.span.start (column.incomplete || isUnfinished value)
        pure (some (.apply "=" .binary (operands [.column column] value) extent))) t post) :
    Ensures field? s post := by
  unfold field?
  rw [ensures_tokens, assignmentAhead_of_assign named assigns front, if_pos rfl]
  refine ((requiredColumn_assigned named given assigns front).and
    (requiredColumn_outcome false s)).bind ?_
  rintro _ t ⟨⟨⟨column, rfl, same⟩, errors, rest⟩, outcome⟩
  have ready : t.advance.Ready :=
    (outcome.passage.follows.trans ⟨_, Leads.advance rest⟩).ready ready
  dsimp only
  rw [ensures_advance]
  exact assigned column t.advance same ((Reading.errors_advance t).trans errors)
    (Reading.advance_rest rest) ready

/-- An assignment of an expression that is read is read. -/
theorem field?_reads (reads : ReadsFrom value run) (complete : value.incomplete = false)
    (ready : s.Ready) : Ensures field? s (Reads (value.assigned name) [] s) := by
  refine ensures_assignment named given assigns front ready ?_
  intro column t same errors next ready
  have whole : column.incomplete = false := congrArg (·.incomplete) same
  refine (reads next ready).bind ?_
  rintro _ u ⟨⟨found, rfl, shape⟩, unchanged, left⟩
  have finished : isUnfinished (some found) = false := by
    rw [← complete, ← shape]
    exact (found.relocate_incomplete .nowhere).symm
  rw [ensures_extent, whole, finished]
  refine ⟨⟨_, rfl, ?_⟩, unchanged.trans errors, left⟩
  rw [Expr.relocate, operands, Option.toList_some, List.singleton_append, Expr.relocateAll,
    Expr.relocateAll, Expr.relocateAll, Expr.relocate, same, shape]
  rfl

/-- An assignment at the end of the text is all that is read of a list of fields. -/
theorem fields_reads (reads : ReadsFrom value run) (complete : value.incomplete = false)
    (ready : s.Ready) : Ensures fields s (ReadsAll [value.assigned name] [] s) := by
  unfold fields separated operand
  rw [ensures_tokens, separatedFrom, andThen, ensures_bind_assoc]
  refine (field?_reads named given assigns front reads complete ready).bind ?_
  rintro _ t ⟨⟨field, rfl, same⟩, errors, rest⟩
  have complete : field.incomplete = false := by
    rw [← field.relocate_incomplete .nowhere, same]
    rfl
  have ended : t.isAt .comma = false := by simp [Reading.isAt, rest]
  dsimp only
  rw [ensures_pure_bind, Parts.one, complete, Bool.not_false, if_pos rfl, ensures_bind_assoc,
    ensures_refused ended]
  exact ⟨congrArg (· :: []) same, rfl, errors, rest⟩

theorem asArguments_reads (reads : ReadsFrom value run) (complete : value.incomplete = false)
    (ready : s.Ready) :
    Ensures (asArguments fields) s fun read t => read.complete = true ∧
      read.items.map (Argument.relocate .nowhere) = [.expr (value.assigned name)] ∧
      t.errors = s.errors ∧ t.rest = [] := by
  refine (fields_reads named given assigns front reads complete ready).bind fun read t reads => ?_
  refine ⟨reads.complete, ?_, reads.errors, reads.rest⟩
  change (read.items.map Argument.expr).map (Argument.relocate .nowhere) = _
  rw [List.map_map]
  have moved := congrArg (List.map Argument.expr) reads.items
  rw [List.map_map] at moved
  exact moved

end

end Grammar

open Grammar

variable {written : List Char}

/-- What the tree of a row and its errors are, from the assignment that is read and what is done
behind it. -/
theorem parse_assignedRow (args : Parts Argument → Reading → Prop)
    (post : List Command → List SyntaxError → Prop)
    (row : ∀ {s : Reading} {title assign : Token}, title.kind = .word "x" → assign.kind = .assign →
      s.rest = title :: assign :: Token.scanFrom written 0 false 8 → s.errors = [] →
      s.Ready → Ensures (asArguments fields) s args)
    (behind : ∀ (bound : Nat) (command : Command) (read : Parts Argument) (u t : Reading),
      args read u → Closes read.complete u t → command.name = "row" → command.args = read.items →
      Ensures (afterCommand bound false ⟨[command], command.incomplete⟩) t
        fun stages v => post stages.commands v.errors) :
    post (parse (assignedRow written)).pipeline.commands (parse (assignedRow written)).errors := by
  obtain ⟨commands, errors⟩ := parse_eq (assignedRow written)
  rw [← commands, ← errors]
  let s : Reading := .start (assignedRow written) (Token.scan (assignedRow written))
  have front : s.rest = ⟨.word "ROW", "ROW", ⟨0, 3⟩⟩ :: _ := Token.scan_assignedRow written
  have named : Verb.ofName? (Token.lower ⟨.word "ROW", "ROW", ⟨0, 3⟩⟩) = some .row := by
    decide +kernel
  have reads := row rfl rfl (Reading.advance_rest front) (Reading.errors_advance s)
    (ready_advance front (ready_start _))
  have whole (bound : Nat) : Ensures (stagesFrom (bound + 3) false ⟨[], false⟩) s
      fun stages t => post stages.commands t.errors := by
    have first : Ensures (command? (bound + 2) true false) s
        (NamedCommand ⟨.word "ROW", "ROW", ⟨0, 3⟩⟩ args) :=
      ensures_command front rfl (by decide +kernel) named rfl reads
    have both : Ensures (command? (bound + 2) true false >>= fun x =>
        afterCommand (bound + 2) false (Stages.add ⟨[], false⟩ x)) s
        fun stages t => post stages.commands t.errors := by
      refine first.bind ?_
      rintro _ t ⟨command, read, u, rfl, holds, closes, title, items, -⟩
      have title : command.name = "row" := title.trans (by decide +kernel)
      exact behind (bound + 2) command read u t holds closes title items
    unfold Ensures
    rw [run_stagesFrom_command front (by decide)]
    exact both
  exact whole _

/-- The row is read without errors, with the value that is read. -/
theorem assignsRow_parse {value : Expr} (reads : ReadsFrom value (Token.scanFrom written 0 false 8))
    (complete : value.incomplete = false) :
    (parse (assignedRow written)).errors = [] ∧
      AssignsRow value (parse (assignedRow written)).pipeline.commands := by
  refine parse_assignedRow (fun read t => read.complete = true ∧
    read.items.map (Argument.relocate .nowhere) = [.expr (value.assigned "x")] ∧
    t.errors = [] ∧ t.rest = []) (fun commands errors => errors = [] ∧ AssignsRow value commands)
    ?_ ?_
  · intro s title assign named assigns front clean ready
    have reads := asArguments_reads named (by decide) assigns front reads complete ready
    rwa [clean] at reads
  · rintro bound command read u t ⟨complete, items, errors, left⟩ closes named same
    rw [closes.eq_of_ended complete left]
    unfold Ensures
    rw [run_afterCommand_nil left]
    exact ⟨errors, command, rfl, named, by rw [same, items]⟩

end Esql
