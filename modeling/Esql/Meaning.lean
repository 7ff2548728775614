import Esql.ColumnSet
import Esql.Extraction
import Esql.Syntax.Command

/-!
# What commands say

The arguments of commands in the terms in which they are checked and carried out: named fields,
column patterns, renamings, join keys, the fields that a policy adds. Parts that were closed early
say nothing.
-/

namespace Esql

/-- The columns of documents themselves that a source can provide. -/
def metadataFields : List Field :=
  [⟨"_version", some .long, false⟩, ⟨"_id", some .keyword, false⟩,
   ⟨"_index", some .keyword, false⟩, ⟨"_source", some .unsupported, false⟩,
   ⟨"_ignored", some .keyword, false⟩, ⟨"_index_mode", some .keyword, false⟩,
   ⟨"_score", some .double, false⟩]

/-- The ways in which a policy can be looked up in other clusters. -/
def enrichModes : List String := ["_any", "_coordinator", "_remote"]

/-- The columns that a search for change points adds when no names are given. -/
def changePointNames : String × String := ("type", "pvalue")

/-- The column that names the branch from which a row came. -/
def forkColumn : Field := ⟨"_fork", some .keyword, false⟩

namespace Expr

/-- The name and the value of a field. A field without a name is named after its text. -/
def namedValue (field : Expr) : String × Expr :=
  match field.assignment? with
  | some (target, value) => (target.name, value)
  | none => (Text.trim field.text, field)

/-- An aggregated field without its filter. -/
def unfiltered : Expr → Expr
  | .apply "where" .binary (field :: _) _ => field
  | field => field

/-- The two columns of an assignment of one to the other. -/
def columnAssignment? (field : Expr) : Option (Column × Column) := do
  let (target, value) ← field.assignment?
  pure (target, ← value.column?)

end Expr

/-- The expressions that were read to their end. -/
def complete (exprs : List Expr) : List Expr := exprs.filter fun expr => !expr.incomplete

namespace Clause

/-- The two columns of a clause that gives one column another name. -/
def renaming? (clause : Clause) : Option (Column × Column) :=
  match clause.name, clause.operands with
  | "as", [.column old, .column new] => some (old, new)
  | _, _ => none

end Clause

namespace Argument

/-- The old and the new column of a renaming, in either of its two written forms. -/
def renaming? (argument : Argument) : Option (Column × Column) :=
  if argument.incomplete then none
  else
    match argument with
    | .clause c => c.renaming?
    | .expr e => e.columnAssignment?.map Prod.swap
    | _ => none

/-- What rows are sorted by. -/
def sortedBy? : Argument → Option Expr
  | .sortKey k => some k.expr
  | .expr e => some e
  | _ => none

end Argument

namespace Command

/-- The complete columns among the arguments, which may be patterns. -/
def patterns (command : Command) : List Column :=
  command.columns.filter fun column => !column.incomplete

def renamings (command : Command) : List (Column × Column) :=
  command.args.filterMap Argument.renaming?

/-- The complete expressions before any clause. -/
def fields (command : Command) : List Expr := complete command.exprs

/-- The operands of a clause, none if it is absent. -/
def operandsOf (command : Command) (clause : String) : List Expr :=
  ((command.clause? clause).map (·.operands)).getD []

/-- An operand of a clause stands in an argument. -/
theorem exists_clause_of_operandsOf {command : Command} {name : String} {operand : Expr}
    (member : operand ∈ command.operandsOf name) :
    ∃ clause, Argument.clause clause ∈ command.args ∧ operand ∈ clause.operands := by
  unfold operandsOf at member
  cases found : command.clause? name with
  | none =>
      rw [found] at member
      cases member
  | some clause =>
      rw [found] at member
      obtain ⟨argument, inside, same⟩ := List.mem_filterMap.mp (List.mem_of_find?_eq_some found)
      have given : argument = .clause clause := by
        cases argument <;> cases same
        rfl
      exact ⟨clause, given ▸ inside, member⟩

/-- The columns among the operands of a clause. -/
def columnsOf (command : Command) (clause : String) : List Column :=
  (command.operandsOf clause).filterMap Expr.column?

/-- The groups of an aggregation. -/
def groups (command : Command) : List Expr := complete (command.operandsOf "by")

/-- The new name and the column of a policy that one operand asks for. -/
def requested? (operand : Expr) : Option (String × Column) :=
  match operand with
  | .column c => some (c.name, c)
  | e => e.columnAssignment?.map fun columns => (columns.1.name, columns.2)

/-- The columns of a policy that are asked for, with their new names. -/
def requests (command : Command) : List (String × Column) :=
  (complete (command.operandsOf "with")).filterMap requested?

/-- The pattern by which a text is cut into columns. -/
def extraction? (command : Command) : Option String :=
  let literal? := (command.positional[1]?.bind Argument.expr?).bind Expr.literal?
  (literal?.filter fun literal => literal.kind == .string && !literal.incomplete).map (·.value)

/-- The two columns that a search for change points adds. -/
def changePointColumns (command : Command) : String × String :=
  match (command.clause? "as").filter fun clause => !clause.incomplete with
  | none => changePointNames
  | some clause =>
      match clause.columns with
      | [type, value] => (type.name, value.name)
      | _ => changePointNames

end Command

end Esql
