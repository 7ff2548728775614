import Esql.Meaning
import Esql.Proofs.Check.Judged
import Esql.Proofs.Columns.Lookup
import Esql.Proofs.Syntax.Occurrences
import Esql.Proofs.Traced.Column

/-!
# Columns that are grouped by

A group that is a column comes out of an aggregation with the type that it had. It comes out under
what was written for it, so under its own name if and only if nothing of it was written in
backticks. Any other group comes out with the type that is found for it when the groups are checked,
as far as the columns that it reads have there the types that they had.
-/

namespace Esql

/-! ## Columns among groups

A complete column keeps the text of the closed tokens that it was read from. So its text is its name
if nothing of it is quoted, and longer otherwise. A group is a column like any other, so an
aggregation that takes the text of its groups for their names finds those that are written bare.
-/

/-- A column whose text, if it is complete, is its name exactly if nothing of it is quoted. -/
def Column.Written (column : Column) : Prop :=
  column.incomplete = false →
    Text.trim column.text = column.text ∧ (column.text = column.name ↔ column.quoted = false)

namespace Column

variable {text : String} {column : Column}

theorem Traced.written (traced : column.Traced text) : column.Written := by
  obtain ⟨stars, first, others, read⟩ := traced
  intro whole
  have spelled : ∀ token ∈ first :: others, token.Spelled := fun token member =>
    Token.spelled_of_writes (writes_of_read read whole token member) (read.continues token member)
  have written := written_of_read read
  have named : column.name.toList = Token.named (first :: others) := by
    rw [read.name, read.parts, Token.toList_join_columnParts]
  refine ⟨Text.trim_eq (written ▸ Token.firm_written spelled), ?_⟩
  rw [read.quoted]
  constructor
  · intro same
    refine Bool.eq_false_iff.mpr fun some_quoted => ?_
    have longer := Token.length_named_lt spelled some_quoted
    rw [← written, ← named, same] at longer
    exact Nat.lt_irrefl _ longer
  · intro bare
    refine String.toList_injective ?_
    rw [written, named, Token.written_eq_named spelled bare]

end Column

/-- The groups of an aggregation that are complete columns are written as their names if and only
if nothing of them is quoted. -/
theorem written_groups {text : String} {command : Command}
    (visited : command ∈ Command.visitedIn (parse text).pipeline.commands) {column : Column}
    (group : Expr.column column ∈ command.operandsOf "by") : column.Written :=
  have traced : column.Traced text := traced_visited visited (Command.mem_walk_of_operandsOf group)
  traced.written

/-! ## What comes out of an aggregation -/

namespace ColumnSet

theorem get?_insertAll_of_absent (set : ColumnSet) {fields : List Field} {name : String}
    (absent : ∀ field ∈ fields, field.name ≠ name) :
    (set.insertAll fields).get? name = set.get? name := by
  induction fields generalizing set with
  | nil => rfl
  | cons field rest ih =>
      rw [List.forall_mem_cons] at absent
      change ((set.insert field).insertAll rest).get? name = _
      rw [ih _ absent.2, get?_insert, if_neg (Ne.symm absent.1)]

/-- Among several columns of a name, the last one stays. -/
theorem get?_ofFields_append (front back : List Field) (field : Field) {name : String}
    (absent : ∀ later ∈ back, later.name ≠ name) :
    (ofFields (front ++ field :: back)).get? name =
      if name = field.name then some field else (ofFields front).get? name := by
  have whole : ofFields (front ++ field :: back) =
      ((ofFields front).insert field).insertAll back := by
    rw [ofFields, insertAll, List.foldl_append]
    rfl
  rw [whole, get?_insertAll_of_absent _ absent, get?_insert]

end ColumnSet

namespace Command

/-- The operands of a clause of a complete command are complete. -/
theorem operandsOf_complete {command : Command} (candid : (Node.command command).Candid)
    (whole : command.incomplete = false) (name : String) :
    ∀ operand ∈ command.operandsOf name, operand.incomplete = false :=
  fun operand member => (candid.of_mem_walk (fun _ => Node.noConfusion) whole (.expr operand)
    (mem_walk_of_operandsOf member)).1

theorem groups_eq {command : Command} (candid : (Node.command command).Candid)
    (whole : command.incomplete = false) : command.groups = command.operandsOf "by" := by
  refine List.filter_eq_self.mpr fun operand member => ?_
  rw [operandsOf_complete candid whole "by" operand member]
  rfl

/-- A group that is a column comes out under what is written for it. -/
theorem group_column (input : ColumnSet) {column : Column}
    (tight : Text.trim column.text = column.text) :
    group input (.column column) = ⟨column.text, input.type? column.name, false⟩ := by
  rw [← tight]
  rfl

theorem after_stats {command : Command} (title : command.name = "stats")
    (whole : command.incomplete = false) (snapshot : Snapshot) (input : ColumnSet) :
    command.after snapshot input = command.aggregates input := by
  have verb : Verb.ofName? command.name = some .stats := by rw [title]; rfl
  rw [after, whole, if_neg Bool.false_ne_true, output_eq_plain command verb (by decide),
    plainOutput]

/-- What an aggregation computes before it comes to the groups behind some of them. -/
def aggregatesBefore (command : Command) (input : ColumnSet) (groups : List Expr) : ColumnSet :=
  .ofFields (command.fields.map (aggregate input) ++ groups.map (group input))

/-- For every complete aggregation of a text, every set of columns that reaches it and every group
that is one of these columns, in whatever form its name is written: if nothing of the name is in
backticks and no later group takes the name, the column comes out with its name and its type. If
something of it is in backticks, it comes out with its type under what is written for it, which is
not its name; under its name there is then only what the aggregates and the groups before it put
there. -/
theorem get?_after_stats {text : String} {command : Command}
    (visited : command ∈ (parse text).pipeline.visited) (title : command.name = "stats")
    (whole : command.incomplete = false) {before later : List Expr} {column : Column}
    (groups : command.operandsOf "by" = before ++ .column column :: later) {input : ColumnSet}
    {field : Field} (present : input.get? column.name = some field)
    (kept : ∀ other ∈ later, other.namedValue.1 ≠ column.name) (snapshot : Snapshot) :
    ((command.after snapshot input).get? column.name =
      if column.quoted then (command.aggregatesBefore input before).get? column.name
      else some ⟨column.name, field.type?, false⟩) ∧
    (column.quoted = true → column.text ≠ column.name ∧
      ((∀ other ∈ later, other.namedValue.1 ≠ column.text) →
        (command.after snapshot input).get? column.text =
          some ⟨column.text, field.type?, false⟩)) := by
  rw [Pipeline.visited_eq] at visited
  have candid := candid_visited text command visited
  have member : Expr.column column ∈ command.operandsOf "by" := by
    rw [groups]
    exact List.mem_append_right _ (.head _)
  have closed : column.incomplete = false := operandsOf_complete candid whole "by" _ member
  obtain ⟨tight, same⟩ := written_groups visited member closed
  have type : input.type? column.name = field.type? := by rw [ColumnSet.type?, present]; rfl
  have output : command.after snapshot input = .ofFields
      ((command.fields.map (aggregate input) ++ before.map (group input)) ++
        ⟨column.text, field.type?, false⟩ :: later.map (group input)) := by
    rw [after_stats title whole, aggregates, groups_eq candid whole, groups, List.map_append,
      List.map_cons, group_column input tight, type, List.append_assoc]
  have behind {name : String} (others : ∀ other ∈ later, other.namedValue.1 ≠ name) :
      ∀ field ∈ later.map (group input), field.name ≠ name := by
    intro field member
    obtain ⟨other, inside, rfl⟩ := List.mem_map.mp member
    exact others other inside
  refine ⟨?_, fun quoted => ⟨fun equal => ?_, fun others => ?_⟩⟩
  · rw [output, ColumnSet.get?_ofFields_append _ _ _ (behind kept)]
    cases quoted : column.quoted with
    | false =>
        have named := same.mpr quoted
        dsimp only
        rw [named, if_pos rfl, if_neg Bool.false_ne_true]
    | true =>
        have other : column.name ≠ column.text := fun equal => by
          rw [same.mp equal.symm] at quoted
          cases quoted
        rw [if_neg other, if_pos rfl]
        rfl
  · rw [same.mp equal] at quoted
    cases quoted
  · rw [output, ColumnSet.get?_ofFields_append _ _ _ (behind others), if_pos rfl]

/-- The names that the complete aggregations of a text compute, with the columns among their
groups. -/
def aggregations (text : String) : List (List String × List (Option Column)) :=
  ((parse text).pipeline.visited.filter fun command =>
    command.name == "stats" && !command.incomplete).map fun command =>
      (command.fields.map (·.unfiltered.namedValue.1), (command.operandsOf "by").map Expr.column?)

/-- A text with one aggregation, over one column. -/
theorem exists_of_aggregations {text : String} {names : List String} {column : Column}
    (only : aggregations text = [(names, [some column])]) :
    ∃ command ∈ (parse text).pipeline.visited, command.name = "stats" ∧
      command.incomplete = false ∧
      command.fields.map (·.unfiltered.namedValue.1) = names ∧
      command.operandsOf "by" = [] ++ .column column :: [] := by
  obtain ⟨command, found, read⟩ := List.map_eq_singleton_iff.mp only
  rw [Prod.mk.injEq] at read
  have inside : command ∈ aggregating text := by
    rw [aggregating, found]
    exact List.mem_singleton_self command
  obtain ⟨operand, alone, given⟩ := List.map_eq_singleton_iff.mp read.2
  obtain ⟨visited, title, whole⟩ := mem_aggregating.mp inside
  refine ⟨command, visited, title, whole, read.1, ?_⟩
  cases operand <;> cases given
  exact alone

/-- A column that is written bare. -/
theorem get?_after_stats_bare :
    ∃ command ∈ (parse "FROM a | STATS c = count(*) BY x").pipeline.visited,
      command.name = "stats" ∧ command.incomplete = false ∧
      (∃ column, command.operandsOf "by" = [] ++ .column column :: [] ∧ column.name = "x") ∧
      (ColumnSet.mk [⟨"x", some .long, false⟩] true).get? "x" = some ⟨"x", some .long, false⟩ ∧
      (command.after {} ⟨[⟨"x", some .long, false⟩], true⟩).get? "x" =
        some ⟨"x", some .long, false⟩ := by
  have only : aggregations "FROM a | STATS c = count(*) BY x" =
      [(["c"], [some ⟨⟨⟨31, 32⟩, "x", false⟩, "x", ["x"], false⟩])] := by decide +kernel
  obtain ⟨command, visited, title, whole, -, groups⟩ := exists_of_aggregations only
  have present : (ColumnSet.mk [⟨"x", some .long, false⟩] true).get? "x" =
      some ⟨"x", some .long, false⟩ := by decide
  have both := get?_after_stats visited title whole groups present nofun {}
  exact ⟨command, visited, title, whole, ⟨_, groups, rfl⟩, present, both.1⟩

/-- A column that is written in backticks does not come out under its name. -/
theorem not_get?_after_stats :
    ¬ ∀ (text : String) (command : Command), command ∈ (parse text).pipeline.visited →
      (parse text).errors = [] → command.name = "stats" →
      ∀ (before later : List Expr) (column : Column) (input : ColumnSet) (field : Field),
        command.operandsOf "by" = before ++ .column column :: later →
        input.get? column.name = some field →
        (∀ other ∈ later, other.namedValue.1 ≠ column.name) →
        ((command.after {} input).get? column.name).map (·.type?) = some field.type? := by
  intro stays
  have only : aggregations "FROM a | STATS c = count(*) BY \x60x y\x60" =
      [(["c"], [some ⟨⟨⟨31, 36⟩, "\x60x y\x60", false⟩, "x y", ["x y"], true⟩])] := by
    decide +kernel
  have clean : (parse "FROM a | STATS c = count(*) BY \x60x y\x60").errors = [] := by
    decide +kernel
  obtain ⟨command, visited, title, whole, names, groups⟩ := exists_of_aggregations only
  have present : (ColumnSet.mk [⟨"x y", some .long, false⟩] true).get? "x y" =
      some ⟨"x y", some .long, false⟩ := by decide
  have found := stays _ command visited clean title _ _ _ _ _ groups present nofun
  rw [Pipeline.visited_eq] at visited
  rw [after_stats title whole, aggregates, groups_eq (candid_visited _ _ visited) whole, groups,
    ColumnSet.ofFields, ColumnSet.get?_insertAll_of_absent] at found
  · cases found
  · intro field member
    rcases List.mem_append.mp member with computed | grouped
    · obtain ⟨aggregated, inside, rfl⟩ := List.mem_map.mp computed
      have name : aggregated.unfiltered.namedValue.1 ∈ ["c"] := by
        rw [← names]
        exact List.mem_map_of_mem inside
      rw [List.mem_singleton] at name
      change aggregated.unfiltered.namedValue.1 ≠ _
      rw [name]
      decide
    · obtain rfl := List.mem_singleton.mp grouped
      rw [group_column _ (by decide)]
      decide

end Command

end Esql
