import Esql.Proofs.Columns.Lookup
import Esql.Proofs.Grammar.Visited

/-!
# Columns of joined indices

A complete join always names an index. If the columns of the index were fetched, those that are no
keys of the join come out last, in the order of the index, and what they replace is gone. All other
columns come out as they were. If nothing was fetched, the columns come out as they were too, but
there may be more of them.
-/

namespace Esql

/-- Distinct columns that are inserted come last in their order. -/
theorem ColumnSet.fields_insertAll (set : ColumnSet) {fields : List Field}
    (distinct : (fields.map (·.name)).Nodup) :
    (set.insertAll fields).fields =
      (set.fields.filter fun field => field.name ∉ fields.map (·.name)) ++ fields := by
  induction fields generalizing set with
  | nil => simp [insertAll]
  | cons field rest ih =>
      rw [List.map_cons, List.nodup_cons] at distinct
      change ((set.insert field).insertAll rest).fields = _
      have others :
          (erased set.fields field.name).filter (fun other => other.name ∉ rest.map (·.name)) =
            set.fields.filter fun other => other.name ∉ (field :: rest).map (·.name) := by
        rw [erased, List.filter_filter]
        refine List.filter_congr fun other _ => ?_
        rw [Bool.eq_iff_iff]
        simp [and_comm]
      have last : [field].filter (fun other => other.name ∉ rest.map (·.name)) = [field] :=
        List.filter_cons_of_pos (decide_eq_true distinct.1)
      rw [ih _ distinct.2, insert, List.filter_append, others, last, List.append_assoc]
      rfl

namespace Grammar

/-- What is read of a join: its index, and then a clause. -/
def IsJoin (read : Parts Argument) : Prop :=
  read.complete = true → ∃ source clause, read.items = [.source source, .clause clause] ∧
    source.incomplete = false

theorem yields_joinArguments_isJoin : Yields joinArguments IsJoin := by
  have index : Yields (sourceArgument .index .indexName) fun read =>
      read.complete = true → ∃ source, read.items = [.source source] ∧
        source.incomplete = false := by
    refine .after fun source? => ?_
    split
    · rename_i source
      exact .pure fun complete => ⟨source, rfl, (Bool.not_eq_true' _).mp complete⟩
    · exact .after fun _ => .pure nofun
  refine index.bind fun read first => ?_
  split
  · rename_i complete
    obtain ⟨source, items, closed⟩ := first complete
    have joined (others : Parts Argument)
        (second : others.complete = true → ∃ clause, others.items = [.clause clause]) :
        IsJoin (read.append others) := by
      intro finished
      obtain ⟨clause, behind⟩ := second finished
      refine ⟨source, clause, ?_, closed⟩
      rw [Parts.append, items, behind]
      rfl
    refine .bind ?condition fun others second => .pure (joined others second)
    refine .after fun word => ?_
    split
    · exact .after fun body => .after fun extent => .pure fun _ => ⟨_, rfl⟩
    · exact .after fun _ => .pure nofun
  · rename_i unfinished
    exact .pure fun complete => absurd complete unfinished

end Grammar

namespace Command

variable {text : String} {command : Command}

/-- A complete join of a text names an index. -/
theorem exists_leadingSource?_of_join (visited : command ∈ (parse text).pipeline.visited)
    (title : command.name = "join") (whole : command.incomplete = false) :
    ∃ source, command.leadingSource? = some source := by
  rw [Pipeline.visited_eq] at visited
  have verb : Verb.ofName? command.name = some .join := by rw [title]; rfl
  obtain ⟨bound, nested, name, s, -, -, made⟩ := made_visited visited verb
  obtain ⟨made, join⟩ := made.and (Grammar.yields_joinArguments_isJoin.ensures s)
  have complete := made.incomplete
  rw [whole, eq_comm, Bool.not_eq_false'] at complete
  obtain ⟨source, clause, items, closed⟩ := join complete
  refine ⟨source, ?_⟩
  rw [leadingSource?, positional, made.args, items]
  exact Option.filter_some_pos (by rw [closed]; rfl)

/-- The columns that were fetched for the index of a join. -/
def fetched? (command : Command) (snapshot : Snapshot) : Option (List FieldMapping) :=
  command.leadingSource?.bind fun source => snapshot.joinColumns.lookup source.index

/-- The columns that a join adds or defines again: those fetched for its index of which no key has
the name. A key is a column that stands alone in the condition. -/
def unkeyed (command : Command) (snapshot : Snapshot) : List Field :=
  (((command.fetched? snapshot).getD []).filter fun column =>
    column.name ∉ (command.columnsOf "on").map (·.name)).map fun column =>
      ⟨column.name, some column.type, false⟩

theorem joined_eq (command : Command) (snapshot : Snapshot) :
    command.joined snapshot = .ofSchema (command.fetched? snapshot) := rfl

theorem unkeyed_eq (command : Command) (snapshot : Snapshot) :
    ((command.joined snapshot).fields.filter fun field =>
      !((command.columnsOf "on").map (·.name)).contains field.name).map
        (fun field => ⟨field.name, field.type?, false⟩) = command.unkeyed snapshot := by
  rw [joined_eq, unkeyed]
  cases command.fetched? snapshot with
  | none => rfl
  | some columns =>
      rw [ColumnSet.ofSchema, List.filter_map, List.map_map, Option.getD_some]
      refine congrArg (List.map _) (List.filter_congr fun column _ => ?_)
      rw [decide_not, ← List.contains_eq_mem]
      rfl

theorem nodup_unkeyed {snapshot : Snapshot}
    (lists : ∀ entry ∈ snapshot.joinColumns, (entry.2.map (·.name)).Nodup) (command : Command) :
    ((command.unkeyed snapshot).map (·.name)).Nodup := by
  have distinct : (((command.fetched? snapshot).getD []).map (·.name)).Nodup := by
    cases found : command.fetched? snapshot with
    | none => exact List.nodup_nil
    | some columns =>
        obtain ⟨source, -, listed⟩ := Option.bind_eq_some_iff.mp found
        obtain ⟨before, behind, split, -⟩ := List.lookup_eq_some_iff.mp listed
        exact lists (source.index, columns) (split ▸ List.mem_append_right _ (.head _))
  rw [unkeyed, List.map_map]
  exact distinct.sublist (List.filter_sublist.map _)

theorem known_ofSchema (columns? : Option (List FieldMapping)) :
    (ColumnSet.ofSchema columns?).known = columns?.isSome := by
  cases columns? <;> rfl

/-- For every complete join of a text and all columns that reach it, let the index list no name
twice. Then the columns of the index that are no keys come out last, as the index has them, and
before them all columns of other names, as they were. So the names are those of the input and of the
columns of the index that are no keys. All columns are known if and only if those of the input are
and those of the index were fetched. -/
theorem after_join (visited : command ∈ (parse text).pipeline.visited)
    (title : command.name = "join") (whole : command.incomplete = false) {snapshot : Snapshot}
    (lists : ∀ entry ∈ snapshot.joinColumns, (entry.2.map (·.name)).Nodup) (input : ColumnSet) :
    (command.after snapshot input).fields =
        (input.fields.filter fun field =>
          field.name ∉ (command.unkeyed snapshot).map (·.name)) ++ command.unkeyed snapshot ∧
      (∀ name, name ∈ (command.after snapshot input).names ↔
        name ∈ input.names ∨ name ∈ (command.unkeyed snapshot).map (·.name)) ∧
      ((command.after snapshot input).known = true ↔
        input.known = true ∧ (command.fetched? snapshot).isSome = true) := by
  have verb : Verb.ofName? command.name = some .join := by rw [title]; rfl
  obtain ⟨source, leading⟩ := exists_leadingSource?_of_join visited title whole
  have output : command.after snapshot input =
      if (command.fetched? snapshot).isSome then input.insertAll (command.unkeyed snapshot)
      else (input.insertAll (command.unkeyed snapshot)).forget := by
    rw [after, whole, if_neg Bool.false_ne_true, output_eq_plain command verb (by decide)]
    change command.joinOutput snapshot input = _
    rw [joinOutput, leading, Option.isNone_some, if_neg Bool.false_ne_true, ← unkeyed_eq,
      ← known_ofSchema, joined_eq]
  have fields : (command.after snapshot input).fields =
      (input.insertAll (command.unkeyed snapshot)).fields := by
    rw [output]
    split <;> rfl
  refine ⟨?_, fun name => ?_, ?_⟩
  · rw [fields, ColumnSet.fields_insertAll input (nodup_unkeyed lists command)]
  · rw [ColumnSet.names, fields]
    exact ColumnSet.mem_names_insertAll
  · rw [output]
    cases (command.fetched? snapshot).isSome with
    | true =>
        rw [if_pos rfl, ColumnSet.known_insertAll]
        exact (and_iff_left rfl).symm
    | false =>
        rw [if_neg Bool.false_ne_true]
        exact iff_of_false Bool.false_ne_true fun both => Bool.false_ne_true both.2

/-- A key, a new column, and one that the condition compares with another. -/
theorem after_join_keyed :
    let snapshot : Snapshot :=
      { joinColumns := [("b", [⟨"v", "ip"⟩, ⟨"k", "keyword"⟩, ⟨"x", "date"⟩])] }
    let input : ColumnSet :=
      ⟨[⟨"x", some .long, true⟩, ⟨"k", some .long, false⟩, ⟨"y", none, false⟩], true⟩
    ∃ command ∈ (parse "FROM a | LOOKUP JOIN b ON k, x == y").pipeline.visited,
      command.name = "join" ∧ command.incomplete = false ∧
      (∀ entry ∈ snapshot.joinColumns, (entry.2.map (·.name)).Nodup) ∧
      command.after snapshot input =
        ⟨[⟨"k", some .long, false⟩, ⟨"y", none, false⟩, ⟨"v", some .ip, false⟩,
          ⟨"x", some .date, false⟩], true⟩ := by
  intro snapshot input
  have only : ((parse "FROM a | LOOKUP JOIN b ON k, x == y").pipeline.visited.filter fun command =>
      command.name == "join" && !command.incomplete).map (fun command =>
        (command.leadingSource?.map (·.index), (command.columnsOf "on").map (·.name))) =
      [(some "b", ["k"])] := by decide +kernel
  obtain ⟨command, found, read⟩ := List.map_eq_singleton_iff.mp only
  have member := found ▸ List.mem_singleton_self command
  rw [List.mem_filter, Bool.and_eq_true, beq_iff_eq, Bool.not_eq_true'] at member
  obtain ⟨visited, title, whole⟩ := member
  rw [Prod.mk.injEq] at read
  have lists : ∀ entry ∈ snapshot.joinColumns, (entry.2.map (·.name)).Nodup := by decide
  have fetched : command.fetched? snapshot =
      some [⟨"v", "ip"⟩, ⟨"k", "keyword"⟩, ⟨"x", "date"⟩] := by
    obtain ⟨source, leading, same⟩ := Option.map_eq_some_iff.mp read.1
    rw [fetched?, leading, Option.bind_some, same]
    rfl
  have added : command.unkeyed snapshot = [⟨"v", some .ip, false⟩, ⟨"x", some .date, false⟩] := by
    rw [unkeyed, fetched, read.2]
    decide
  obtain ⟨fields, -, known⟩ := after_join visited title whole lists input
  rw [added] at fields
  rw [fetched] at known
  refine ⟨command, visited, title, whole, lists, ?_⟩
  exact congrArg₂ ColumnSet.mk (fields.trans (by decide)) (known.mpr ⟨rfl, rfl⟩)

end Command

end Esql
