import Esql.Check.Pipeline
import Esql.Proofs.Columns.Lookup
import Esql.Proofs.Grammar.Written
import Esql.Proofs.Text.Glob

/-!
# Names in backticks as patterns

KEEP and DROP take a name in backticks for a pattern, as they take any other name. So it stands for
its own column and no other if and only if no other column matches it, and a star in backticks
counts as all columns.
-/

namespace Esql

namespace ColumnSet

variable {set : ColumnSet} {name : String} {field : Field}

/-- No other column of the set matches this name. -/
def MatchesOnly (set : ColumnSet) (name : String) : Prop :=
  ∀ other ∈ set.names, Text.globMatch name other = true → other = name

instance (set : ColumnSet) (name : String) : Decidable (set.MatchesOnly name) :=
  inferInstanceAs (Decidable (∀ other ∈ set.names, _))

/-- Fields of distinct names are all listed. -/
theorem foldl_listOnce {kept fields : List Field}
    (distinct : ((kept ++ fields).map (·.name)).Nodup) :
    fields.foldl listOnce kept = kept ++ fields := by
  rw [List.map_append, List.nodup_append] at distinct
  obtain ⟨-, others, apart⟩ := distinct
  have new : ∀ field ∈ fields, (!kept.any fun known => known.name == field.name) = true := by
    intro field member
    rw [Bool.not_eq_true', List.any_eq_false]
    exact fun known inside same => apart known.name (List.mem_map_of_mem inside) field.name
      (List.mem_map_of_mem member) (beq_iff_eq.mp same)
  rw [foldl_listOnce_of_nodup others, List.filter_eq_self.mpr new]

theorem keep_singleton (known : set.known = true) (distinct : set.names.Nodup) (name : String) :
    set.keep [name] = { set with fields := set.matching name } := by
  have selected : ((set.matching name).map (·.name)).Nodup :=
    distinct.sublist (List.filter_sublist.map _)
  rw [keep, if_pos known, List.flatMap_singleton, foldl_listOnce (by exact selected),
    List.nil_append]

theorem drop_singleton (set : ColumnSet) (name : String) :
    set.drop [name] =
      { set with fields := set.fields.filter fun field => !Text.globMatch name field.name } := by
  simp [drop]

theorem filter_name_eq (distinct : set.names.Nodup) (listed : field ∈ set.fields) :
    set.fields.filter (·.name == field.name) = [field] := by
  obtain ⟨front, back, same, before, behind⟩ := exists_around distinct listed
  have none {fields : List Field} (different : ∀ other ∈ fields, other.name ≠ field.name) :
      fields.filter (·.name == field.name) = [] :=
    List.filter_eq_nil_iff.mpr fun other member =>
      by simpa using different other member
  have here : (field.name == field.name) = true := beq_self_eq_true _
  rw [same, List.filter_append, List.filter_cons, if_pos here, none before, none behind]
  rfl

/-- Where only one column matches, matching is having its name. -/
theorem MatchesOnly.globMatch_eq (only : set.MatchesOnly name) (listed : field ∈ set.fields) :
    Text.globMatch name field.name = (field.name == name) := by
  rw [Bool.eq_iff_iff, beq_iff_eq]
  refine ⟨only field.name (List.mem_map_of_mem listed), ?_⟩
  rintro rfl
  exact Text.globMatch_self _

/-- A kept name leaves its column alone if and only if no other column matches it. -/
theorem keep_eq_iff (known : set.known = true) (distinct : set.names.Nodup)
    (listed : field ∈ set.fields) :
    set.keep [field.name] = { set with fields := [field] } ↔ set.MatchesOnly field.name := by
  rw [keep_singleton known distinct]
  constructor
  · intro same other member matched
    obtain ⟨found, inside, rfl⟩ := List.mem_map.mp member
    have kept : found ∈ set.matching field.name := List.mem_filter.mpr ⟨inside, matched⟩
    have alone : set.matching field.name = [field] := congrArg fields same
    rw [alone, List.mem_singleton] at kept
    rw [kept]
  · intro only
    rw [matching, List.filter_congr fun other member => only.globMatch_eq member,
      filter_name_eq distinct listed]

/-- A dropped name removes its column alone if and only if no other column matches it. -/
theorem drop_eq_iff (set : ColumnSet) (name : String) :
    set.drop [name] = { set with fields := set.fields.filter (·.name != name) } ↔
      set.MatchesOnly name := by
  rw [drop_singleton]
  constructor
  · intro same other member matched
    obtain ⟨found, inside, rfl⟩ := List.mem_map.mp member
    by_contra different
    have left : found ∈ set.fields.filter (·.name != name) :=
      List.mem_filter.mpr ⟨inside, bne_iff_ne.mpr different⟩
    have others : (set.fields.filter fun field => !Text.globMatch name field.name) =
      set.fields.filter (·.name != name) := congrArg fields same
    rw [← others, List.mem_filter, matched] at left
    exact Bool.false_ne_true left.2
  · intro only
    rw [List.filter_congr fun field member => congrArg (!·) (only.globMatch_eq member)]
    rfl

end ColumnSet

/-! ## Queries with one name in backticks -/

open Grammar

/-- The query whose second command keeps or drops what is written as one name in backticks. -/
def tickedQuery (verb : Verb) (name : String) : String :=
  projectionQuery verb ('\x60' :: (Text.Quoted.encode name.toList ++ ['\x60']))

/-- The second command of the query, which has no errors. -/
def ReadsTicked (verb : Verb) (name : String) (command : Command) : Prop :=
  (parse (tickedQuery verb name)).errors = [] ∧
    ∃ source, (parse (tickedQuery verb name)).pipeline.commands = [source, command]

theorem ReadsTicked.unique {verb : Verb} {name : String} {first second : Command}
    (one : ReadsTicked verb name first) (other : ReadsTicked verb name second) :
    first = second := by
  obtain ⟨-, source, same⟩ := one
  obtain ⟨-, twin, equal⟩ := other
  rw [same] at equal
  exact (List.cons.inj (List.cons.inj equal).2).1

/-- A name in backticks at the end of a text is read as a column of this name. -/
theorem columnList_ticked {name : String} (nonempty : name ≠ "") {s : Reading} {offset : Nat}
    (front : s.rest = Token.scanFrom
      ('\x60' :: (Text.Quoted.encode name.toList ++ ['\x60'])) 0 false offset) :
    Ensures (columnList true) s fun read t => (∃ column : Column,
      read = ⟨[.column column], true⟩ ∧ column.name = name ∧ column.quoted = true ∧
        column.incomplete = false) ∧ t.errors = s.errors ∧ t.rest = [] := by
  have scanned := @scanFrom_quoted name.toList [] nofun false offset
  rw [List.append_nil, String.ofList_toList, Token.scanFrom_nil] at scanned
  have one : Ensures (columnOperand true) s fun read t => read.complete = true ∧ t.rest = [] ∧
      (∃ column : Column, read = ⟨[.column column], true⟩ ∧ column.name = name ∧
        column.quoted = true ∧ column.incomplete = false) ∧ t.errors = s.errors ∧ t.rest = [] := by
    refine (columnOperand_of_spells (spellsColumn_quoted true name _ ⟨_, _⟩)
      (fun same => nonempty (Option.some.inj same)) (front.trans scanned) nofun).mono ?_
    rintro read t ⟨⟨column, rfl, spelled, complete, quoted⟩, errors, left⟩
    exact ⟨rfl, left, ⟨column, rfl, spelled, quoted, complete⟩, errors, left⟩
  exact separatedFrom_one one

/-- A complete command whose only argument is a complete column. -/
structure ProjectsColumn (verb : Verb) (command : Command) (column : Column) : Prop where
  title : command.name = verb.name
  complete : command.incomplete = false
  args : command.args = [.expr (.column column)]
  closed : column.incomplete = false

namespace ProjectsColumn

variable {verb : Verb} {command : Command} {column : Column}

theorem patterns (projects : ProjectsColumn verb command column) : command.patterns = [column] := by
  simp [Command.patterns, Command.columns, Command.exprs, projects.args, Argument.expr?,
    Expr.column?, projects.closed]

theorem named (projects : ProjectsColumn verb command column) :
    Verb.ofName? command.name = some verb := by rw [projects.title, Verb.ofName?_name]

theorem after_keep (projects : ProjectsColumn .keep command column) (snapshot : Snapshot)
    (set : ColumnSet) : command.after snapshot set = set.keep [column.name] := by
  rw [Command.after, projects.complete, if_neg Bool.false_ne_true,
    command.output_eq_plain projects.named (by decide), Command.plainOutput, projects.patterns]
  rfl

theorem after_drop (projects : ProjectsColumn .drop command column) (snapshot : Snapshot)
    (set : ColumnSet) : command.after snapshot set = set.drop [column.name] := by
  rw [Command.after, projects.complete, if_neg Bool.false_ne_true,
    command.output_eq_plain projects.named (by decide), Command.plainOutput, projects.patterns]
  rfl

/-- A pattern with the name of a listed column matches it. -/
theorem checkKeep_eq_nil (projects : ProjectsColumn verb command column) {scope : Scope}
    (listed : column.name ∈ scope.columns.names) : command.checkKeep scope = [] := by
  obtain ⟨field, member, same⟩ := List.mem_map.mp listed
  have matched : field ∈ scope.columns.matching column.name :=
    List.mem_filter.mpr ⟨member, by rw [same]; exact Text.globMatch_self _⟩
  have present : scope.columns.lacks column.name = false :=
    Bool.eq_false_iff.mpr fun lacking => (ColumnSet.lacks_iff.mp lacking).2 listed
  have some_matched : (scope.columns.matching column.name).isEmpty = false :=
    List.isEmpty_eq_false_iff.mpr (List.ne_nil_of_mem matched)
  rw [Command.checkKeep, projects.patterns, List.flatMap_singleton, Scope.checkPattern,
    Scope.checkColumn, present, some_matched, Bool.and_false]
  simp

theorem check_keep (projects : ProjectsColumn .keep command column) (snapshot : Snapshot)
    (license? : Option License) {set : ColumnSet} (listed : column.name ∈ set.names) :
    command.check snapshot license? set = [] := by
  rw [command.check_eq_plain projects.named (by decide), Command.checkPlain]
  exact projects.checkKeep_eq_nil listed

/-- A dropped name is only refused if it is a star. -/
theorem check_drop (projects : ProjectsColumn .drop command column) (snapshot : Snapshot)
    (license? : Option License) {set : ColumnSet} (listed : column.name ∈ set.names) :
    command.check snapshot license? set =
      if column.name = "*" then [Finding.dropOfAllColumns.about column.span] else [] := by
  rw [command.check_eq_plain projects.named (by decide), Command.checkPlain, Command.checkDrop,
    projects.patterns, List.find?_cons]
  by_cases all : column.name = "*"
  · rw [if_pos all, beq_iff_eq.mpr all]
  · rw [if_neg all, beq_eq_false_iff_ne.mpr all]
    exact projects.checkKeep_eq_nil listed

end ProjectsColumn

/-- The second command is complete, and takes one column of this name. -/
theorem exists_readsTicked {verb : Verb} (projects : verb = .keep ∨ verb = .drop) {name : String}
    (nonempty : name ≠ "") :
    ∃ (command : Command) (column : Column), ReadsTicked verb name command ∧
      ProjectsColumn verb command column ∧ column.name = name ∧ column.quoted = true := by
  suffices reads : (parse (tickedQuery verb name)).errors = [] ∧
      ∃ (source command : Command) (column : Column),
        (parse (tickedQuery verb name)).pipeline.commands = [source, command] ∧
        ProjectsColumn verb command column ∧ column.name = name ∧ column.quoted = true by
    obtain ⟨clean, source, command, column, whole, facts⟩ := reads
    exact ⟨command, column, ⟨clean, source, whole⟩, facts⟩
  refine parse_projectionQuery projects
    (fun read t => (∃ column : Column, read = ⟨[.column column], true⟩ ∧ column.name = name ∧
      column.quoted = true ∧ column.incomplete = false) ∧ t.errors = [] ∧ t.rest = [])
    (fun commands errors => errors = [] ∧
      ∃ (source command : Command) (column : Column), commands = [source, command] ∧
        ProjectsColumn verb command column ∧ column.name = name ∧ column.quoted = true) ?_ ?_
  · intro s front clean
    refine (columnList_ticked nonempty front).mono ?_
    rintro read t ⟨column, same, left⟩
    exact ⟨column, same.trans clean, left⟩
  · rintro bound source command _ u t ⟨⟨column, rfl, named, quoted, closed⟩, clean, left⟩ closes
      title args complete
    obtain rfl := closes.eq_of_ended rfl left
    unfold Ensures
    rw [run_afterCommand_nil left]
    exact ⟨clean, source, command, column, rfl, ⟨title, complete, args, closed⟩, named, quoted⟩

/-- For every known set of columns with distinct names and every column of it: the name of the
column, written in backticks, is read without errors by KEEP and DROP. KEEP leaves exactly this
column, and DROP removes exactly this one, if and only if no other column of the set matches the
name as a pattern. Both accept the name, but DROP takes a star in backticks for all columns. -/
theorem projects_ticked_iff {set : ColumnSet} (known : set.known = true)
    (distinct : set.names.Nodup) {field : Field} (listed : field ∈ set.fields)
    (nonempty : field.name ≠ "") (snapshot : Snapshot) (license? : Option License) :
    ∃ keep drop : Command,
      ReadsTicked .keep field.name keep ∧ ReadsTicked .drop field.name drop ∧
      (keep.after snapshot set = { set with fields := [field] } ↔
        set.MatchesOnly field.name) ∧
      (drop.after snapshot set = { set with fields := set.fields.filter (·.name != field.name) } ↔
        set.MatchesOnly field.name) ∧
      keep.check snapshot license? set = [] ∧
      ∃ span, drop.check snapshot license? set =
        if field.name = "*" then [Finding.dropOfAllColumns.about span] else [] := by
  obtain ⟨keep, kept, readsKeep, keeps, sameKept, -⟩ := exists_readsTicked (.inl rfl) nonempty
  obtain ⟨drop, dropped, readsDrop, drops, sameDropped, -⟩ := exists_readsTicked (.inr rfl) nonempty
  have named : field.name ∈ set.names := List.mem_map_of_mem listed
  refine ⟨keep, drop, readsKeep, readsDrop, ?_, ?_, ?_, dropped.span, ?_⟩
  · rw [keeps.after_keep, sameKept, ColumnSet.keep_eq_iff known distinct listed]
  · rw [drops.after_drop, sameDropped, ColumnSet.drop_eq_iff]
  · exact keeps.check_keep snapshot license? (sameKept ▸ named)
  · rw [drops.check_drop snapshot license? (sameDropped ▸ named), sameDropped]

/-- A starred name that no other column matches. -/
theorem projects_ticked_starred :
    (ColumnSet.mk [⟨"a*", some .keyword, false⟩, ⟨"b", some .long, false⟩] true).names.Nodup ∧
      "a*" ≠ "" ∧
      ∃ keep drop : Command, ReadsTicked .keep "a*" keep ∧ ReadsTicked .drop "a*" drop ∧
        keep.after {} ⟨[⟨"a*", some .keyword, false⟩, ⟨"b", some .long, false⟩], true⟩ =
          ⟨[⟨"a*", some .keyword, false⟩], true⟩ ∧
        drop.after {} ⟨[⟨"a*", some .keyword, false⟩, ⟨"b", some .long, false⟩], true⟩ =
          ⟨[⟨"b", some .long, false⟩], true⟩ := by
  have distinct : (ColumnSet.mk
      [⟨"a*", some .keyword, false⟩, ⟨"b", some .long, false⟩] true).names.Nodup := by decide
  have nonempty : "a*" ≠ "" := by decide
  have only : (ColumnSet.mk
      [⟨"a*", some .keyword, false⟩, ⟨"b", some .long, false⟩] true).MatchesOnly "a*" := by
    decide +kernel
  obtain ⟨keep, drop, readsKeep, readsDrop, kept, dropped, -⟩ :=
    projects_ticked_iff rfl distinct (.head _) nonempty {} none
  exact ⟨distinct, nonempty, keep, drop, readsKeep, readsDrop, kept.mpr only, dropped.mpr only⟩

/-- Beside a column that it matches, a starred name in backticks does not stand for itself. -/
theorem not_projects_ticked :
    ¬ ∀ (set : ColumnSet) (field : Field), set.known = true → set.names.Nodup →
      field ∈ set.fields → field.name ≠ "" →
      ∃ keep drop : Command, ReadsTicked .keep field.name keep ∧
        ReadsTicked .drop field.name drop ∧
        keep.after {} set = { set with fields := [field] } ∧
        drop.after {} set =
          { set with fields := set.fields.filter (·.name != field.name) } ∧
        ∀ span, Finding.dropOfAllColumns.about span ∉ drop.check {} none set := by
  intro literal
  have distinct : (ColumnSet.mk
      [⟨"a*", some .keyword, false⟩, ⟨"ab", some .long, false⟩] true).names.Nodup := by decide
  obtain ⟨command, -, reads, -, same, -⟩ := literal _ _ rfl distinct (.head _) (by decide)
  obtain ⟨keep, column, readsKeep, keeps, named, -⟩ :=
    exists_readsTicked (.inl rfl) (show "a*" ≠ "" by decide)
  rw [reads.unique readsKeep, keeps.after_keep, named] at same
  have only := (ColumnSet.keep_eq_iff rfl distinct (.head _)).mp same
  exact absurd (only "ab" (by decide) (by decide +kernel)) (by decide)

end Esql
