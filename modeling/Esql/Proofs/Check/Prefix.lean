import Esql.Proofs.Check.Agreement
import Esql.Proofs.Grammar.Prefix
import Esql.Proofs.Syntax.Visited
import Esql.Schema.Snapshot

/-!
# Diagnostics in front of a command

What is wrong with a command does not depend on what comes behind it. The snapshots of a query and
of its beginning differ, since later commands ask for more, but no command of the beginning
consults what was added. Only the diagnostics about a query as a whole may change.
-/

namespace Esql

/-! ## What snapshots hold

A collaborator without effects gives one answer to a question, whenever it is asked. A snapshot
then holds, under the name of each source or policy that its query refers to, the answer to the
question about that name, whatever else the query refers to.
-/

/-- The leading source of a command is the first of its sources. -/
theorem Command.head?_sources {command : Command} {source : Source}
    (leading : command.leadingSource? = some source) :
    command.sources.head? = some source := by
  unfold leadingSource? positional at leading
  obtain ⟨first, _⟩ := Option.filter_eq_some_iff.mp leading
  unfold sources
  generalize command.args = arguments at first
  induction arguments with
  | nil => cases first
  | cons argument rest ih =>
      cases argument with
      | clause c => exact ih first
      | source s => exact first
      | _ => cases first

namespace Pipeline

variable {query : Pipeline} {command : Command}

theorem uses_of_mem (visited : command ∈ query.visited) : query.uses command.name = true :=
  List.any_eq_true.mpr ⟨command, visited, beq_self_eq_true _⟩

theorem mem_targets {source : Source} (visited : command ∈ query.visited)
    (leading : command.leadingSource? = some source) :
    source.index ∈ query.targets command.name := by
  unfold targets
  rw [List.mem_eraseDups]
  refine List.mem_map.mpr ⟨source, List.mem_filterMap.mpr ⟨command, ?_, ?_⟩, rfl⟩
  · exact List.mem_filter.mpr ⟨visited, beq_self_eq_true _⟩
  · exact Command.head?_sources leading

end Pipeline

namespace Snapshot

/-- Under a name that was asked about stands the answer to the question about it. -/
theorem lookup_answered {ask : String → String × Reply (List FieldMapping)}
    (named : ∀ name, (ask name).1 = name) (names : List String) (name : String) :
    (answered (names.map ask)).lookup name =
      if name ∈ names then (ask name).2.answer? else none := by
  unfold answered
  induction names with
  | nil => rfl
  | cons head rest ih =>
      rw [List.map_cons, List.filterMap_cons]
      by_cases same : name = head
      · subst same
        rw [if_pos List.mem_cons_self]
        cases given : (ask name).2.answer? with
        | some columns =>
            dsimp only [Option.map_some]
            rw [named, List.lookup_cons_self]
        | none =>
            dsimp only [Option.map_none]
            rw [ih, given, ite_self]
      · have other : (name == head) = false := beq_eq_false_iff_ne.mpr same
        cases given : (ask head).2.answer? with
        | some columns =>
            dsimp only [Option.map_some]
            rw [named, List.lookup_cons, other]
            simpa [same] using ih
        | none => simpa [same] using ih

theorem enrichColumns_name (collaborator : Collaborator Id) (policies : Reply (List EnrichPolicy))
    (name : String) : (enrichColumns collaborator policies name).1 = name := by
  unfold enrichColumns
  split
  · rfl
  · split <;> rfl

/-- The snapshot of a query with a collaborator without effects. -/
theorem collect_eq (collaborator : Collaborator Id) (text : String) (query : Pipeline) :
    ∃ failures, collect collaborator text query =
      (⟨(firstColumns collaborator text query).answer?, collaborator.indices.answer?,
        (askIf (query.uses "enrich") collaborator.policies).answer?,
        (askIf (query.uses "join") collaborator.joinIndices).answer?,
        answered ((query.targets "join").map (joinedColumns collaborator)),
        answered ((query.targets "enrich").map (enrichColumns collaborator
          (askIf (query.uses "enrich") collaborator.policies))), failures⟩ : Snapshot) := by
  unfold collect
  have joins : (query.targets "join").mapM (joinedColumns collaborator) =
      (pure ((query.targets "join").map (joinedColumns collaborator)) : Id _) := List.idRun_mapM
  have enriched (policies : Reply (List EnrichPolicy)) :
      (query.targets "enrich").mapM (enrichColumns collaborator policies) =
        (pure ((query.targets "enrich").map (enrichColumns collaborator policies)) : Id _) :=
    List.idRun_mapM
  simp only [joins, enriched]
  exact ⟨_, rfl⟩

end Snapshot

/-! ## What is said of the commands in front -/

/-- The diagnostic is about a part of a query, not about the query as a whole. -/
def Diagnostic.isLocal (diagnostic : Diagnostic) : Bool :=
  diagnostic.notice != .tooManyForks && diagnostic.notice != .schemaUnavailable

/-- Commands are checked one after the other, each list against the columns behind the first. -/
theorem Command.checkAll_append (snapshot : Snapshot) (license? : Option License)
    (input : ColumnSet) (xs ys : List Command) :
    checkAll snapshot license? input (xs ++ ys) =
      checkAll snapshot license? input xs ++
        checkAll snapshot license? (outputOfAll snapshot input xs) ys := by
  induction xs generalizing input with
  | nil => rfl
  | cons command rest ih =>
      rw [List.cons_append, checkAll, checkAll, outputOfAll, ih, List.append_assoc]
      rfl

namespace Snapshot

/-- The commands of a query find the same when the query is part of another one. -/
theorem collect_agreeOn (collaborator : Collaborator Id) {text cut : String}
    {whole part : Pipeline}
    (first : firstColumns collaborator cut part = firstColumns collaborator text whole)
    (visited : part.visited ⊆ whole.visited) :
    Snapshot.AgreeOn (collect collaborator cut part) (collect collaborator text whole)
      part.visited := by
  obtain ⟨_, small⟩ := collect_eq collaborator cut part
  obtain ⟨_, large⟩ := collect_eq collaborator text whole
  intro command member
  have inside := visited member
  have inPart := Pipeline.uses_of_mem member
  have inWhole := Pipeline.uses_of_mem inside
  rw [small, large]
  refine ⟨?_, rfl, ?_, ?_, ?_, ?_⟩
  · dsimp only
    rw [first]
  · intro join
    rw [join] at inPart inWhole
    dsimp only
    rw [inPart, inWhole]
  · intro join source leading
    have here := Pipeline.mem_targets member leading
    have there := Pipeline.mem_targets inside leading
    rw [join] at here there
    dsimp only
    rw [lookup_answered (fun _ => rfl), lookup_answered (fun _ => rfl), if_pos here, if_pos there]
  · intro enrich
    rw [enrich] at inPart inWhole
    dsimp only
    rw [inPart, inWhole]
  · intro enrich source leading
    have here := Pipeline.mem_targets member leading
    have there := Pipeline.mem_targets inside leading
    rw [enrich] at inPart inWhole here there
    dsimp only
    rw [inPart, inWhole, lookup_answered (enrichColumns_name _ _),
      lookup_answered (enrichColumns_name _ _), if_pos here, if_pos there]

/-- Only the text up to the end of the first command matters for its columns. -/
theorem firstColumns_eq (collaborator : Collaborator Id) {text cut : String} {rest : List Char}
    {whole part : Pipeline} (nested : part.Nested cut) (longer : text.toList = cut.toList ++ rest)
    (first : part.commands.head? = whole.commands.head?) :
    firstColumns collaborator cut part = firstColumns collaborator text whole := by
  unfold firstColumns
  rw [← first]
  cases front : part.commands.head? with
  | none => rfl
  | some command =>
      obtain ⟨fits, row, inside⟩ := nested
      have member := List.mem_of_head? front
      dsimp only
      rw [(inside command member).fits.slice_through longer]

end Snapshot

namespace Pipeline

theorem filter_checkForkCount (query : Pipeline) :
    query.checkForkCount.filter Diagnostic.isLocal = [] := by
  unfold checkForkCount
  split <;> rfl

theorem filter_warning (snapshot : Snapshot) (span : Span) :
    (snapshot.warning? span).toList.filter Diagnostic.isLocal = [] := by
  unfold Snapshot.warning?
  cases snapshot.failures.head? <;> rfl

/-- What is wrong with the parts of a query is found command by command. -/
theorem filter_check (query : Pipeline) (snapshot : Snapshot) (license? : Option License) :
    (query.check snapshot license?).filter Diagnostic.isLocal =
      (Command.checkAll snapshot license? .empty query.commands).filter Diagnostic.isLocal := by
  unfold check
  rw [List.filter_append, List.filter_append, filter_checkForkCount, filter_warning,
    List.append_nil, List.append_nil]

end Pipeline

/-- What is wrong with the parts of a text without errors. -/
theorem filter_validate (collaborator : Collaborator Id) (license? : Option License) {text : String}
    (clean : (parse text).errors = []) :
    (validate collaborator license? text).run.filter Diagnostic.isLocal =
      (Command.checkAll (Snapshot.collect collaborator text (parse text).pipeline) license? .empty
        (parse text).pipeline.commands).filter Diagnostic.isLocal := by
  rw [← Pipeline.filter_check]
  change ((parse text).diagnostics ++ _).filter _ = _
  rw [Parsed.diagnostics, clean]
  rfl

/-- Checking does not look ahead: what is wrong with the parts of a text up to the end of a command
comes first in what is wrong with the parts of the whole text. -/
theorem validate_through_command (collaborator : Collaborator Id) (license? : Option License)
    {text : String} {i : Nat} {command : Command} (clean : (parse text).errors = [])
    (found : (parse text).pipeline.commands[i]? = some command) :
    (validate collaborator license? ((Span.mk 0 command.span.stop).slice text)).run.filter
        Diagnostic.isLocal <+:
      (validate collaborator license? text).run.filter Diagnostic.isLocal := by
  obtain ⟨earlier, later, commands⟩ := List.append_of_mem (List.mem_of_getElem? found)
  obtain ⟨noErrors, upTo⟩ := parse_front clean commands
  obtain ⟨rest, longer⟩ : ∃ rest, text.toList = _ ++ rest := by
    obtain ⟨fits, row, nested⟩ := nested_parse text
    exact (nested command (List.mem_of_getElem? found)).fits.exists_behind
  generalize (Span.mk 0 command.span.stop).slice text = cut at noErrors upTo longer ⊢
  have whole : (parse text).pipeline.commands = (parse cut).pipeline.commands ++ later := by
    rw [commands, upTo, List.append_assoc, List.singleton_append]
  have first : Snapshot.firstColumns collaborator cut (parse cut).pipeline =
      Snapshot.firstColumns collaborator text (parse text).pipeline := by
    refine Snapshot.firstColumns_eq collaborator (nested_parse cut) longer ?_
    rw [commands, upTo]
    cases earlier <;> rfl
  have visited : (parse cut).pipeline.visited ⊆ (parse text).pipeline.visited := by
    rw [Pipeline.visited_eq, Pipeline.visited_eq, whole, Command.visitedIn_append]
    exact List.subset_append_left _ _
  have agree := Snapshot.collect_agreeOn collaborator first visited
  rw [Pipeline.visited_eq] at agree
  rw [filter_validate _ _ noErrors, filter_validate _ _ clean,
    Command.checkAll_congr license? _ agree, whole, Command.checkAll_append, List.filter_append]
  exact List.prefix_append _ _

theorem validate_through_command_enrich :
    (parse "FROM a | DROP b | ENRICH p").errors = [] ∧
      ∃ command, (parse "FROM a | DROP b | ENRICH p").pipeline.commands[1]? = some command ∧
        (validate (Schema.collaborator ⟨some [], some [], some [], []⟩ : Collaborator Id) none
            ((Span.mk 0 command.span.stop).slice "FROM a | DROP b | ENRICH p")).run.filter
            Diagnostic.isLocal <+:
          (validate (Schema.collaborator ⟨some [], some [], some [], []⟩ : Collaborator Id) none
            "FROM a | DROP b | ENRICH p").run.filter Diagnostic.isLocal := by
  have clean : (parse "FROM a | DROP b | ENRICH p").errors = [] := by decide +kernel
  have present : (parse "FROM a | DROP b | ENRICH p").pipeline.commands[1]?.isSome = true := by
    decide +kernel
  obtain ⟨command, found⟩ := Option.isSome_iff_exists.mp present
  exact ⟨clean, command, found, validate_through_command _ none clean found⟩

end Esql
