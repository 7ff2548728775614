import Esql.Proofs.Completion.Scope
import Esql.Proofs.Completion.Typed
import Esql.Proofs.Completion.Word
import Esql.Proofs.Flow.Distinct
import Esql.Proofs.Text.Glob

/-!
# Columns that are listed already

Behind a comma in a list of column patterns the columns are offered that reach the command. Those
are left out that are in the list by their own name. A pattern with stars takes columns as well, but
completion looks for its name only, so a column that just such a pattern matches is offered again.
-/

namespace Esql

open Grammar

/-! ## The end of a list -/

/-- No other token reaches into the last one. -/
theorem Token.stop_le_of_getLast? {text : String} {last token : Token}
    (ends : (scan text).getLast? = some last) (member : token ∈ scan text) (other : token ≠ last) :
    token.span.stop ≤ last.span.start := by
  obtain ⟨row, -⟩ := (ready_start text).placed
  change Span.Row 0 0 ((scan text).map Token.span) _ at row
  obtain ⟨front, tokens⟩ := List.getLast?_eq_some_iff.mp ends
  rw [tokens] at row member
  rw [List.map_append] at row
  have inside : token ∈ front :=
    (List.mem_append.mp member).resolve_right fun same => other (List.mem_singleton.mp same)
  exact (List.pairwise_append.mp row.pairwise).2.2 _ (List.mem_map_of_mem inside) _ (.head _)

section

variable {text : String} {command : Command} {comma : Token}

/-- A column that is listed stands behind the name of its command and before a comma that ends the
text. -/
theorem Command.listed_before (visited : command ∈ Command.visitedIn (parse text).pipeline.commands)
    {column : Column} (listed : column ∈ command.columns)
    (ends : (Token.scan text).getLast? = some comma) (mark : comma.kind = .comma) :
    command.nameSpan.stop ≤ column.span.stop ∧ column.span.stop ≤ comma.span.start := by
  obtain ⟨expr, inside, found⟩ := List.mem_filterMap.mp listed
  cases expr <;> cases found
  refine ⟨?behind, ?before⟩
  case behind =>
    obtain ⟨argument, given, same⟩ := List.mem_filterMap.mp inside
    cases argument <;> cases same
    have bounds := (named_visited text command visited).row.bounds (List.mem_map_of_mem given)
    exact Nat.le_trans bounds.1 bounds.2.1
  case before =>
    obtain ⟨stars, first, others, read⟩ : column.Traced text :=
      traced_visited visited (Command.mem_walk_of_exprs inside)
    obtain ⟨last, final⟩ : ∃ last, (first :: others).getLast? = some last :=
      ⟨_, List.getLast?_eq_some_getLast (List.cons_ne_nil first others)⟩
    have member := List.mem_of_getLast? final
    rw [← read.joined.stop_of_getLast? final]
    refine Token.stop_le_of_getLast? ends (read.within.mem member) ?_
    rintro rfl
    have continues := read.continues _ member
    rw [mark] at continues
    cases stars <;> cases continues

end

/-! ## What is offered -/

namespace Draft

/-- The name of the field is in the list. -/
def names (draft : Draft) (field : Field) : Bool :=
  draft.command.columns.any fun column => field.name == column.name

/-- A pattern of the list takes the field. -/
def takes (draft : Draft) (field : Field) : Bool :=
  draft.command.columns.any fun column => Text.globMatch column.name field.name

/-- The columns that reach the draft, those of an unsupported type left out. -/
def supported (draft : Draft) : List Field :=
  draft.columns.fields.filter fun field => field.type? != some .unsupported

/-- The columns to be offered whose names are not in the list. -/
def unnamed (draft : Draft) : List Field := draft.supported.filter fun field => !draft.names field

/-- The columns to be offered that no pattern of the list takes. -/
def untaken (draft : Draft) : List Field := draft.supported.filter fun field => !draft.takes field

variable {draft : Draft}

theorem takes_of_names {field : Field} (named : draft.names field = true) :
    draft.takes field = true := by
  obtain ⟨column, listed, same⟩ := List.any_eq_true.mp named
  refine List.any_eq_true.mpr ⟨column, listed, ?_⟩
  rw [← beq_iff_eq.mp same]
  exact Text.globMatch_self field.name

theorem untaken_eq_filter :
    draft.untaken = draft.unnamed.filter fun field => !draft.takes field := by
  rw [untaken, unnamed, List.filter_filter]
  refine List.filter_congr fun field _ => ?_
  cases named : draft.names field with
  | true => rw [takes_of_names named]; rfl
  | false => rw [Bool.not_false, Bool.and_true]

/-- Without stars in the list, a column is taken by its own name only. -/
theorem takes_eq_names (plain : ∀ column ∈ draft.command.columns, Text.hasStar column.name = false)
    (field : Field) : draft.takes field = draft.names field := by
  refine Bool.eq_iff_iff.mpr ⟨fun taken => ?_, takes_of_names⟩
  obtain ⟨column, listed, matched⟩ := List.any_eq_true.mp taken
  refine List.any_eq_true.mpr ⟨column, listed, beq_iff_eq.mpr ?_⟩
  exact Text.eq_of_globMatch (plain column listed) matched

/-- A column of any type is accepted, if it is not known to be unsupported. -/
theorem all_accepts_any (type? : Option FieldType) :
    (type?.all fun type => ParamType.any.accepts type false) = (type? != some .unsupported) := by
  cases type? with
  | none => rfl
  | some type => cases type <;> rfl

/-- Behind a comma no name is being typed. -/
theorem word_behind_comma {front : List Token} {comma : Token}
    (tokens : draft.tokens = front ++ [comma]) (mark : comma.kind = .comma) :
    draft.word = ⟨"", none, draft.tokens⟩ := by
  have none : Completion.splitRun isWordPart draft.tokens = (draft.tokens, []) := by
    have apart : ∀ token ∈ draft.tokens.getLast?, isWordPart token.kind = false := by
      intro token last
      rw [tokens, List.getLast?_concat] at last
      cases last
      rw [mark]
      rfl
    have split := Completion.splitRun_append .nil (List.forall_mem_nil _) apart
    rwa [List.append_nil] at split
  unfold word run
  rw [none, ite_self]
  rfl

theorem suggestPatterns_behind_comma {front : List Token} {comma : Token}
    (tokens : draft.tokens = front ++ [comma]) (mark : comma.kind = .comma)
    (before : ∀ column ∈ draft.command.columns, column.span.stop < draft.cursor) :
    draft.suggestPatterns = draft.unnamed.map Suggestion.column := by
  have listed : draft.listed draft.command.columns none = draft.command.columns.map (·.name) := by
    rw [Draft.listed, List.filter_eq_self.mpr]
    exact fun column member => decide_eq_true (before column member)
  have previous : (Typed.previous? ⟨"", none, draft.tokens⟩).filter
      (fun previous => previous.kind != .comma) = none := by
    rw [Typed.previous?, tokens, List.getLast?_concat, Option.filter_some, mark]
    rfl
  have same : draft.columnSuggestions .any (draft.command.columns.map (·.name)) =
      draft.unnamed.map Suggestion.column := by
    rw [columnSuggestions, unnamed, supported, List.filter_filter]
    refine congrArg _ (List.filter_congr fun field _ => ?_)
    rw [List.contains_eq_any_beq, List.any_map, all_accepts_any]
    rfl
  unfold suggestPatterns suggestColumns
  rw [word_behind_comma tokens mark]
  dsimp only
  rw [previous, listed, same, List.map_map]
  rfl

end Draft

namespace Completion

variable {text : String} {snapshot : Snapshot}

/-- Behind a comma, what may stand there is for the command to say. -/
theorem atEnd_behind_comma {front : List Token} {comma : Token}
    (tokens : Token.scan text = front ++ [comma]) (mark : comma.kind = .comma) {query : Pipeline}
    {draft : Draft} {verb : Verb}
    (drafted : draft? text (Token.scan text) query snapshot = some (draft, verb)) :
    atEnd text query snapshot = draft.suggestions verb := by
  have last : (Token.scan text).getLast? = some comma := by
    rw [tokens]
    exact List.getLast?_concat
  have typing : ((Token.scan text).getLast?.filter fun token =>
      token.endsAt (Text.byteLength text) &&
        (token.kind.isName || token.kind.keyword?.isSome)) = none := by
    rw [last, Option.filter_some, mark]
    simp [TokenKind.isName, TokenKind.name?, TokenKind.keyword?]
  have start : start? query (Token.scan text) = none := by
    rw [start?, last]
    simp only [mark]
  have qualifier : endsWithQualifier (Token.scan text) = false := by
    rw [endsWithQualifier, tokens, List.reverse_concat]
    cases front.reverse with
    | nil => rfl
    | cons first rest => simp [mark, TokenKind.name?]
  unfold atEnd
  simp only [typing, Option.isSome_none, Bool.false_eq_true, if_false, start, qualifier, drafted]

/-- The suggestions for some columns, each of them once. -/
def listed (fields : List Field) : List Suggestion :=
  (fields.map Suggestion.column).foldl listOnce []

/-- No label is lost where suggestions are listed once. -/
theorem label_mem_foldl_listOnce {known suggestions : List Suggestion} {label : String}
    (member : label ∈ (known ++ suggestions).map (·.label)) :
    label ∈ (suggestions.foldl listOnce known).map (·.label) := by
  induction suggestions generalizing known with
  | nil => rwa [List.append_nil] at member
  | cons next rest ih =>
      rw [List.foldl_cons]
      refine ih ?_
      rw [listOnce]
      split
      · rename_i there
        obtain ⟨same, inside, equal⟩ := List.any_eq_true.mp there
        have label : same.label = next.label := beq_iff_eq.mp (Bool.and_eq_true_iff.mp equal).2
        rw [List.map_append, List.map_cons, List.mem_append, List.mem_cons] at member
        rw [List.map_append, List.mem_append]
        rcases member with before | rfl | behind
        · exact .inl before
        · exact .inl (label ▸ List.mem_map_of_mem inside)
        · exact .inr behind
      · rwa [List.append_assoc]

theorem label_mem_listed {fields : List Field} {name : String} :
    name ∈ (listed fields).map (·.label) ↔ name ∈ fields.map (·.name) := by
  have labels : (fields.map Suggestion.column).map (·.label) = fields.map (·.name) := by
    rw [List.map_map]
    rfl
  rw [← labels]
  refine ⟨fun member => ?_, fun member => label_mem_foldl_listOnce member⟩
  obtain ⟨suggestion, inside, rfl⟩ := List.mem_map.mp member
  rcases mem_of_mem_listOnce inside with none | given
  · cases none
  · exact List.mem_map_of_mem given

/-- Columns with different names are all listed. -/
theorem listed_of_nodup {fields : List Field} (distinct : (fields.map (·.name)).Nodup) :
    listed fields = fields.map Suggestion.column := by
  rw [listed, foldl_listOnce, List.nil_append]
  rw [List.nil_append, List.map_map]
  exact distinct

/-- What is offered at the end of a text, by what is known of the schema. -/
def offeredAtEnd (text : String) (snapshot : Snapshot) : List Suggestion :=
  (atEnd text (parse text).pipeline snapshot).foldl listOnce []

end Completion

theorem suggest_byteLength {m : Type → Type} [Monad m] (collaborator : Collaborator m)
    (text : String) :
    suggest collaborator text (Text.byteLength text) = do
      return Completion.offeredAtEnd text
        (← Snapshot.collect collaborator text (parse text).pipeline) := by
  rw [suggest, Text.before_byteLength]
  rfl

namespace Draft

variable {draft : Draft}

/-- Columns that a pattern takes make a difference to what is listed. -/
theorem listed_unnamed_eq_iff :
    Completion.listed draft.unnamed = Completion.listed draft.untaken ↔
      ∀ field ∈ draft.unnamed, draft.takes field = false := by
  refine ⟨fun same field member => ?_, fun free => ?_⟩
  · have kept : field.name ∈ (Completion.listed draft.untaken).map (·.label) :=
      same ▸ Completion.label_mem_listed.mpr (List.mem_map_of_mem member)
    obtain ⟨other, inside, equal⟩ := List.mem_map.mp (Completion.label_mem_listed.mp kept)
    have taken := (List.mem_filter.mp inside).2
    rw [Bool.not_eq_true'] at taken
    unfold takes at taken ⊢
    rwa [equal] at taken
  · rw [untaken_eq_filter, List.filter_eq_self.mpr]
    intro field member
    rw [free field member]
    rfl

end Draft

/-! ## What reaches a command -/

theorem columnsBefore_last {text : String} {command : Command}
    (last : (parse text).pipeline.commands.getLast? = some command) (snapshot : Snapshot) :
    (parse text).pipeline.columnsBefore command snapshot =
      Command.outputOfAll snapshot .empty (parse text).pipeline.commands.dropLast := by
  obtain ⟨front, commands⟩ := List.getLast?_eq_some_iff.mp last
  have found :
      ((parse text).pipeline.commands.any fun other => other.span == command.span) = true :=
    List.any_eq_true.mpr ⟨command, List.mem_of_getLast? last, BEq.rfl⟩
  rw [Pipeline.columnsBefore, if_pos found, (nested_parse text).precedingAt_eq commands, commands,
    List.dropLast_concat]

/-- Completion works with columns that are listed once, if the source lists its columns once. -/
theorem Pipeline.nodup_columnsBefore {snapshot : Snapshot}
    (columns : ∀ listed ∈ snapshot.columns?, (listed.map (·.name)).Nodup) (query : Pipeline)
    (command : Command) : (query.columnsBefore command snapshot).names.Nodup := by
  have reached (commands : List Command) :=
    Command.nodup_outputOfAll columns ColumnSet.nodup_empty commands
  rw [columnsBefore]
  split
  · exact reached _
  split
  · exact ColumnSet.nodup_unknown
  · exact Command.nodup_outputOfAll columns (reached _) _

/-! ## Behind a comma -/

/-- An answer that offers the columns whose names are not in the list of a draft. -/
structure Draft.OffersUnnamed (draft : Draft) (answer : List Suggestion) : Prop where
  offered : answer = Completion.listed draft.unnamed
  /-- The columns that a pattern takes are left out if their own names are in the list as well. -/
  untaken_iff : answer = Completion.listed draft.untaken ↔
    ∀ field ∈ draft.unnamed, draft.takes field = false
  plain : (∀ column ∈ draft.command.columns, Text.hasStar column.name = false) →
    answer = Completion.listed draft.untaken
  /-- All of them are offered, in their order. -/
  whole : (∀ columns ∈ draft.snapshot.columns?, (columns.map (·.name)).Nodup) →
    answer = draft.unnamed.map Suggestion.column

theorem offersUnnamed_of_draft? {text : String} {snapshot : Snapshot} {comma : Token}
    (ends : (Token.scan text).getLast? = some comma) (mark : comma.kind = .comma) {verb : Verb}
    (projects : verb = .keep ∨ verb = .drop) {draft : Draft}
    (drafted : Completion.draft? text (Token.scan text) (parse text).pipeline snapshot =
      some (draft, verb)) (some : draft.command.columns ≠ []) :
    draft.OffersUnnamed (Completion.offeredAtEnd text snapshot) := by
  obtain ⟨visited, -, whole⟩ := Completion.draft?_eq_some drafted
  obtain ⟨front, tokens⟩ := List.getLast?_eq_some_iff.mp ends
  rw [Pipeline.visited_eq] at visited
  have before {column : Column} (listed : column ∈ draft.command.columns) :=
    Command.listed_before visited listed ends mark
  have wide := (Token.sound_of_mem_scan (List.mem_of_getLast? ends)).nonempty
  have within := (Token.sound_of_mem_scan (List.mem_of_getLast? ends)).fits.stop_le
  have offered : Completion.offeredAtEnd text snapshot = Completion.listed draft.unnamed := by
    have written : ∃ others, draft.tokens = others ++ [comma] := by
      obtain ⟨column, listed⟩ := List.exists_mem_of_ne_nil _ some
      have behind : ¬ decide (comma.span.start < draft.command.nameSpan.stop) = true := by
        have place := before listed
        rw [decide_eq_true_iff]
        omega
      rw [whole]
      change ∃ others, (Token.scan text).dropWhile _ = others ++ [comma]
      rw [tokens, List.dropWhile_append]
      split
      · exact ⟨[], List.dropWhile_cons_of_neg behind⟩
      · exact ⟨_, rfl⟩
    obtain ⟨others, written⟩ := written
    have patterns : draft.suggestions verb = draft.suggestPatterns := by
      rcases projects with rfl | rfl <;> rfl
    have earlier : ∀ column ∈ draft.command.columns, column.span.stop < draft.cursor := by
      intro column listed
      have cursor : draft.cursor = Text.byteLength text := by
        rw [whole]
        rfl
      have left := (before listed).2
      omega
    rw [Completion.offeredAtEnd, Completion.atEnd_behind_comma tokens mark drafted, patterns,
      Draft.suggestPatterns_behind_comma written mark earlier]
    rfl
  refine ⟨offered, offered ▸ Draft.listed_unnamed_eq_iff, fun plain => ?plain,
    fun distinct => ?whole⟩
  case plain =>
    rw [offered, Draft.listed_unnamed_eq_iff]
    intro field member
    rw [Draft.takes_eq_names plain]
    exact (Bool.not_eq_true' _).mp (List.mem_filter.mp member).2
  case whole =>
    have columns : draft.columns.names.Nodup := by
      rw [whole] at distinct ⊢
      exact Pipeline.nodup_columnsBefore distinct _ _
    rw [offered, Completion.listed_of_nodup]
    refine columns.sublist (List.Sublist.map _ ?_)
    exact List.filter_sublist.trans List.filter_sublist

/-- Behind a comma in the list of a KEEP or a DROP all columns that reach the command are offered,
in their order, except those of an unsupported type and those with a name that is in the list. These
are the columns that no pattern of the list takes if and only if each column that some pattern takes
has its own name in the list as well, so always if there is no star. -/
theorem offered_behind_comma {text : String}
    (ends : (Token.scan text).getLast?.map (·.kind) = some .comma) {verb : Verb}
    (projects : verb = .keep ∨ verb = .drop) (snapshot : Snapshot) :
    (∀ (m : Type → Type) [Monad m] (collaborator : Collaborator m),
      suggest collaborator text (Text.byteLength text) = do
        return Completion.offeredAtEnd text
          (← Snapshot.collect collaborator text (parse text).pipeline)) ∧
    (∀ command, (parse text).pipeline.commands.getLast? = some command →
      Verb.ofName? command.name = some verb →
        ∃ draft, Completion.draft? text (Token.scan text) (parse text).pipeline snapshot =
          some (draft, verb) ∧ draft.command = command ∧
          draft.columns = Command.outputOfAll snapshot .empty
            (parse text).pipeline.commands.dropLast) ∧
    ∀ draft,
      Completion.draft? text (Token.scan text) (parse text).pipeline snapshot =
        some (draft, verb) → draft.command.columns ≠ [] →
      draft.OffersUnnamed (Completion.offeredAtEnd text snapshot) := by
  obtain ⟨comma, last, mark⟩ := Option.map_eq_some_iff.mp ends
  refine ⟨fun m _ collaborator => suggest_byteLength collaborator text, ?_,
    fun draft drafted some => offersUnnamed_of_draft? last mark projects drafted some⟩
  intro command final known
  have other : verb ≠ .fork := by rcases projects with rfl | rfl <;> exact nofun
  obtain ⟨draft, drafted, rfl⟩ := draft?_of_getLast? final known other
  obtain ⟨-, -, whole⟩ := Completion.draft?_eq_some drafted
  refine ⟨draft, drafted, rfl, ?_⟩
  rw [← columnsBefore_last final, whole]
  rfl

/-- A draft at the end of a text, by what can be told of it. -/
theorem exists_draft_of (text : String) (verb : Verb) (snapshot : Snapshot) (holds : Draft → Bool)
    (checked : (Completion.draft? text (Token.scan text) (parse text).pipeline snapshot).map
      (fun found => (found.2, holds found.1)) = some (verb, true)) :
    ∃ draft, Completion.draft? text (Token.scan text) (parse text).pipeline snapshot =
      some (draft, verb) ∧ holds draft = true := by
  obtain ⟨⟨draft, _⟩, drafted, facts⟩ := Option.map_eq_some_iff.mp checked
  obtain ⟨rfl, here⟩ := Prod.mk.inj facts
  exact ⟨draft, drafted, here⟩

/-- The name in the list is written in backticks. -/
theorem offered_behind_comma_quoted :
    Completion.offeredAtEnd "FROM a | DROP x.\x60y\x60, "
      { columns? := some [⟨"z", "long"⟩, ⟨"x.y", "ip"⟩, ⟨"u", "unsupported"⟩] } =
      [Suggestion.column ⟨"z", some .long, false⟩] := by
  have ends : (Token.scan "FROM a | DROP x.\x60y\x60, ").getLast?.map (·.kind) = some .comma := by
    decide +kernel
  obtain ⟨draft, drafted, found⟩ := exists_draft_of "FROM a | DROP x.\x60y\x60, " .drop
    { columns? := some [⟨"z", "long"⟩, ⟨"x.y", "ip"⟩, ⟨"u", "unsupported"⟩] }
    (fun draft => decide (draft.unnamed = [⟨"z", some .long, false⟩]) &&
      !draft.command.columns.isEmpty)
    (by decide +kernel)
  rw [Bool.and_eq_true, decide_eq_true_iff, Bool.not_eq_true', List.isEmpty_eq_false_iff] at found
  have offers := (offered_behind_comma ends (.inr rfl) _).2.2 draft drafted found.2
  rw [offers.offered, found.1]
  rfl

/-- A pattern in the list takes a column that is offered again. -/
theorem not_offered_behind_comma :
    ¬ ∀ (text : String) (verb : Verb) (snapshot : Snapshot) (draft : Draft),
      (Token.scan text).getLast?.map (·.kind) = some .comma → verb = .keep ∨ verb = .drop →
      Completion.draft? text (Token.scan text) (parse text).pipeline snapshot = some (draft, verb) →
      draft.command.columns ≠ [] → (∀ column ∈ draft.command.columns, column.incomplete = false) →
        Completion.offeredAtEnd text snapshot = Completion.listed draft.untaken := by
  intro claimed
  have ends : (Token.scan "FROM a | KEEP host.*, ").getLast?.map (·.kind) = some .comma := by
    decide +kernel
  obtain ⟨draft, drafted, found⟩ := exists_draft_of "FROM a | KEEP host.*, " .keep
    { columns? := some [⟨"host.name", "keyword"⟩, ⟨"x", "long"⟩] }
    (fun draft => decide (draft.untaken = [⟨"x", some .long, false⟩]) &&
      !draft.command.columns.isEmpty && draft.command.columns.all fun column => !column.incomplete)
    (by decide +kernel)
  rw [Bool.and_eq_true, Bool.and_eq_true, decide_eq_true_iff, Bool.not_eq_true',
    List.isEmpty_eq_false_iff, List.all_eq_true] at found
  obtain ⟨⟨untaken, filled⟩, complete⟩ := found
  have whole : ∀ column ∈ draft.command.columns, column.incomplete = false :=
    fun column member => (Bool.not_eq_true' _).mp (complete column member)
  have same := claimed _ .keep _ draft ends (.inl rfl) drafted filled whole
  have offered : (Completion.offeredAtEnd "FROM a | KEEP host.*, "
      { columns? := some [⟨"host.name", "keyword"⟩, ⟨"x", "long"⟩] }).map (·.label) =
      ["host.name", "x"] := by decide +kernel
  rw [same, untaken] at offered
  exact absurd offered (by decide +kernel)

end Esql
