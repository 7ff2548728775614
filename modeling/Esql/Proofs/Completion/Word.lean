import Esql.Proofs.Completion.Clauses
import Esql.Proofs.Traced.Arguments
import Mathlib.Data.List.DropRight

/-!
# The word at the end of a list of columns

The name being typed is a run at the end of the tokens: names, reserved words and points that touch
each other. The grammar reads a column pattern from its first token on, and a pattern may hold stars
as well. In a list of patterns a comma stands before each of them but the first. So both find the
same tokens where a pattern without stars ends the text; a star ends what came before it.
-/

namespace Esql

open Grammar

/-! ## Runs at the end -/

/-- The end of tokens side by side is the end of the last one. -/
theorem Joined.stop_of_getLast? {start stop : Nat} {tokens : List Token} {last : Token}
    (joined : Joined start tokens stop) (ends : tokens.getLast? = some last) :
    last.span.stop = stop := by
  induction joined with
  | nil start => cases ends
  | @cons start stop token rest starts behind ih =>
      rw [List.getLast?_cons] at ends
      cases later : rest.getLast? with
      | none =>
          obtain rfl := List.getLast?_eq_none_iff.mp later
          rw [later] at ends
          cases ends
          cases behind
          rfl
      | some final =>
          rw [later] at ends
          cases ends
          exact ih later

theorem Joined.split {start stop : Nat} {front back : List Token}
    (joined : Joined start (front ++ back) stop) :
    ∃ middle, Joined start front middle ∧ Joined middle back stop := by
  induction front generalizing start with
  | nil => exact ⟨start, .nil start, joined⟩
  | cons token front ih =>
      cases joined with
      | cons starts behind =>
          obtain ⟨middle, first, second⟩ := ih behind
          exact ⟨middle, .cons starts first, second⟩

theorem Joined.isChain {start stop : Nat} {tokens : List Token}
    (joined : Joined start tokens stop) :
    tokens.IsChain fun left right => left.adjoins right = true := by
  induction joined with
  | nil start => exact .nil
  | @cons start stop token rest starts behind ih =>
      cases behind with
      | nil => exact .singleton token
      | cons adjoins later => exact .cons_cons (beq_iff_eq.mpr adjoins.symm) ih

namespace Completion

/-- A run of tokens at the end is found whole, if the token before it does not belong to it. -/
theorem splitRun_append {member : TokenKind → Bool} {front run : List Token}
    (chain : run.IsChain fun left right => left.adjoins right = true)
    (inside : ∀ token ∈ run, member token.kind = true)
    (outside : ∀ token ∈ front.getLast?, member token.kind = false) :
    splitRun member (front ++ run) = (front, run) := by
  have back : run.foldr (splitRun.step member) ([], []) = ([], run) := by
    induction chain with
    | nil => rfl
    | singleton token =>
        rw [List.foldr_cons, List.foldr_nil, splitRun.step, inside token (.head _)]
        rfl
    | @cons_cons token next rest adjoins chain ih =>
        rw [List.forall_mem_cons] at inside
        rw [List.foldr_cons, ih inside.2, splitRun.step, inside.1, List.head?_cons, Option.all_some,
          adjoins]
        rfl
  rw [splitRun, List.foldr_append, back]
  induction front with
  | nil => rfl
  | cons token rest ih =>
      cases rest with
      | nil =>
          have apart := outside token rfl
          rw [List.foldr_cons, List.foldr_nil, splitRun.step, apart]
          rfl
      | cons next rest =>
          rw [List.getLast?_cons_cons] at outside
          rw [List.foldr_cons, ih outside]
          rfl

end Completion

/-! ## Patterns in a list -/

namespace Grammar

theorem requiredColumn_run (stars : Bool) (s : Reading) :
    Ensures (requiredColumn stars) s fun x t =>
      ∃ run, Leads s run t ∧ ∀ column ∈ x, ColumnAt run column := by
  unfold requiredColumn
  refine (column?_run stars s).bind fun x u read => ?_
  obtain ⟨run, leads, -, here⟩ := read
  cases x with
  | some column => exact ⟨run, leads, here⟩
  | none => exact ⟨run ++ [], leads.trans (.record _ _), nofun⟩

/-- The operand is a column at the front, or nothing. -/
theorem columnOperand_run (stars : Bool) (s : Reading) :
    Ensures (columnOperand stars) s fun read t => ∃ run, Leads s run t ∧
      ∀ item ∈ read.items, ∀ column ∈ item.column?, ColumnAt run column := by
  unfold columnOperand
  refine (requiredColumn_run stars s).bind fun x u read => ?_
  obtain ⟨run, leads, here⟩ := read
  cases x with
  | some column =>
      refine ⟨run, leads, fun item member column same => ?_⟩
      rw [List.mem_singleton.mp member] at same
      exact here column same
  | none => exact ⟨run, leads, nofun⟩

/-- Each column that was read stands at the front or directly behind a comma. -/
def RunsIn (tokens : List Token) (read : Parts Expr) : Prop :=
  ∀ item ∈ read.items, ∀ column ∈ item.column?, ∃ front run rest,
    tokens = front ++ run ++ rest ∧ ColumnAt run column ∧
      ∀ last ∈ front.getLast?, last.kind = .comma

/-- What was read behind a comma was read of the tokens before it as well. -/
theorem RunsIn.behind {front tokens : List Token} {comma : Token} {read : Parts Expr}
    (runs : RunsIn tokens read) (mark : comma.kind = .comma) :
    RunsIn (front ++ comma :: tokens) read := by
  intro item member column same
  obtain ⟨before, run, rest, rfl, here, ends⟩ := runs item member column same
  refine ⟨front ++ comma :: before, run, rest, by simp, here, fun last final => ?_⟩
  rw [List.getLast?_append_cons, List.getLast?_cons] at final
  cases found : before.getLast? with
  | none =>
      rw [found] at final
      cases final
      exact mark
  | some token =>
      rw [found] at final
      cases final
      exact ends token found

theorem columnList_runs (s : Reading) :
    Ensures (columnList true) s fun read _ => RunsIn s.rest read := by
  unfold columnList separated
  rw [ensures_tokens]
  generalize s.rest.length + 1 = bound
  induction bound generalizing s with
  | zero => exact nofun
  | succ bound ih =>
      rw [separatedFrom]
      refine (columnOperand_run true s).bind fun read u first => ?_
      obtain ⟨run, leads, here⟩ := first
      have first : RunsIn s.rest read := fun item member column same =>
        ⟨[], run, u.rest, leads.rest, here item member column same, nofun⟩
      split
      · have later : Ensures (do
            if ← accept .comma then separatedFrom (columnOperand true) bound else pure .none) u
            fun others _ => RunsIn s.rest others := by
          refine ensures_accept (fun comma rest front mark => ?_) nofun
          refine (ih u.advance).mono fun others _ runs => ?_
          rw [Reading.advance_rest front] at runs
          rw [leads.rest, front]
          exact runs.behind mark
        refine later.bind fun others t runs => ?_
        exact List.forall_mem_append.mpr ⟨first, runs⟩
      · exact first

end Grammar

/-- The tokens behind the name of a command of a text. -/
def Command.written (command : Command) (text : String) : List Token :=
  (Token.scan text).dropWhile fun token => token.span.start < command.nameSpan.stop

/-- The tokens of a text that a node with this span was read from. -/
def Span.tokens (span : Span) (text : String) : List Token :=
  (Token.scan text).filter fun token => span.covers token.span

/-- The draft of a command of a text, with some columns that reach the command. -/
def Command.draft (command : Command) (text : String) (columns : ColumnSet) (snapshot : Snapshot) :
    Draft :=
  ⟨text, command, command.written text, columns, snapshot⟩

section

variable {text : String} {command : Command} {verb : Verb} {column : Column}

/-- What completion works on is the draft of a command. -/
theorem Completion.draft?_eq_some {snapshot : Snapshot} {draft : Draft}
    (drafted : draft? text (Token.scan text) (parse text).pipeline snapshot = some (draft, verb)) :
    draft.command ∈ (parse text).pipeline.visited ∧ Verb.ofName? draft.command.name = some verb ∧
      draft = draft.command.draft text
        ((parse text).pipeline.columnsBefore draft.command snapshot) snapshot := by
  obtain ⟨command, here, drafted⟩ := Option.bind_eq_some_iff.mp drafted
  obtain ⟨_, known, drafted⟩ := Option.bind_eq_some_iff.mp drafted
  cases drafted
  exact ⟨Pipeline.mem_visited_of_commandAt? _ _ here, known, rfl⟩

/-- The columns of a list stand behind the name of the command, each at the front or directly behind
a comma. -/
theorem exists_run_of_listed (visited : command ∈ (parse text).pipeline.visited)
    (known : Verb.ofName? command.name = some verb) (projects : verb = .keep ∨ verb = .drop)
    (listed : column ∈ command.columns) :
    ∃ front run rest, command.written text = front ++ run ++ rest ∧ ColumnAt run column ∧
      ∀ last ∈ front.getLast?, last.kind = .comma := by
  rw [Pipeline.visited_eq] at visited
  obtain ⟨bound, nested, name, s, follows, stop, made⟩ := made_visited visited known
  have rule : arguments (branches bound) nested verb = asArguments (columnList true) := by
    rcases projects with rfl | rfl <;> rfl
  have runs : Ensures (arguments (branches bound) nested verb) s fun read _ =>
      ∃ exprs, read.items = exprs.items.map .expr ∧ RunsIn s.rest exprs := by
    rw [rule]
    exact (columnList_runs s).bind fun exprs _ runs => ⟨exprs, rfl, runs⟩
  obtain ⟨made, exprs, items, runs⟩ := made.and runs
  have written := follows.dropWhile_eq
  rw [stop] at written
  rw [Command.written, written]
  obtain ⟨expr, inside, same⟩ := List.mem_filterMap.mp listed
  obtain ⟨argument, given, found⟩ := List.mem_filterMap.mp inside
  rw [made.args, items] at given
  obtain ⟨other, item, rfl⟩ := List.mem_map.mp given
  cases found
  exact runs expr item column same

/-- Behind a token that none reaches beyond there are no more tokens. -/
theorem Token.eq_nil_of_ends {front rest : List Token} {last : Token}
    (tokens : scan text = front ++ last :: rest)
    (ends : ∀ token ∈ scan text, token.span.stop ≤ last.span.stop) : rest = [] := by
  obtain ⟨row, sound⟩ := (ready_start text).placed
  change Span.Row 0 0 ((scan text).map span) _ at row
  change ∀ token ∈ scan text, token.Sound text at sound
  rw [tokens] at row sound ends
  refine List.eq_nil_iff_forall_not_mem.mpr fun token member => ?_
  have inside : token ∈ front ++ last :: rest := List.mem_append_right _ (.tail _ member)
  have wide := (sound token inside).nonempty
  have within := ends token inside
  rw [List.map_append, List.map_cons] at row
  have behind := (List.pairwise_append.mp row.pairwise).2.1
  have later := (List.pairwise_cons.mp behind).1 _ (List.mem_map_of_mem member)
  omega

/-- The tokens of a column that ends the text are the last ones of its command. -/
theorem exists_written_of_listed (visited : command ∈ (parse text).pipeline.visited)
    (known : Verb.ofName? command.name = some verb) (projects : verb = .keep ∨ verb = .drop)
    (listed : column ∈ command.columns) (ends : column.span.stop = Text.byteLength text) :
    ∃ front, command.written text = front ++ column.span.tokens text ∧
      ColumnAt (column.span.tokens text) column ∧ ∀ last ∈ front.getLast?, last.kind = .comma := by
  obtain ⟨front, run, rest, written, here, comma⟩ :=
    exists_run_of_listed visited known projects listed
  obtain ⟨first, others, rfl⟩ := List.exists_cons_of_ne_nil here.nonempty
  have starts : first.span.start = column.span.start := by
    cases here.joined with
    | cons starts => exact starts
  obtain ⟨last, final⟩ : ∃ last, (first :: others).getLast? = some last :=
    ⟨_, List.getLast?_eq_some_getLast here.nonempty⟩
  have stops : last.span.stop = column.span.stop := here.joined.stop_of_getLast? final
  obtain ⟨before, whole⟩ : command.written text <:+ Token.scan text := List.dropWhile_suffix _
  rw [written] at whole
  obtain rfl : rest = [] := by
    obtain ⟨inner, run⟩ := List.getLast?_eq_some_iff.mp final
    rw [run] at whole
    have divided : Token.scan text = (before ++ front ++ inner) ++ last :: rest := by
      rw [← whole]
      simp
    refine Token.eq_nil_of_ends divided fun token member => ?_
    rw [stops, ends]
    exact (Token.sound_of_mem_scan member).fits.stop_le
  rw [List.append_nil] at written whole
  have tokens : column.span.tokens text = first :: others := by
    rw [← List.append_assoc] at whole
    have covered := Token.filter_covers_run whole.symm rfl final
    rwa [starts, stops] at covered
  rw [tokens]
  exact ⟨front, written, here, comma⟩

end

/-! ## What is replaced -/

namespace Draft

theorem runSpan?_of_joined {start stop : Nat} {run : List Token} (joined : Joined start run stop)
    (some : run ≠ []) : runSpan? run = .some ⟨start, stop⟩ := by
  obtain ⟨first, others, rfl⟩ := List.exists_cons_of_ne_nil some
  obtain ⟨last, final⟩ : ∃ last, (first :: others).getLast? = .some last :=
    ⟨_, List.getLast?_eq_some_getLast some⟩
  have starts : first.span.start = start := by
    cases joined with
    | cons starts => exact starts
  rw [runSpan?, List.head?_cons, final, ← starts, ← joined.stop_of_getLast? final]
  rfl

theorem runSpan?_eq_none {run : List Token} : runSpan? run = none ↔ run = [] := by
  cases run with
  | nil => exact iff_of_true rfl rfl
  | cons token rest =>
      rw [runSpan?, List.head?_cons, List.getLast?_cons]
      exact iff_of_false nofun nofun

/-- The word is a run of its kind at the end of the text, if the token before it is of another
kind. -/
theorem word_range?_of_run {draft : Draft} {front run : List Token} {last : Token}
    (tokens : draft.tokens = front ++ run)
    (ends : draft.tokens.getLast? = some last) (stops : last.span.stop = draft.cursor)
    (chain : run.IsChain fun left right => left.adjoins right = true)
    (inside : ∀ token ∈ run, isWordPart token.kind = true)
    (outside : ∀ token ∈ front.getLast?, isWordPart token.kind = false) :
    draft.word.range? = runSpan? run := by
  have touches : (draft.tokens.getLast?.any fun token => token.endsAt draft.cursor) = true := by
    rw [ends]
    exact beq_iff_eq.mpr stops
  rw [word, Draft.run, if_pos touches, tokens, Completion.splitRun_append chain inside outside]
  rfl

end Draft

/-- What belongs to a column pattern belongs to a word, but for a star. -/
theorem isWordPart_of_continuesColumn {kind : TokenKind}
    (continues : continuesColumn true kind = true) (other : kind ≠ .star) :
    Draft.isWordPart kind = true := by
  rw [continuesColumn, Bool.true_and, beq_eq_false_iff_ne.mpr other, Bool.or_false] at continues
  rw [Draft.isWordPart, Bool.or_assoc, Bool.or_comm kind.keyword?.isSome, ← Bool.or_assoc,
    continues, Bool.true_or]

/-- The tokens behind the last star. -/
def behindStar (tokens : List Token) : List Token :=
  tokens.rtakeWhile fun token => token.kind != .star

theorem exists_stars (tokens : List Token) :
    ∃ stars, tokens = stars ++ behindStar tokens ∧
      (∀ token ∈ behindStar tokens, token.kind ≠ .star) ∧
      ∀ last ∈ stars.getLast?, last.kind = .star := by
  refine ⟨tokens.rdropWhile fun token => token.kind != .star,
    List.rdropWhile_append_rtakeWhile.symm, ?behind, ?before⟩
  case behind =>
    intro token member
    have plain := List.mem_rtakeWhile_imp member
    exact bne_iff_ne.mp plain
  case before =>
    intro last final
    have some := List.ne_nil_of_mem (List.mem_of_getLast? final)
    have star := List.rdropWhile_last_not _ _ some
    rw [List.getLast?_eq_some_getLast some] at final
    rw [Option.some.inj final] at star
    exact not_not.mp fun other => star (bne_iff_ne.mpr other)

theorem behindStar_eq_self_iff {tokens : List Token} :
    behindStar tokens = tokens ↔ ∀ token ∈ tokens, token.kind ≠ .star := by
  rw [behindStar, List.rtakeWhile_eq_self_iff]
  exact forall₂_congr fun token _ => bne_iff_ne

namespace Grammar.ColumnAt

variable {text : String} {run : List Token} {column : Column} (here : ColumnAt run column)

include here

theorem isWordPart : ∀ token ∈ behindStar run, Draft.isWordPart token.kind = true := by
  obtain ⟨stars, whole, plain, -⟩ := exists_stars run
  intro token member
  refine isWordPart_of_continuesColumn (here.continues token ?_) (plain token member)
  rw [whole]
  exact List.mem_append_right _ member

/-- What is behind the last star takes up the whole column only if there is no star. -/
theorem runSpan?_eq_iff (sound : ∀ token ∈ run, token.Sound text) :
    Draft.runSpan? (behindStar run) = some column.span ↔ ∀ token ∈ run, token.kind ≠ .star := by
  rw [← behindStar_eq_self_iff]
  refine ⟨fun same => ?_, fun whole => ?_⟩
  case refine_2 =>
    rw [whole]
    exact Draft.runSpan?_of_joined here.joined here.nonempty
  obtain ⟨stars, whole, -, -⟩ := exists_stars run
  have joined := here.joined
  rw [whole] at joined sound
  obtain ⟨middle, first, second⟩ := joined.split
  cases stars with
  | nil => exact whole.symm
  | cons star others =>
      exfalso
      have some : behindStar run ≠ [] := fun none => by
        rw [none] at same
        cases same
      rw [Draft.runSpan?_of_joined second some] at same
      have start : middle = column.span.start := congrArg Span.start (Option.some.inj same)
      have wide := (sound star (.head _)).nonempty
      cases first with
      | cons starts behind =>
          have inside := sound star (.head _)
          have later := (behind.ends inside.fits.stops fun token member =>
            sound token (.tail _ (List.mem_append_left _ member))).1
          omega

theorem runSpan?_eq_none_iff :
    Draft.runSpan? (behindStar run) = none ↔ run.getLast?.any (·.kind == .star) = true := by
  rw [Draft.runSpan?_eq_none, behindStar, List.rtakeWhile_eq_nil_iff,
    List.getLast?_eq_some_getLast here.nonempty, Option.any_some, beq_iff_eq]
  exact ⟨fun last => not_not.mp fun other => last here.nonempty (bne_iff_ne.mpr other),
    fun star _ plain => bne_iff_ne.mp plain star⟩

end Grammar.ColumnAt

/-- Where a pattern in the list of a KEEP or a DROP ends the text, the word is what stands behind
the last star of the pattern. So it is the whole pattern if and only if there is no star in it, and
there is no word if and only if the pattern ends with a star. -/
theorem word_of_listed {text : String} {command : Command} {verb : Verb} {column : Column}
    (visited : command ∈ (parse text).pipeline.visited)
    (known : Verb.ofName? command.name = some verb) (projects : verb = .keep ∨ verb = .drop)
    (listed : column ∈ command.columns) (ends : column.span.stop = Text.byteLength text)
    (columns : ColumnSet) (snapshot : Snapshot) :
    (command.draft text columns snapshot).word.range? =
        Draft.runSpan? (behindStar (column.span.tokens text)) ∧
      ((command.draft text columns snapshot).word.range? = some column.span ↔
        ∀ token ∈ column.span.tokens text, token.kind ≠ .star) ∧
      ((command.draft text columns snapshot).word.range? = none ↔
        (column.span.tokens text).getLast?.any (·.kind == .star) = true) := by
  obtain ⟨front, written, here, comma⟩ :=
    exists_written_of_listed visited known projects listed ends
  obtain ⟨stars, parts, -, star⟩ := exists_stars (column.span.tokens text)
  obtain ⟨last, final⟩ : ∃ last, (column.span.tokens text).getLast? = some last :=
    ⟨_, List.getLast?_eq_some_getLast here.nonempty⟩
  have range : (command.draft text columns snapshot).word.range? =
      Draft.runSpan? (behindStar (column.span.tokens text)) := by
    have chain := here.joined.isChain
    have divided : command.written text =
        (front ++ stars) ++ behindStar (column.span.tokens text) := by
      rw [List.append_assoc, ← parts]
      exact written
    have lastly : (command.written text).getLast? = some last := by
      rw [written, List.getLast?_append, final]
      rfl
    rw [parts] at chain
    refine Draft.word_range?_of_run divided lastly
      ((here.joined.stop_of_getLast? final).trans ends) chain.right_of_append here.isWordPart ?_
    intro token found
    rw [List.getLast?_append] at found
    rcases Option.or_eq_some_iff.mp found with behind | ⟨-, before⟩
    · rw [star token behind]
      rfl
    · rw [comma token before]
      rfl
  have sound : ∀ token ∈ column.span.tokens text, token.Sound text :=
    fun token member => Token.sound_of_mem_scan (List.mem_filter.mp member).1
  rw [range]
  exact ⟨rfl, here.runSpan?_eq_iff sound, here.runSpan?_eq_none_iff⟩

/-- A command of a text that lists a column, by what can be told of both. -/
theorem exists_listed (text : String) (verb : Verb) (span : Span) (range? : Option Span)
    (checked : (parse text).pipeline.visited.any (fun command =>
      Verb.ofName? command.name == some verb &&
        (command.draft text .unknown {}).word.range? == range? &&
        command.columns.any fun column => column.span == span && !column.incomplete) = true) :
    ∃ command ∈ (parse text).pipeline.visited, Verb.ofName? command.name = some verb ∧
      (command.draft text .unknown {}).word.range? = range? ∧
      ∃ column ∈ command.columns, column.span = span ∧ column.incomplete = false := by
  obtain ⟨command, visited, found⟩ := List.any_eq_true.mp checked
  rw [Bool.and_eq_true, Bool.and_eq_true, beq_iff_eq, beq_iff_eq] at found
  obtain ⟨⟨known, range⟩, listed⟩ := found
  obtain ⟨column, member, facts⟩ := List.any_eq_true.mp listed
  rw [Bool.and_eq_true, beq_iff_eq, Bool.not_eq_true'] at facts
  exact ⟨command, visited, known, range, column, member, facts⟩

/-- A name of two parts, the second one in backticks. -/
theorem word_of_listed_quoted :
    ∃ command ∈ (parse "FROM a | KEEP b, x.\x60y z\x60").pipeline.visited,
      ∃ column ∈ command.columns, column.span = ⟨17, 24⟩ ∧
      (command.draft "FROM a | KEEP b, x.\x60y z\x60" .unknown {}).word.range? = some ⟨17, 24⟩ := by
  obtain ⟨command, visited, known, -, column, listed, span, -⟩ :=
    exists_listed "FROM a | KEEP b, x.\x60y z\x60" .keep ⟨17, 24⟩ (some ⟨17, 24⟩)
      (by decide +kernel)
  have ends : column.span.stop = Text.byteLength "FROM a | KEEP b, x.\x60y z\x60" := by
    rw [span]
    decide +kernel
  have plain : ∀ token ∈ column.span.tokens "FROM a | KEEP b, x.\x60y z\x60",
      token.kind ≠ .star := by
    rw [span]
    decide +kernel
  have word := word_of_listed visited known (.inl rfl) listed ends .unknown {}
  exact ⟨command, visited, column, listed, span, span ▸ word.2.1.mpr plain⟩

/-- A star is part of a pattern, but not of a word. -/
theorem not_word_of_listed :
    ¬ ∀ (text : String) (command : Command) (verb : Verb) (column : Column),
      command ∈ (parse text).pipeline.visited → Verb.ofName? command.name = some verb →
      verb = .keep ∨ verb = .drop → column ∈ command.columns → column.incomplete = false →
      column.span.stop = Text.byteLength text → ∀ (columns : ColumnSet) (snapshot : Snapshot),
        (command.draft text columns snapshot).word.range? = some column.span := by
  intro claimed
  obtain ⟨command, visited, known, range, column, listed, span, whole⟩ :=
    exists_listed "FROM a | KEEP host.*" .keep ⟨14, 20⟩ none (by decide +kernel)
  have ends : column.span.stop = Text.byteLength "FROM a | KEEP host.*" := by
    rw [span]
    decide +kernel
  have same := claimed _ command .keep column visited known (.inl rfl) listed whole ends .unknown {}
  rw [range] at same
  cases same

end Esql
