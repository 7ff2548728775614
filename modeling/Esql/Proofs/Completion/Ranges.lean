import Esql.Completion.Query
import Esql.Proofs.Token.Scanned
import Mathlib.Data.List.Chain

/-!
# What a suggestion replaces

The suggestions at a cursor replace what is being typed there or are inserted at the cursor. What is
being typed is a run of tokens that touch each other and the cursor: the name of a command, the word
or the source at the end of a draft. Every command looks for one run only, so all suggestions of an
answer that replace anything replace the same.
-/

namespace Esql

/-! ## Runs of tokens -/

/-- A span of the text before an offset that runs from a token to the offset without a gap. -/
structure Typing (text : String) (offset : Nat) (range : Span) : Prop where
  /-- The span ends at the offset, moved into the text. -/
  stops : range.stop = Text.clampOffset text offset
  /-- A token starts where the span starts, and one stops where it stops. -/
  starts : ∃ token ∈ Token.scan (Text.before text offset), token.span.start = range.start
  ends : ∃ token ∈ Token.scan (Text.before text offset), token.span.stop = range.stop
  /-- Each token of the span adjoins the next one. -/
  adjacent : ((Token.scan (Text.before text offset)).filter fun token =>
    range.covers token.span).IsChain fun left right => left.adjoins right = true

theorem Text.byteLength_before (text : String) (offset : Nat) :
    byteLength (before text offset) = clampOffset text offset := by
  rw [byteLength, before, String.toList_ofList, clampOffset]

/-- The tokens at the end of a text, from one to the last one, are those between their ends. -/
theorem Token.filter_covers_run {text : String} {before run : List Token}
    (tokens : scan text = before ++ run) {first last : Token} (leads : run.head? = some first)
    (ends : run.getLast? = some last) :
    (scan text).filter (fun token => (Span.mk first.span.start last.span.stop).covers token.span) =
      run := by
  have placed := scanFrom_placed text.toList false
  rw [String.ofList_toList] at placed
  change Placed _ _ 0 (scan text) _ at placed
  rw [tokens] at placed ⊢
  obtain ⟨row, sound⟩ := placed
  rw [List.map_append] at row
  obtain ⟨middle, earlier, later⟩ := row.split
  rw [List.filter_append, List.filter_eq_nil_iff.mpr, List.filter_eq_self.mpr, List.nil_append]
  · intro token member
    have inside := List.mem_map_of_mem (f := span) member
    have lower : (run.map span).head? = some first.span := by
      rw [List.head?_map, leads]
      rfl
    have upper : (run.map span).getLast? = some last.span := by
      rw [List.getLast?_map, ends]
      rfl
    have left : first.span.start ≤ token.span.start := later.head_start_le lower inside
    have right : token.span.stop ≤ last.span.stop := later.stop_le_getLast upper inside
    exact (Span.covers_iff _ _).mpr ⟨left, right⟩
  · intro token member
    have wide := (sound token (List.mem_append_left _ member)).nonempty
    have left := (earlier.bounds (List.mem_map_of_mem member)).2.2
    have right := (later.bounds (List.mem_map_of_mem (List.mem_of_head? leads))).1
    have outside : (Span.mk first.span.start last.span.stop).covers token.span = false :=
      Span.not_covers_of_le_start wide (Nat.le_trans left right)
    rw [outside]
    exact Bool.false_ne_true

/-- The tokens at the end of a text, if they touch each other and the end, are being typed. -/
theorem typing_of_run {text : String} {offset : Nat} {before run : List Token}
    (tokens : Token.scan (Text.before text offset) = before ++ run)
    (chain : run.IsChain fun left right => left.adjoins right = true)
    (touches : ∀ token ∈ run.getLast?, token.endsAt (Text.clampOffset text offset) = true)
    {range : Span} (found : Draft.runSpan? run = some range) : Typing text offset range := by
  obtain ⟨first, leads, last, ends, rfl⟩ : ∃ first, run.head? = some first ∧
      ∃ last, run.getLast? = some last ∧ range = ⟨first.span.start, last.span.stop⟩ := by
    obtain ⟨first, leads, rest⟩ := Option.bind_eq_some_iff.mp found
    obtain ⟨last, ends, same⟩ := Option.bind_eq_some_iff.mp rest
    exact ⟨first, leads, last, ends, (Option.some.inj same).symm⟩
  have inFront : first ∈ run := List.mem_of_head? leads
  have inBack : last ∈ run := List.mem_of_getLast? ends
  constructor
  case stops => exact beq_iff_eq.mp (touches last ends)
  case starts =>
    rw [tokens]
    exact ⟨first, List.mem_append_right _ inFront, rfl⟩
  case ends =>
    rw [tokens]
    exact ⟨last, List.mem_append_right _ inBack, rfl⟩
  case adjacent =>
    rw [Token.filter_covers_run tokens leads ends]
    exact chain

namespace Completion

/-- A run takes tokens from the end that adjoin each other, and no others are lost. -/
theorem splitRun_spec (member : TokenKind → Bool) (tokens : List Token) :
    (splitRun member tokens).1 ++ (splitRun member tokens).2 = tokens ∧
      (splitRun member tokens).2.IsChain fun left right => left.adjoins right = true := by
  unfold splitRun
  induction tokens with
  | nil => exact ⟨rfl, .nil⟩
  | cons token tokens ih =>
      rw [List.foldr_cons]
      revert ih
      rcases List.foldr (splitRun.step member) ([], []) tokens with ⟨before, run⟩
      rintro ⟨whole, chain⟩
      cases before with
      | cons first before => exact ⟨congrArg (token :: ·) whole, chain⟩
      | nil =>
          rw [splitRun.step]
          split
          · rename_i joins
            rw [Bool.and_eq_true] at joins
            refine ⟨congrArg (token :: ·) whole, ?_⟩
            cases run with
            | nil => exact .singleton token
            | cons next run => exact .cons_cons joins.2 chain
          · exact ⟨congrArg (token :: ·) whole, chain⟩

end Completion

/-- A draft of what stands before an offset of a text. -/
structure Draft.At (draft : Draft) (text : String) (offset : Nat) : Prop where
  text_eq : draft.text = Text.before text offset
  tokens : ∃ front, Token.scan (Text.before text offset) = front ++ draft.tokens

namespace Draft

variable {draft : Draft} {text : String} {offset : Nat} {range : Span}

theorem At.cursor_eq (here : draft.At text offset) :
    draft.cursor = Text.clampOffset text offset := by
  rw [cursor, here.text_eq, Text.byteLength_before]

/-- What is typed of one kind is a run at the end of the draft. -/
theorem At.typing_run (here : draft.At text offset) (member : TokenKind → Bool)
    (found : (draft.run member).range? = some range) : Typing text offset range := by
  obtain ⟨front, tokens⟩ := here.tokens
  obtain ⟨whole, chain⟩ := Completion.splitRun_spec member draft.tokens
  unfold run at found
  split at found
  · rename_i touches
    have division : Token.scan (Text.before text offset) =
        (front ++ (Completion.splitRun member draft.tokens).1) ++
          (Completion.splitRun member draft.tokens).2 := by
      rw [tokens, List.append_assoc, whole]
    refine typing_of_run division chain ?_ found
    intro last ends
    rw [here.cursor_eq, ← whole, List.getLast?_append, ends] at touches
    exact touches
  · cases found

theorem At.typing_source (here : draft.At text offset)
    (found : draft.source.range? = some range) : Typing text offset range := by
  unfold source at found
  split at found
  · rename_i last ends
    split at found
    · rename_i typed
      obtain ⟨front, tokens⟩ := here.tokens
      obtain ⟨others, same⟩ := List.getLast?_eq_some_iff.mp ends
      have division : Token.scan (Text.before text offset) = (front ++ others) ++ [last] := by
        rw [tokens, same, List.append_assoc]
      refine typing_of_run division (.singleton last) ?_ found
      rintro _ ⟨⟩
      rw [Bool.and_eq_true, here.cursor_eq] at typed
      exact typed.1
    · exact here.typing_run _ found
  · exact here.typing_run _ found

end Draft

/-! ## Suggestions with one span -/

/-- Suggestions each of which replaces this span, or nothing. -/
def Replacing (range? : Option Span) (suggestions : List Suggestion) : Prop :=
  ∀ suggestion ∈ suggestions, suggestion.range? = none ∨ suggestion.range? = range?

section

variable {α : Type} {range? : Option Span} {suggestion : Suggestion}
  {suggestions others : List Suggestion}

@[simp]
theorem replacing_nil : Replacing range? [] := List.forall_mem_nil _

@[simp]
theorem replacing_cons : Replacing range? (suggestion :: suggestions) ↔
    (suggestion.range? = none ∨ suggestion.range? = range?) ∧ Replacing range? suggestions :=
  List.forall_mem_cons

@[simp]
theorem replacing_append : Replacing range? (suggestions ++ others) ↔
    Replacing range? suggestions ∧ Replacing range? others :=
  List.forall_mem_append

/-- Suggestions made in the same way from some items replace the span if each of them does. -/
theorem replacing_map {items : List α} {make : α → Suggestion}
    (each : ∀ item, (make item).range? = none ∨ (make item).range? = range?) :
    Replacing range? (items.map make) :=
  List.forall_mem_map.mpr fun item _ => each item

theorem Replacing.map {change : Suggestion → Suggestion} (replacing : Replacing range? suggestions)
    (kept : ∀ suggestion, (change suggestion).range? = suggestion.range?) :
    Replacing range? (suggestions.map change) := by
  refine List.forall_mem_map.mpr fun suggestion member => ?_
  rw [kept]
  exact replacing suggestion member

theorem Replacing.filter (member : Suggestion → Bool) (replacing : Replacing range? suggestions) :
    Replacing range? (suggestions.filter member) :=
  fun suggestion among => replacing suggestion (List.mem_filter.mp among).1

end

namespace Suggestion

@[simp]
theorem range?_replacing (range? : Option Span) (suggestion : Suggestion) :
    (suggestion.replacing range?).range? = range? := rfl

@[simp]
theorem range?_reopening (suggestion : Suggestion) :
    suggestion.reopening.range? = suggestion.range? := rfl

@[simp]
theorem range?_keyword (word detail : String) : (keyword word detail).range? = none := rfl

@[simp]
theorem range?_value (text detail : String) : (value text detail).range? = none := rfl

@[simp]
theorem range?_column (field : Field) : (column field).range? = none := rfl

@[simp]
theorem range?_separator (mark name : String) : (separator mark name).range? = none := rfl

@[simp]
theorem range?_pipe : pipe.range? = none := rfl

@[simp]
theorem range?_comma : comma.range? = none := rfl

@[simp]
theorem range?_assign : assign.range? = none := rfl

end Suggestion

namespace Draft

open Completion

variable (draft : Draft)

theorem replacing_expression (place : Place) (before : List Token) (follow : List Suggestion) :
    Replacing draft.word.range? (draft.expression place before follow) :=
  replacing_map fun _ => .inr rfl

/-- Further columns change nothing about the word being typed. -/
theorem replacing_expression_extended (columns : ColumnSet) (place : Place) (before : List Token)
    (follow : List Suggestion) : Replacing draft.word.range?
      (expression { draft with columns := columns } place before follow) :=
  replacing_map fun _ => .inr rfl

theorem replacing_suggestColumns (wanted : ParamType) (listed : List String) :
    Replacing draft.word.range? (draft.suggestColumns wanted listed) :=
  replacing_map fun _ => .inr rfl

/-! ### Commands of columns -/

theorem replacing_suggestPatterns : Replacing draft.word.range? draft.suggestPatterns := by
  unfold suggestPatterns
  dsimp only
  split
  · split <;> simp
  · exact draft.replacing_suggestColumns _ _

theorem replacing_suggestRename : Replacing draft.word.range? draft.suggestRename := by
  have columns := draft.replacing_suggestColumns .any []
  unfold suggestRename
  dsimp only
  split
  · split
    · exact columns.map fun _ => rfl
    · simp
  · split
    · exact columns.map fun _ => rfl
    · simp
  · split
    · exact columns
    · simp
  · split <;> simp
  · simp

theorem replacing_suggestSingle : Replacing draft.word.range? draft.suggestSingle := by
  unfold suggestSingle
  split
  · exact draft.replacing_suggestColumns _ _
  · split <;> simp

theorem replacing_suggestNames (range? : Option Span) (tokens : List Token) :
    Replacing range? (suggestNames tokens) := by
  unfold suggestNames
  split
  · simp
  · split <;> simp
  · split <;> simp
  · simp

theorem replacing_suggestChangePoint : Replacing draft.word.range? draft.suggestChangePoint := by
  unfold suggestChangePoint
  dsimp only
  split
  · split
    · exact draft.replacing_suggestColumns _ _
    · simp
  · split
    · exact draft.replacing_suggestColumns _ _
    · simp
  · exact replacing_suggestNames _ _

/-! ### Commands of fields -/

theorem replacing_withNaming {suggestions : List Suggestion}
    (replacing : Replacing draft.word.range? suggestions) :
    Replacing draft.word.range? (draft.withNaming suggestions) := by
  unfold withNaming
  dsimp only
  split
  · simp [replacing]
  · exact replacing

theorem replacing_aggregateStarts {suggestions : List Suggestion}
    (replacing : Replacing draft.word.range? suggestions) :
    Replacing draft.word.range? (draft.aggregateStarts suggestions) := by
  unfold aggregateStarts
  dsimp only
  split
  · rw [replacing_append]
    refine ⟨replacing.filter _, ?_⟩
    split <;> simp
  · exact replacing

theorem replacing_suggestAggregate : Replacing draft.word.range? draft.suggestAggregate :=
  draft.replacing_withNaming (draft.replacing_aggregateStarts (draft.replacing_expression _ _ _))

theorem replacing_suggestStats : Replacing draft.word.range? draft.suggestStats := by
  unfold suggestStats
  dsimp only
  split
  · exact draft.replacing_withNaming (draft.replacing_expression _ _ _)
  · split
    · exact draft.replacing_suggestAggregate
    · exact draft.replacing_expression _ _ _
  · exact draft.replacing_suggestAggregate

theorem replacing_sortFollowers? {range? : Option Span} {tokens : List Token}
    {suggestions : List Suggestion} (found : sortFollowers? range? tokens = some suggestions) :
    Replacing range? suggestions := by
  unfold sortFollowers? at found
  split at found
  · cases found
  · split at found
    · cases found
      exact replacing_map fun _ => .inr rfl
    split at found
    · cases found
      simp
    split at found
    · cases found
      simp [nullOrders]
    · cases found

theorem replacing_suggestSort : Replacing draft.word.range? draft.suggestSort := by
  unfold suggestSort
  dsimp only
  cases found : sortFollowers? draft.word.range? draft.word.before.reverse with
  | some suggestions => exact replacing_sortFollowers? found
  | none =>
      refine (draft.replacing_expression _ _ _).map fun suggestion => ?_
      split <;> rfl

theorem replacing_suggestNumber (numbers : List String) (detail : String) :
    Replacing draft.word.range? (draft.suggestNumber numbers detail) := by
  unfold suggestNumber
  split
  · exact replacing_map fun _ => .inl rfl
  · split <;> simp

theorem replacing_suggestText : Replacing draft.word.range? draft.suggestText :=
  replacing_map fun _ => .inr rfl

theorem replacing_suggestDissect : Replacing draft.word.range? draft.suggestDissect := by
  unfold suggestDissect
  dsimp only
  split
  · exact draft.replacing_suggestText
  · simp
  · split <;> simp
  · exact replacing_map fun _ => .inl rfl
  · simp

theorem replacing_suggestGrok : Replacing draft.word.range? draft.suggestGrok := by
  unfold suggestGrok
  split
  · exact draft.replacing_suggestText
  · simp
  · simp
  · simp
  · simp

theorem replacing_suggestFork : Replacing draft.word.range? draft.suggestFork := by
  have opening : openBranch.range? = none := rfl
  unfold suggestFork
  split
  · simp [opening]
  · split
    · simp
    · split <;> simp [opening]

/-! ### Commands of sources -/

theorem replacing_suggestMetadata : Replacing draft.word.range? draft.suggestMetadata := by
  unfold suggestMetadata
  dsimp only
  split
  · simp
  · split
    · exact replacing_map fun _ => .inr rfl
    · split <;> simp

theorem replacing_suggestSource (typed : Typed) :
    Replacing typed.range? (draft.suggestSource typed) := by
  unfold suggestSource
  dsimp only
  rw [replacing_append]
  constructor
  · exact replacing_map fun _ => .inr rfl
  · split
    · exact replacing_map fun _ => .inr rfl
    · simp

theorem replacing_suggestShow : Replacing draft.word.range? draft.suggestShow := by
  unfold suggestShow
  dsimp only
  split <;> simp

theorem replacing_suggestJoinIndex : Replacing draft.source.range? draft.suggestJoinIndex := by
  unfold suggestJoinIndex
  dsimp only
  split
  · exact replacing_map fun _ => .inr rfl
  · simp

theorem replacing_suggestPolicyColumns :
    Replacing draft.word.range? draft.suggestPolicyColumns := by
  unfold suggestPolicyColumns
  split
  · simp
  · exact replacing_map fun _ => .inr rfl

theorem replacing_suggestPolicy : Replacing draft.source.range? draft.suggestPolicy := by
  unfold suggestPolicy
  dsimp only
  split
  · exact replacing_map fun _ => .inr rfl
  · simp

theorem replacing_suggestRequest (before : List Token) :
    Replacing draft.word.range? (draft.suggestRequest before) := by
  have columns := draft.replacing_suggestPolicyColumns
  unfold suggestRequest
  dsimp only
  split
  · split
    · exact columns
    · simp
  · split
    · exact columns
    · simp
  · split
    · exact columns
    · simp
  · simp

/-! ### Every command -/

/-- Suggestions that replace the word being typed, or the source being typed, but never both. -/
def ReplacingTyped (suggestions : List Suggestion) : Prop :=
  Replacing draft.word.range? suggestions ∨ Replacing draft.source.range? suggestions

theorem replacingTyped_suggestSources : draft.ReplacingTyped draft.suggestSources := by
  unfold suggestSources
  dsimp only
  split
  · exact .inl draft.replacing_suggestMetadata
  · right
    split
    · simp
    · exact draft.replacing_suggestSource _

theorem replacingTyped_suggestJoin : draft.ReplacingTyped draft.suggestJoin := by
  unfold suggestJoin
  dsimp only
  split
  · exact .inr draft.replacing_suggestJoinIndex
  · left
    split
    · exact List.forall_mem_map.mpr fun _ _ => .inr rfl
    · split
      · exact draft.replacing_expression_extended _ _ _ _
      · exact draft.replacing_expression _ _ _

theorem replacingTyped_suggestEnrich : draft.ReplacingTyped draft.suggestEnrich := by
  unfold suggestEnrich
  dsimp only
  split
  · exact .inr draft.replacing_suggestPolicy
  · left
    split
    · exact replacing_map fun _ => .inr rfl
    · simp
  · exact .inl (draft.replacing_suggestRequest _)

theorem replacingTyped_suggestions (verb : Verb) :
    draft.ReplacingTyped (draft.suggestions verb) := by
  cases verb with
  | «from» | ts => exact draft.replacingTyped_suggestSources
  | row | «where» => exact .inl (draft.replacing_expression _ _ _)
  | «show» => exact .inl draft.replacing_suggestShow
  | eval => exact .inl (draft.replacing_withNaming (draft.replacing_expression _ _ _))
  | stats | inlinestats => exact .inl draft.replacing_suggestStats
  | keep | drop => exact .inl draft.replacing_suggestPatterns
  | rename => exact .inl draft.replacing_suggestRename
  | mvExpand => exact .inl draft.replacing_suggestSingle
  | sort => exact .inl draft.replacing_suggestSort
  | limit | sample => exact .inl (draft.replacing_suggestNumber _ _)
  | dissect => exact .inl draft.replacing_suggestDissect
  | grok => exact .inl draft.replacing_suggestGrok
  | enrich => exact draft.replacingTyped_suggestEnrich
  | join => exact draft.replacingTyped_suggestJoin
  | fork => exact .inl draft.replacing_suggestFork
  | changePoint => exact .inl draft.replacing_suggestChangePoint

end Draft

/-! ## Answers -/

/-- All suggestions that replace anything replace the same, which is being typed. -/
structure Uniform (text : String) (offset : Nat) (answer : List Suggestion) : Prop where
  typing : ∀ suggestion ∈ answer, ∀ range, suggestion.range? = some range →
    Typing text offset range
  same : ∀ first ∈ answer, ∀ second ∈ answer, ∀ range range', first.range? = some range →
    second.range? = some range' → range = range'

theorem Replacing.uniform {text : String} {offset : Nat} {range? : Option Span}
    {suggestions : List Suggestion} (replacing : Replacing range? suggestions)
    (typing : ∀ range, range? = some range → Typing text offset range) :
    Uniform text offset suggestions := by
  have only (suggestion : Suggestion) (member : suggestion ∈ suggestions) (range : Span)
      (found : suggestion.range? = some range) : range? = some range := by
    rcases replacing suggestion member with none | some
    · rw [none] at found
      cases found
    · rw [← some, found]
  constructor
  case typing =>
    intro suggestion member range found
    exact typing range (only suggestion member range found)
  case same =>
    intro first inFirst second inSecond range range' found found'
    have left := only first inFirst range found
    have right := only second inSecond range' found'
    exact Option.some.inj (left.symm.trans right)

theorem Uniform.mono {text : String} {offset : Nat} {answer part : List Suggestion}
    (uniform : Uniform text offset answer) (within : ∀ suggestion ∈ part, suggestion ∈ answer) :
    Uniform text offset part :=
  ⟨fun suggestion member => uniform.typing suggestion (within suggestion member),
    fun first inFirst second inSecond =>
      uniform.same first (within first inFirst) second (within second inSecond)⟩

namespace Completion

/-- Listing suggestions once makes up no others. -/
theorem mem_of_mem_listOnce {suggestions listed : List Suggestion} {suggestion : Suggestion}
    (member : suggestion ∈ suggestions.foldl listOnce listed) :
    suggestion ∈ listed ∨ suggestion ∈ suggestions := by
  induction suggestions generalizing listed with
  | nil => exact .inl member
  | cons first others ih =>
      rcases ih member with inside | later
      · unfold listOnce at inside
        split at inside
        · exact .inl inside
        · rcases List.mem_append.mp inside with before | last
          · exact .inl before
          · exact .inr (List.mem_cons.mpr (.inl (List.mem_singleton.mp last)))
      · exact .inr (List.mem_cons_of_mem _ later)

theorem at_of_draft? {text : String} {offset : Nat} {query : Pipeline} {snapshot : Snapshot}
    {draft : Draft} {verb : Verb}
    (found : draft? (Text.before text offset) (Token.scan (Text.before text offset)) query
      snapshot = some (draft, verb)) : draft.At text offset := by
  obtain ⟨command, _, found⟩ := Option.bind_eq_some_iff.mp found
  obtain ⟨_, _, found⟩ := Option.bind_eq_some_iff.mp found
  cases found
  exact ⟨rfl, _, List.takeWhile_append_dropWhile.symm⟩

/-- What may stand at the end of a text replaces nothing but what is being typed there. -/
theorem uniform_atEnd (text : String) (offset : Nat) (query : Pipeline) (snapshot : Snapshot) :
    Uniform text offset (atEnd (Text.before text offset) query snapshot) := by
  unfold atEnd
  dsimp only
  generalize typed : (Token.scan (Text.before text offset)).getLast?.filter (fun token =>
    token.endsAt (Text.byteLength (Text.before text offset)) &&
      (token.kind.isName || token.kind.keyword?.isSome)) = typing?
  have typing (range : Span) (found : typing?.map (·.span) = some range) :
      Typing text offset range := by
    obtain ⟨last, rfl, rfl⟩ := Option.map_eq_some_iff.mp found
    obtain ⟨ends, touches⟩ := Option.filter_eq_some_iff.mp typed
    obtain ⟨others, division⟩ := List.getLast?_eq_some_iff.mp ends
    refine typing_of_run division (.singleton last) ?_ rfl
    rintro _ ⟨⟩
    rw [Bool.and_eq_true, Text.byteLength_before] at touches
    exact touches.1
  generalize (if typing?.isSome then _ else _ : List Token) = before
  split
  · refine Replacing.uniform ?_ typing
    exact replacing_map fun _ => .inr rfl
  · split
    · refine Replacing.uniform ?_ typing
      simp
    · split
      · rename_i draft verb found
        have here := at_of_draft? found
        rcases draft.replacingTyped_suggestions verb with word | source
        · exact word.uniform fun range => here.typing_run _
        · exact source.uniform fun range => here.typing_source
      · exact replacing_nil.uniform typing

end Completion

/-- Whatever a collaborator answers, all suggestions at an offset that replace anything replace the
same span, and this span runs from a token to the offset without a gap. -/
theorem suggest_uniform {m : Type → Type} [Monad m] (collaborator : Collaborator m) (text : String)
    (offset : Nat) :
    ∃ answer : Snapshot → List Suggestion, (∀ snapshot, Uniform text offset (answer snapshot)) ∧
      suggest collaborator text offset = do
        let query := (parse (Text.before text offset)).pipeline
        return answer (← Snapshot.collect collaborator (Text.before text offset) query) := by
  refine ⟨fun snapshot => (Completion.atEnd _ _ snapshot).foldl Completion.listOnce [], ?_, rfl⟩
  intro snapshot
  apply (Completion.uniform_atEnd text offset _ snapshot).mono
  intro suggestion member
  rcases Completion.mem_of_mem_listOnce member with none | inside
  · cases none
  · exact inside

end Esql
