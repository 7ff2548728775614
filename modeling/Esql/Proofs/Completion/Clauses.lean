import Esql.Proofs.Completion.Ranges
import Esql.Proofs.Grammar.Clauses
import Esql.Proofs.Grammar.OpenBranch

/-!
# The clause that is being written

The grammar reads the clauses of a command from its tokens. Completion has no tree of what is being
written and looks among the tokens for the words that open clauses. In a command at the end of a
text it finds the clauses that the grammar reads. But it does not know which tokens make up the
name of a source: where no clause has been opened, a reserved word that is part of such a name, as
in `add-on`, is taken for the word of a clause. A word that is still being typed opens a clause to
the grammar, and not yet to completion.
-/

namespace Esql

open Grammar

namespace Completion

/-! ## The last of some words -/

section

variable {words : List Keyword} {front back : List Token}

theorem lastClauseFrom_eq_none (other : ∀ token ∈ back, token.isOneOf words = false) (depth : Int)
    (position : Nat) : lastClauseFrom words depth position back = none := by
  induction back generalizing depth position with
  | nil => rfl
  | cons token rest ih =>
      obtain ⟨here, later⟩ := List.forall_mem_cons.mp other
      rw [lastClauseFrom, ih later, Option.map_eq_none_iff, Option.filter_eq_none_iff]
      intro word found among
      rw [Token.isOneOf, found] at here
      exact Bool.false_ne_true (here.symm.trans (Bool.and_eq_true_iff.mp among).2)

theorem lastClauseFrom_cons {token : Token} (flat : closing token.kind = 0) (position : Nat)
    (rest : List Token) :
    (lastClauseFrom words 0 position (token :: rest)).map Prod.fst =
      ((lastClauseFrom words 0 (position + 1) rest).map Prod.fst).or
        (token.kind.keyword?.filter words.contains) := by
  have level : depthChange token = 0 := by
    unfold depthChange
    unfold closing at flat
    split at flat <;> simp_all
  rw [lastClauseFrom, level, Int.add_zero]
  cases lastClauseFrom words 0 (position + 1) rest with
  | some found => rfl
  | none =>
      have same : (fun word => decide ((0 : Int) ≤ 0) && words.contains word) = words.contains :=
        rfl
      rw [same, Option.map_map]
      exact Option.map_id_apply

theorem getLast?_isOneOf_cons (token : Token) (rest : List Token) :
    (((token :: rest).filter (Token.isOneOf words)).getLast?.bind fun token =>
        token.kind.keyword?) =
      ((rest.filter (Token.isOneOf words)).getLast?.bind fun token => token.kind.keyword?).or
        (token.kind.keyword?.filter words.contains) := by
  cases here : token.isOneOf words with
  | false =>
      have none : token.kind.keyword?.filter words.contains = none :=
        Option.filter_eq_none_iff.mpr fun word found among => by
          rw [Token.isOneOf, found] at here
          exact Bool.false_ne_true (here.symm.trans among)
      rw [List.filter_cons_of_neg (Bool.eq_false_iff.mp here), none, Option.or_none]
  | true =>
      obtain ⟨word, found, among⟩ := Token.exists_of_isOneOf here
      rw [List.filter_cons_of_pos here, List.getLast?_cons]
      cases ends : (rest.filter (Token.isOneOf words)).getLast? with
      | none =>
          rw [found, Option.filter_some_pos among]
          exact found
      | some last =>
          have inside := (List.mem_filter.mp (List.mem_of_getLast? ends)).2
          obtain ⟨final, kind, _⟩ := Token.exists_of_isOneOf inside
          rw [Option.getD_some, Option.bind_some, kind, Option.some_or]

/-- Outside parentheses, the last of some words is the last token that is one of them. -/
theorem lastClauseFrom_append (flat : ∀ token ∈ front, closing token.kind = 0)
    (other : ∀ token ∈ back, token.isOneOf words = false) (position : Nat) :
    (lastClauseFrom words 0 position (front ++ back)).map Prod.fst =
      (front.filter (Token.isOneOf words)).getLast?.bind fun token => token.kind.keyword? := by
  induction front generalizing position with
  | nil =>
      rw [List.nil_append, lastClauseFrom_eq_none other]
      rfl
  | cons token rest ih =>
      obtain ⟨here, later⟩ := List.forall_mem_cons.mp flat
      rw [List.cons_append, lastClauseFrom_cons here, ih later, getLast?_isOneOf_cons]

theorem lastClause?_append (flat : ∀ token ∈ front, closing token.kind = 0)
    (other : ∀ token ∈ back, token.isOneOf words = false) :
    (lastClause? words (front ++ back)).map Prod.fst =
      (front.filter (Token.isOneOf words)).getLast?.bind fun token => token.kind.keyword? :=
  lastClauseFrom_append flat other 0

end

end Completion

/-! ## What is before the word being typed -/

namespace Draft

variable {draft : Draft} {source : String} {first : Nat}

/-- What is before a run at the end of the tokens are the tokens that start before it. -/
theorem typed_before
    (placed : Placed Token.span (Token.Sound source) first draft.tokens draft.cursor)
    {parts : List Token × List Token} (whole : parts.1 ++ parts.2 = draft.tokens) :
    (draft.typed parts).before = draft.tokens.filter fun token =>
      decide (token.span.start < draft.limit (draft.typed parts).range?) := by
  obtain ⟨before, run⟩ := parts
  obtain ⟨row, sound⟩ := placed
  rw [← whole] at row sound ⊢
  rw [List.map_append] at row
  obtain ⟨middle, earlier, later⟩ := row.split
  have limit : middle ≤ draft.limit (draft.typed (before, run)).range? ∧
      ∀ token ∈ run, draft.limit (draft.typed (before, run)).range? ≤ token.span.start := by
    cases run with
    | nil => exact ⟨later.first_le_last, List.forall_mem_nil _⟩
    | cons head rest =>
        refine ⟨(later.bounds (.head _)).1, fun token member => ?_⟩
        have leads : ((head :: rest).map Token.span).head? = some head.span := rfl
        have starts : head.span.start ≤ token.span.start :=
          later.head_start_le leads (List.mem_map_of_mem member)
        exact starts
  have inFront : ∀ token ∈ before, decide
      (token.span.start < draft.limit (draft.typed (before, run)).range?) = true := by
    intro token member
    have wide := (sound token (List.mem_append_left _ member)).nonempty
    have stops := (earlier.bounds (List.mem_map_of_mem member)).2.2
    exact decide_eq_true (by omega)
  have behind : ∀ token ∈ run, ¬ decide
      (token.span.start < draft.limit (draft.typed (before, run)).range?) = true := by
    intro token member
    rw [decide_eq_true_iff, Nat.not_lt]
    exact limit.2 token member
  rw [List.filter_append, List.filter_eq_self.mpr inFront, List.filter_eq_nil_iff.mpr behind,
    List.append_nil]
  rfl

theorem word_before
    (placed : Placed Token.span (Token.Sound source) first draft.tokens draft.cursor) :
    draft.word.before = draft.tokens.filter fun token =>
      decide (token.span.start < draft.limit draft.word.range?) := by
  unfold word run
  split
  · exact typed_before placed (Completion.splitRun_spec _ _).1
  · exact typed_before placed (List.append_nil _)

end Draft

/-! ## The end of a text -/

namespace Grammar

/-- The tokens left are those that start where reading has come to. -/
theorem Follows.dropWhile_eq {text : String} {s : Reading}
    (follows : Follows (.start text (Token.scan text)) s) :
    ((Token.scan text).dropWhile fun token => decide (token.span.start < s.lastStop)) = s.rest := by
  have start := ready_start text
  have ready := follows.ready start
  obtain ⟨read, _, tokens, stop, _⟩ := follows
  change Token.scan text = read ++ s.rest at tokens
  obtain ⟨row, sound⟩ := start.placed
  change Span.Row 0 0 ((Token.scan text).map Token.span) _ at row
  change ∀ token ∈ Token.scan text, token.Sound text at sound
  rw [tokens, List.map_append] at row
  obtain ⟨middle, front, -⟩ := row.split
  have inFront : ∀ token ∈ read, decide (token.span.start < s.lastStop) = true := by
    intro token member
    have inside := sound token (tokens ▸ List.mem_append_left _ member)
    have bounds := (Token.row_stopAfter front).1.bounds (List.mem_map_of_mem member)
    have wide := inside.nonempty
    rw [stop]
    exact decide_eq_true (Nat.lt_of_lt_of_le wide bounds.2.2)
  rw [tokens, List.dropWhile_append_of_pos inFront]
  cases left : s.rest with
  | nil => rfl
  | cons token rest =>
      refine List.dropWhile_cons_of_neg ?_
      rw [decide_eq_true_iff, Nat.not_lt]
      exact (ready.head left).2

/-- Behind a command that ends where its text does, nothing is left. -/
theorem rest_eq_nil_of_ends {text : String} {s t : Reading} {name : CommandName}
    {command : Command} {read : Parts Argument} {tokens : List Token}
    (follows : Follows (.start text (Token.scan text)) s)
    (stop : s.lastStop = command.nameSpan.stop) (leads : Leads s tokens t)
    (made : MadeOf name command read t)
    (ends : ∀ token ∈ Token.scan text, token.span.stop ≤ command.span.stop) : t.rest = [] := by
  have ready := follows.ready (ready_start text)
  obtain ⟨later, grown⟩ := leads.ready ready
  refine List.eq_nil_iff_forall_not_mem.mpr fun token member => ?_
  have inText : token ∈ Token.scan text := by
    obtain ⟨before, scanned⟩ := follows
    have whole : Token.scan text = before ++ s.rest := scanned.rest
    rw [whole, leads.rest]
    exact List.mem_append_right _ (List.mem_append_right _ member)
  have within := ends token inText
  have wide := (later.placed.sound token member).nonempty
  have behind := (later.placed.row.bounds (List.mem_map_of_mem member)).1
  rw [made.stop, ← made.spanned, ← stop] at within
  omega

end Grammar

/-- Only in a fork is there another command to be found. -/
theorem descend_of_ne_fork {text : String} {command : Command} {verb : Verb}
    (visited : command ∈ Command.visitedIn (parse text).pipeline.commands)
    (known : Verb.ofName? command.name = some verb) (other : verb ≠ .fork) (offset : Nat) :
    command.descend offset = command := by
  obtain ⟨bound, nested, name, s, _, _, made⟩ := made_visited visited known
  obtain ⟨made, leaves⟩ :=
    made.and ((yields_arguments (branches bound) nested other).ensures s)
  refine Command.descend_eq_self (Argument.descendIn_eq_none fun argument member => ?_)
  rw [made.args] at member
  have leaf := (leaves.items argument member).1
  cases argument with
  | branch branch => cases leaf
  | _ => rfl

/-- A query that ends with a command other than a fork is completed in that command. -/
theorem draft?_of_getLast? {text : String} {snapshot : Snapshot} {command : Command} {verb : Verb}
    (last : (parse text).pipeline.commands.getLast? = some command)
    (known : Verb.ofName? command.name = some verb) (other : verb ≠ .fork) :
    ∃ draft, Completion.draft? text (Token.scan text) (parse text).pipeline snapshot =
      some (draft, verb) ∧ draft.command = command := by
  have tree := nested_parse text
  have starts : command.span.start ≤ Text.byteLength text :=
    Nat.le_trans (tree.last_starts last) tree.fits.stop_le
  have visited := Command.mem_visitedIn (List.mem_of_getLast? last)
  obtain ⟨front, commands⟩ := List.getLast?_eq_some_iff.mp last
  have found : (parse text).pipeline.commandAt? (Text.byteLength text) = some command := by
    have here := Command.lastAt?_append starts front
    rw [descend_of_ne_fork visited known other, ← commands] at here
    exact here
  let tokens := (Token.scan text).dropWhile fun token => token.span.start < command.nameSpan.stop
  let columns := (parse text).pipeline.columnsBefore command snapshot
  refine ⟨⟨text, command, tokens, columns, snapshot⟩, ?_, rfl⟩
  exact Option.bind_eq_some_iff.mpr
    ⟨command, found, Option.bind_eq_some_iff.mpr ⟨verb, known, rfl⟩⟩

namespace Draft

/-- Those of some tokens that are among some words and part of the name of a source. -/
def glued (draft : Draft) (words : List Keyword) (tokens : List Token) : List Token :=
  tokens.filter (glues words draft.command.args)

/-- The last of some words before what is being typed that is part of the name of a source. -/
def gluedWord? (draft : Draft) (words : List Keyword) : Option Keyword :=
  (draft.glued words draft.word.before).getLast?.bind fun token => token.kind.keyword?

/-- A draft whose tokens are the names of its sources and what is divided by the words that open its
clauses. -/
structure Clausal (draft : Draft) (text : String) (words : List Keyword)
    (opens : Token → Clause → Prop) (names front back : List Token) : Prop where
  placed : ∃ first, Placed Token.span (Token.Sound text) first draft.tokens draft.cursor
  tokens : draft.tokens = names ++ (front ++ back)
  flat : ∀ token ∈ names ++ front, closing token.kind = 0
  inner : ∀ token ∈ back, token.isOneOf words = false
  clauses : List.Forall₂ opens (front.filter (Token.isOneOf words)) draft.command.clauses
  glued : draft.glued words draft.tokens = names.filter (Token.isOneOf words)

end Draft

namespace Completion

variable {text : String} {snapshot : Snapshot} {draft : Draft} {verb : Verb}
  {words : List Keyword} {opens : Token → Clause → Prop} {flat : Bool}

theorem clausal_of_draft?
    (drafted : draft? text (Token.scan text) (parse text).pipeline snapshot = some (draft, verb))
    (ends : ∀ token ∈ Token.scan text, token.span.stop ≤ draft.command.span.stop)
    (parted : ∀ bound nested s,
      Ensures (arguments (branches bound) nested verb) s (IsParted words opens flat s)) :
    ∃ names front back, draft.Clausal text words opens names front back ∧
      (flat = true → back = []) := by
  obtain ⟨command, here, drafted⟩ := Option.bind_eq_some_iff.mp drafted
  obtain ⟨_, known, drafted⟩ := Option.bind_eq_some_iff.mp drafted
  cases drafted
  have visited := Pipeline.mem_visited_of_commandAt? _ _ here
  rw [Pipeline.visited_eq] at visited
  obtain ⟨bound, nested, name, s, follows, stop, made⟩ := made_visited visited known
  have ready := follows.ready (ready_start text)
  obtain ⟨made, names, front, back, parted, closed⟩ := made.and (parted bound nested s)
  -- The rule leaves no token behind, so it parts all that completion looks at.
  have ended := rest_eq_nil_of_ends follows stop parted.leads made ends
  have rest := parted.leads.rest
  rw [ended, List.append_nil] at rest
  have tokens := follows.dropWhile_eq
  rw [stop] at tokens
  refine ⟨names, front, back, ?_, closed⟩
  constructor
  case placed =>
    refine ⟨s.lastStop, ?_⟩
    have placed := ready.placed
    rw [follows.source] at placed
    dsimp only
    rw [tokens]
    exact placed
  case tokens =>
    dsimp only
    rw [tokens]
    exact rest
  case flat => exact parted.flat
  case inner => exact parted.inner
  case clauses =>
    dsimp only [Command.clauses]
    rw [made.args]
    exact parted.clauses
  case glued =>
    dsimp only [Draft.glued]
    rw [tokens, rest, made.args]
    exact parted.glued ready

end Completion

theorem Keyword.eq_of_ofLower?_metadata {name : String}
    (spelled : ofLower? name = some .metadata) : name = "metadata" := by
  unfold ofLower? at spelled
  split at spelled <;> first | rfl | cases spelled

theorem getLast?_bind_append {α γ : Type} {f : α → Option γ} {front back : List α}
    (present : ∀ x ∈ back, f x ≠ none) :
    (front ++ back).getLast?.bind f = (back.getLast?.bind f).or (front.getLast?.bind f) := by
  rw [List.getLast?_append]
  cases last : back.getLast? with
  | none => rfl
  | some x =>
      obtain ⟨y, found⟩ := Option.ne_none_iff_exists'.mp (present x (List.mem_of_getLast? last))
      rw [Option.some_or, Option.bind_some, found, Option.some_or]

theorem getLast?_bind_of_forall₂ {α β γ : Type} {related : α → β → Prop} {f : α → Option γ}
    {g : β → Option γ} {xs : List α} {ys : List β} (all : List.Forall₂ related xs ys)
    (same : ∀ x y, related x y → f x = g y) : xs.getLast?.bind f = ys.getLast?.bind g := by
  have mapped : List.Forall₂ Eq (xs.map f) (ys.map g) :=
    List.forall₂_map_left_iff.mpr (List.forall₂_map_right_iff.mpr (all.imp same))
  rw [List.forall₂_eq_eq_eq] at mapped
  calc
    xs.getLast?.bind f = (xs.map f).getLast?.bind id := by
      rw [List.getLast?_map, Option.bind_map]
      rfl
    _ = (ys.map g).getLast?.bind id := by rw [mapped]
    _ = ys.getLast?.bind g := by
      rw [List.getLast?_map, Option.bind_map]
      rfl

namespace Draft

variable {draft : Draft} {text : String} {words : List Keyword} {names front back : List Token}

/-- The word of the last clause of the tree that begins before what is being typed. -/
def clauseWord? (draft : Draft) : Option Keyword :=
  (draft.command.clauses.filter fun clause =>
      decide (clause.span.start < draft.limit draft.word.range?)).getLast?.bind fun clause =>
    Keyword.ofLower? clause.name

theorem gluedWord?_eq_none_iff :
    draft.gluedWord? words = none ↔ draft.glued words draft.word.before = [] := by
  rw [gluedWord?, Option.bind_eq_none_iff]
  refine ⟨fun none => List.getLast?_eq_none_iff.mp (Option.eq_none_iff_forall_not_mem.mpr ?_),
    fun none => ?_⟩
  · intro token last
    have inside := List.mem_of_getLast? last
    obtain ⟨among, _⟩ := Bool.and_eq_true_iff.mp (List.mem_filter.mp inside).2
    obtain ⟨word, found, _⟩ := Token.exists_of_isOneOf among
    rw [none token last] at found
    cases found
  · rw [none]
    exact nofun

/-- Behind the names of the sources, the word is there exactly if it opens a clause. -/
theorem Clausal.clause?_isSome_eq
    (clausal : draft.Clausal text [.metadata] Clause.NamedFor names front back) :
    (draft.command.clause? "metadata").isSome =
      front.any fun token => token.isKeyword .metadata := by
  have clauses := clausal.clauses
  rw [Token.any_isKeyword, Command.clause?, ← Command.clauses]
  cases words : front.filter (Token.isOneOf [.metadata]) with
  | nil =>
      rw [words, List.forall₂_nil_left_iff] at clauses
      rw [clauses]
      rfl
  | cons token rest =>
      have inside : token ∈ front.filter (Token.isOneOf [.metadata]) := words ▸ .head rest
      have here := (List.mem_filter.mp inside).2
      rw [token.isOneOf_singleton] at here
      rw [words] at clauses
      obtain ⟨clause, later, named, -, same⟩ := List.forall₂_cons_left_iff.mp clauses
      have called : (clause.name == "metadata") = true := by
        refine beq_iff_eq.mpr (Keyword.eq_of_ofLower?_metadata ?_)
        rw [named, beq_iff_eq.mp here]
        rfl
      rw [same]
      exact List.find?_isSome.mpr ⟨clause, .head later, called⟩

/-- Completion finds the clause for metadata if there is one, and takes the word for it in the name
of a source for one as well. -/
structure FindsMetadata (draft : Draft) : Prop where
  found : (draft.tokens.any fun token => token.isKeyword .metadata) =
    ((draft.command.clause? "metadata").isSome || !(draft.glued [.metadata] draft.tokens).isEmpty)
  agrees_iff : (draft.tokens.any fun token => token.isKeyword .metadata) =
      (draft.command.clause? "metadata").isSome ↔
    draft.command.clause? "metadata" ≠ none ∨ draft.glued [.metadata] draft.tokens = []

theorem Clausal.findsMetadata
    (clausal : draft.Clausal text [.metadata] Clause.NamedFor names front []) :
    draft.FindsMetadata := by
  have found : (draft.tokens.any fun token => token.isKeyword .metadata) =
      ((draft.command.clause? "metadata").isSome ||
        !(draft.glued [.metadata] draft.tokens).isEmpty) := by
    rw [clausal.glued, ← Token.any_isKeyword, clausal.clause?_isSome_eq, clausal.tokens,
      List.append_nil, List.any_append, Bool.or_comm]
  refine ⟨found, ?_⟩
  rw [found, ← List.isEmpty_iff]
  cases draft.command.clause? "metadata" <;> simp

/-- Completion finds the last clause that begins before the word being typed. Where there is none,
it takes the last word that is part of the name of a source for the word of a clause. -/
structure FindsClause (draft : Draft) (words : List Keyword) : Prop where
  found : (Completion.lastClause? words draft.word.before).map Prod.fst =
    draft.clauseWord?.or (draft.gluedWord? words)
  agrees_iff : (Completion.lastClause? words draft.word.before).map Prod.fst = draft.clauseWord? ↔
    draft.clauseWord? ≠ none ∨ draft.glued words draft.word.before = []

theorem Clausal.findsClause
    (clausal : draft.Clausal text words Clause.BeginsWith names front back) :
    draft.FindsClause words := by
  obtain ⟨first, placed⟩ := clausal.placed
  let inFront (token : Token) : Bool := decide (token.span.start < draft.limit draft.word.range?)
  have starts (token : Token) (clause : Clause) (begins : clause.BeginsWith token) :
      inFront token = true ↔
        decide (clause.span.start < draft.limit draft.word.range?) = true := by
    rw [begins.2]
  -- What is before the word being typed is cut off in front and behind at the same offset, and
  -- a clause starts where its word does, so the cut goes through the clauses as well.
  have before : draft.word.before = draft.tokens.filter inFront := word_before placed
  have opened : (((front.filter inFront).filter (Token.isOneOf words)).getLast?.bind fun token =>
      token.kind.keyword?) = draft.clauseWord? := by
    rw [List.filter_comm]
    refine getLast?_bind_of_forall₂ (List.rel_filter starts clausal.clauses) ?_
    exact fun token clause begins => begins.1.symm
  have named : (names.filter inFront).filter (Token.isOneOf words) =
      draft.glued words draft.word.before := by
    rw [List.filter_comm, ← clausal.glued, before]
    exact List.filter_comm _ _ _
  have found : (Completion.lastClause? words draft.word.before).map Prod.fst =
      draft.clauseWord?.or (draft.gluedWord? words) := by
    rw [before, clausal.tokens, ← List.append_assoc, List.filter_append,
      Completion.lastClause?_append, List.filter_append, List.filter_append, named,
      getLast?_bind_append, opened]
    · rfl
    · intro token member
      obtain ⟨word, kind, _⟩ := Token.exists_of_isOneOf (List.mem_filter.mp member).2
      rw [kind]
      exact Option.some_ne_none word
    · exact fun token member => clausal.flat token (List.mem_of_mem_filter member)
    · exact fun token member => clausal.inner token (List.mem_of_mem_filter member)
  refine ⟨found, ?_⟩
  rw [found, ← gluedWord?_eq_none_iff]
  cases draft.clauseWord? <;> simp

end Draft

namespace Completion

/-- Completion works on the command that a query ends with, unless it is a fork. If no token stands
behind the command that it works on, it finds the clauses that the grammar reads: the clause for
metadata if there is one, and of an enrichment or a join the last clause that begins before the word
being typed. Where there is no such clause, it finds one nevertheless if and only if a word that
opens clauses is part of the name of a source. -/
theorem clauses_of_draft? (text : String) (snapshot : Snapshot) (verb : Verb) :
    (verb ≠ .fork → ∀ command, (parse text).pipeline.commands.getLast? = some command →
      Verb.ofName? command.name = some verb →
        ∃ draft, draft? text (Token.scan text) (parse text).pipeline snapshot =
          some (draft, verb) ∧ draft.command = command) ∧
    ∀ draft,
      draft? text (Token.scan text) (parse text).pipeline snapshot = some (draft, verb) →
      (∀ token ∈ Token.scan text, token.span.stop ≤ draft.command.span.stop) →
        (verb = .from ∨ verb = .ts → draft.FindsMetadata) ∧
        (verb = .enrich → draft.FindsClause [.on, .with]) ∧
        (verb = .join → draft.FindsClause [.on]) := by
  refine ⟨fun other command last known => draft?_of_getLast? last known other, ?_⟩
  intro draft drafted ends
  refine ⟨?sources, ?enrich, ?join⟩
  case sources =>
    intro source
    have parted (bound : Nat) (nested : Bool) (s : Reading) :
        Ensures (arguments (branches bound) nested verb) s
          (IsParted [.metadata] Clause.NamedFor true s) := by
      rcases source with rfl | rfl <;> exact parted_fromArguments s
    obtain ⟨names, front, back, clausal, ended⟩ := clausal_of_draft? drafted ends parted
    obtain rfl := ended rfl
    exact clausal.findsMetadata
  case enrich =>
    rintro rfl
    obtain ⟨names, front, back, clausal, -⟩ :=
      clausal_of_draft? drafted ends fun _ _ => parted_enrichArguments
    exact clausal.findsClause
  case join =>
    rintro rfl
    obtain ⟨names, front, back, clausal, -⟩ :=
      clausal_of_draft? drafted ends fun _ _ => parted_joinArguments
    exact clausal.findsClause

/-- The word that opens a clause is still being typed. The tree has the clause already. -/
example :
    (draft? "FROM a | ENRICH p ON" (Token.scan "FROM a | ENRICH p ON")
        (parse "FROM a | ENRICH p ON").pipeline {}).map (fun found =>
      (found.1.command.clauses.map (·.name), found.1.clauseWord?,
        (lastClause? [.on, .with] found.1.word.before).map Prod.fst)) =
      some (["on"], none, none) := by
  decide +kernel

theorem exists_draft (text : String) (verb : Verb) (holds : Draft → Bool)
    (checked : (draft? text (Token.scan text) (parse text).pipeline {}).map (fun found =>
      (found.2, decide (∀ token ∈ Token.scan text, token.span.stop ≤ found.1.command.span.stop),
        holds found.1)) = some (verb, true, true)) :
    ∃ draft, draft? text (Token.scan text) (parse text).pipeline {} = some (draft, verb) ∧
      (∀ token ∈ Token.scan text, token.span.stop ≤ draft.command.span.stop) ∧
      holds draft = true := by
  obtain ⟨⟨draft, _⟩, drafted, facts⟩ := Option.map_eq_some_iff.mp checked
  simp only [Prod.mk.injEq, decide_eq_true_iff] at facts
  obtain ⟨rfl, ends, here⟩ := facts
  exact ⟨draft, drafted, ends, here⟩

/-- The names hold words that open clauses, and clauses are opened behind the names. -/
theorem clauses_of_draft?_written :
    (∃ draft, draft? "FROM logs-metadata METADATA " (Token.scan "FROM logs-metadata METADATA ")
        (parse "FROM logs-metadata METADATA ").pipeline {} = some (draft, .from) ∧
      (draft.tokens.any fun token => token.isKeyword .metadata) =
        (draft.command.clause? "metadata").isSome) ∧
    (∃ draft, draft? "FROM a | ENRICH add-on ON x WITH "
        (Token.scan "FROM a | ENRICH add-on ON x WITH ")
        (parse "FROM a | ENRICH add-on ON x WITH ").pipeline {} = some (draft, .enrich) ∧
      (parse "FROM a | ENRICH add-on ON x WITH ").pipeline.commands.getLast? =
        some draft.command ∧
      (lastClause? [.on, .with] draft.word.before).map Prod.fst = some .with) ∧
    ∃ draft, draft? "FROM a | LOOKUP JOIN b ON x" (Token.scan "FROM a | LOOKUP JOIN b ON x")
        (parse "FROM a | LOOKUP JOIN b ON x").pipeline {} = some (draft, .join) ∧
      (lastClause? [.on] draft.word.before).map Prod.fst = some .on := by
  refine ⟨?sources, ?enrich, ?join⟩
  case sources =>
    obtain ⟨draft, drafted, ends, clause⟩ :=
      exists_draft "FROM logs-metadata METADATA " .from
        (fun draft => (draft.command.clause? "metadata").isSome) (by decide +kernel)
    have finds := ((clauses_of_draft? _ _ _).2 draft drafted ends).1 (.inl rfl)
    exact ⟨draft, drafted, finds.agrees_iff.mpr (.inl (Option.isSome_iff_ne_none.mp clause))⟩
  case enrich =>
    obtain ⟨draft, drafted, ends, word⟩ :=
      exists_draft "FROM a | ENRICH add-on ON x WITH " .enrich
        (fun draft => draft.clauseWord? == some .with) (by decide +kernel)
    have finds := ((clauses_of_draft? _ _ _).2 draft drafted ends).2.1 rfl
    obtain ⟨command, last, known⟩ := Option.bind_eq_some_iff.mp (show
      ((parse "FROM a | ENRICH add-on ON x WITH ").pipeline.commands.getLast?.bind fun command =>
        Verb.ofName? command.name) = some .enrich by decide +kernel)
    obtain ⟨_, same, rfl⟩ := (clauses_of_draft? _ {} .enrich).1 nofun command last known
    rw [drafted] at same
    cases same
    refine ⟨draft, drafted, last, ?_⟩
    rw [finds.found, beq_iff_eq.mp word, Option.some_or]
  case join =>
    obtain ⟨draft, drafted, ends, word⟩ :=
      exists_draft "FROM a | LOOKUP JOIN b ON x" .join
        (fun draft => draft.clauseWord? == some .on) (by decide +kernel)
    have finds := ((clauses_of_draft? _ _ _).2 draft drafted ends).2.2 rfl
    refine ⟨draft, drafted, ?_⟩
    rw [finds.found, beq_iff_eq.mp word, Option.some_or]

/-- No clause has been opened yet behind a name that holds the word for one. -/
theorem not_clauses_of_draft? :
    (¬ ∀ (text : String) (snapshot : Snapshot) (draft : Draft),
      draft? text (Token.scan text) (parse text).pipeline snapshot = some (draft, .from) →
      (∀ token ∈ Token.scan text, token.span.stop ≤ draft.command.span.stop) →
        (draft.tokens.any fun token => token.isKeyword .metadata) =
          (draft.command.clause? "metadata").isSome) ∧
    ¬ ∀ (text : String) (snapshot : Snapshot) (draft : Draft),
      draft? text (Token.scan text) (parse text).pipeline snapshot = some (draft, .enrich) →
      (∀ token ∈ Token.scan text, token.span.stop ≤ draft.command.span.stop) →
        (lastClause? [.on, .with] draft.word.before).map Prod.fst = draft.clauseWord? := by
  refine ⟨fun claimed => ?sources, fun claimed => ?enrich⟩
  case sources =>
    obtain ⟨draft, drafted, ends, differs⟩ :=
      exists_draft "FROM logs-metadata " .from (fun draft =>
        (draft.tokens.any fun token => token.isKeyword .metadata) !=
          (draft.command.clause? "metadata").isSome) (by decide +kernel)
    exact bne_iff_ne.mp differs (claimed _ _ draft drafted ends)
  case enrich =>
    obtain ⟨draft, drafted, ends, differs⟩ :=
      exists_draft "FROM a | ENRICH add-on " .enrich (fun draft =>
        (lastClause? [.on, .with] draft.word.before).map Prod.fst != draft.clauseWord?)
        (by decide +kernel)
    exact bne_iff_ne.mp differs (claimed _ _ draft drafted ends)

end Completion

end Esql
