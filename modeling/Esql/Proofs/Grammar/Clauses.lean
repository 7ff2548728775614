import Esql.Proofs.Grammar.Coverage
import Esql.Proofs.Grammar.Taken
import Mathlib.Data.List.Forall2

/-!
# The words that open clauses

Where a command reads a source, reserved words open its clauses. The names of its sources come
first, and such a word may be part of one of them. Behind the names each clause is opened by one
such word, in the order in which they stand, and no other such word is read. The words stand outside
parentheses.
-/

namespace Esql

/-- The token is one of some reserved words. -/
def Token.isOneOf (words : List Keyword) (token : Token) : Bool :=
  token.kind.keyword?.any words.contains

theorem Token.exists_of_isOneOf {words : List Keyword} {token : Token}
    (among : token.isOneOf words = true) :
    ∃ word, token.kind.keyword? = some word ∧ words.contains word = true :=
  (Option.any_eq_true _ _).mp among

theorem Token.isOneOf_singleton (token : Token) (word : Keyword) :
    token.isOneOf [word] = token.isKeyword word := by
  rw [Bool.eq_iff_iff, isKeyword, beq_iff_eq, isOneOf]
  cases token.kind <;> simp [TokenKind.keyword?]

theorem Token.any_isKeyword (tokens : List Token) (word : Keyword) :
    (tokens.any fun token => token.isKeyword word) =
      !(tokens.filter (Token.isOneOf [word])).isEmpty := by
  rw [Bool.eq_iff_iff, List.any_eq_true, Bool.not_eq_true', List.isEmpty_eq_false_iff_exists_mem]
  simp only [List.mem_filter, isOneOf_singleton]

/-- The token is one of some words, and part of the name of a source among the arguments. -/
def glues (words : List Keyword) (args : List Argument) (token : Token) : Bool :=
  token.isOneOf words &&
    (args.filterMap Argument.source?).any fun source => source.span.covers token.span

theorem glues_mono {words : List Keyword} {args more : List Argument} {token : Token}
    (less : args ⊆ more) (glued : glues words args token = true) :
    glues words more token = true := by
  obtain ⟨among, inside⟩ := Bool.and_eq_true_iff.mp glued
  obtain ⟨source, member, covers⟩ := List.any_eq_true.mp inside
  refine Bool.and_eq_true_iff.mpr ⟨among, List.any_eq_true.mpr ⟨source, ?_, covers⟩⟩
  exact List.filterMap_subset _ less member

/-- The word is the one that a clause is named for. -/
def Clause.NamedFor (word : Token) (clause : Clause) : Prop :=
  Keyword.ofLower? clause.name = word.kind.keyword?

/-- The clause begins with the word that it is named for. -/
def Clause.BeginsWith (word : Token) (clause : Clause) : Prop :=
  clause.NamedFor word ∧ clause.span.start = word.span.start

namespace Grammar

/-- The second sequence is read only behind a first one that is complete. -/
theorem ensures_andThen {α : Type} {s : Reading} {first second : Rule (Parts α)}
    {here post : Parts α → Reading → Prop} (front : Ensures first s here)
    (done : ∀ read u, here read u → post read u)
    (back : ∀ read u, here read u → Ensures second u fun others t => post (read.append others) t) :
    Ensures (andThen first second) s post := by
  refine front.bind fun read u inside => ?_
  split
  · exact (back read u inside).bind fun others t later => later
  · exact done read u inside

/-! ## Names of sources -/

/-- What is read between two states for the names of sources: tokens outside parentheses, and those
of them that are among the words are parts of the names. -/
structure Names (words : List Keyword) (s : Reading) (args : List Argument) (names : List Token)
    (t : Reading) : Prop where
  leads : Leads s names t
  flat : ∀ token ∈ names, closing token.kind = 0
  noClause : args.filterMap Argument.clause? = []
  glued : s.Ready → ∀ token ∈ names, token.isOneOf words = true → glues words args token = true
  stop : s.Ready → ∀ source ∈ args.filterMap Argument.source?, source.span.stop ≤ t.lastStop

/-- Only names of sources are read from one state to another. -/
def ReadsNames (words : List Keyword) (s : Reading) (read : Parts Argument) (t : Reading) : Prop :=
  ∃ names, Names words s read.items names t

section

variable {words : List Keyword} {s u t : Reading} {args more : List Argument}
  {read : Parts Argument}

theorem Names.nil (leads : Leads s [] t) : Names words s [] [] t :=
  ⟨leads, List.forall_mem_nil _, rfl, fun _ => List.forall_mem_nil _,
    fun _ => List.forall_mem_nil _⟩

theorem Names.comma {comma : Token} {rest : List Token} (front : s.rest = comma :: rest)
    (found : comma.kind = .comma) : Names words s [] [comma] s.advance := by
  refine ⟨.advance front, ?_, rfl, fun _ => ?_, fun _ => List.forall_mem_nil _⟩
  · rw [List.forall_mem_singleton, found]
    rfl
  · rw [List.forall_mem_singleton, Token.isOneOf, found]
    exact nofun

theorem Names.append {first second : List Token} (here : Names words s args first u)
    (there : Names words u more second t) :
    Names words s (args ++ more) (first ++ second) t := by
  constructor
  case leads => exact here.leads.trans there.leads
  case flat => exact List.forall_mem_append.mpr ⟨here.flat, there.flat⟩
  case noClause =>
    rw [List.filterMap_append, here.noClause, there.noClause]
    rfl
  case glued =>
    intro ready
    have later := (here.leads.ready ready).1
    refine List.forall_mem_append.mpr ⟨fun token member among => ?_, fun token member among => ?_⟩
    · exact glues_mono (List.subset_append_left _ _) (here.glued ready token member among)
    · exact glues_mono (List.subset_append_right _ _) (there.glued later token member among)
  case stop =>
    intro ready
    have later := (here.leads.ready ready).1
    have grown := (there.leads.ready later).2
    rw [List.filterMap_append]
    refine List.forall_mem_append.mpr ⟨fun source member => ?_, there.stop later⟩
    exact Nat.le_trans (here.stop ready source member) grown

theorem ReadsNames.nothing (leads : Leads s [] t) (items : read.items = []) :
    ReadsNames words s read t :=
  ⟨[], items ▸ .nil leads⟩

theorem ReadsNames.separated {item : Rule (Parts Argument)}
    (here : ∀ s, Ensures item s (ReadsNames words s)) (s : Reading) :
    Ensures (separated item) s (ReadsNames words s) := by
  unfold Grammar.separated
  rw [ensures_tokens]
  generalize s.rest.length + 1 = bound
  induction bound generalizing s with
  | zero => exact nothing (.record s _) rfl
  | succ bound ih =>
      refine ensures_andThen (here s) (fun _ _ named => named) ?_
      rintro read u ⟨first, named⟩
      refine ensures_accept ?_ ⟨_, named.append (.nil (.refl u))⟩
      intro comma rest front found
      refine (ih u.advance).mono ?_
      rintro others t ⟨behind, later⟩
      exact ⟨_, named.append ((Names.comma front found).append later)⟩

/-- The tokens that a source is read from lie in it, and it ends with them. -/
theorem source?_covers (kind : SourceKind) (s : Reading) :
    Ensures (source? kind) s fun x t => ∃ tokens, Leads s tokens t ∧
      (∀ token ∈ tokens, closing token.kind = 0) ∧ (x = none → tokens = []) ∧
      ∀ source ∈ x, source.span.stop = t.lastStop ∧
        (s.Ready → ∀ token ∈ tokens, source.span.covers token.span = true) := by
  unfold source?
  simp only [ensures_get, ensures_tokens]
  split
  · exact ⟨[], .refl s, List.forall_mem_nil _, fun _ => rfl,
      fun source absent => absurd absent (Option.not_mem_none source)⟩
  · rename_i name length incomplete run
    obtain ⟨first, others, rest, front, rfl, plain⟩ := sourceRun?_append run
    have leads := leads_skip s (others.length + 1)
    have whole : s.rest.take (others.length + 1) = first :: others := by
      rw [front, List.take_succ_cons, List.take_left]
    rw [whole] at leads
    have flat : ∀ token ∈ first :: others, closing token.kind = 0 :=
      fun token member => (plain token member).2
    have covered (extent : Extent) (span : extent.span =
        ⟨s.nextStart, (s.skip (others.length + 1)).lastStop⟩) (ready : s.Ready) :
        ∀ token ∈ first :: others, extent.span.covers token.span = true := by
      have row := ready.placed.row
      rw [front, ← List.cons_append, List.map_append] at row
      obtain ⟨middle, before, _⟩ := row.split
      rw [span, Reading.nextStart_eq front, leads.stop, Token.stopAfter_cons]
      exact Token.covers_of_row before
    simp only [ensures_skip, ensures_extent]
    have present (source : Source) : some source = none → first :: others = [] :=
      fun absent => absurd absent (Option.some_ne_none source)
    split
    · rw [ensures_record]
      refine ⟨first :: others, ?_, flat, present _, ?_⟩
      · have recorded := leads.trans (.record _ ⟨.unterminatedSource,
          ((s.skip (others.length + 1)).extent s.nextStart incomplete).span⟩)
        rwa [List.append_nil] at recorded
      · rintro source ⟨⟩
        exact ⟨rfl, covered _ rfl⟩
    · refine ⟨first :: others, leads, flat, present _, ?_⟩
      rintro source ⟨⟩
      exact ⟨rfl, covered _ rfl⟩

theorem readsNames_sourceArgument (kind : SourceKind) (what : Expectation) (s : Reading) :
    Ensures (sourceArgument kind what) s (ReadsNames words s) := by
  unfold sourceArgument
  refine (source?_covers kind s).bind ?_
  rintro x u ⟨tokens, leads, flat, absent, covers⟩
  cases x with
  | none =>
      obtain rfl := absent rfl
      exact .nothing (leads.trans (.record u _)) rfl
  | some source =>
      obtain ⟨stop, covers⟩ := covers source rfl
      have named : Names words s [.source source] tokens u := by
        refine ⟨leads, flat, rfl, fun ready token member among => ?_, fun _ => ?_⟩
        · have inside : [source].any (fun source => source.span.covers token.span) = true :=
            List.any_eq_true.mpr ⟨source, .head _, covers ready token member⟩
          exact Bool.and_eq_true_iff.mpr ⟨among, inside⟩
        · exact List.forall_mem_singleton.mpr (Nat.le_of_eq stop)
      exact ⟨tokens, named⟩

end

/-! ## What stands behind the names -/

/-- What is read between two states for some clauses. In front stand tokens outside parentheses, and
those of them that are among the words open the clauses, one after the other. Behind them stand
tokens none of which is one of the words. -/
structure Divides (words : List Keyword) (opens : Token → Clause → Prop) (s : Reading)
    (args : List Argument) (front back : List Token) (t : Reading) : Prop where
  leads : Leads s (front ++ back) t
  flat : ∀ token ∈ front, closing token.kind = 0
  inner : ∀ token ∈ back, token.isOneOf words = false
  noSource : args.filterMap Argument.source? = []
  clauses : List.Forall₂ opens (front.filter (Token.isOneOf words))
    (args.filterMap Argument.clause?)

/-- There is such a division, with nothing behind if all that is read is flat. -/
def Divided (words : List Keyword) (opens : Token → Clause → Prop) (flat : Bool) (s : Reading)
    (read : Parts Argument) (t : Reading) : Prop :=
  ∃ front back, Divides words opens s read.items front back t ∧ (flat = true → back = [])

variable {words : List Keyword} {opens : Token → Clause → Prop} {flat : Bool} {s u t : Reading}
  {args more : List Argument} {read : Parts Argument}

theorem Divides.nil (follows : Leads s [] t) : Divides words opens s [] [] [] t :=
  ⟨follows, List.forall_mem_nil _, List.forall_mem_nil _, rfl, .nil⟩

theorem Divides.append {first second back : List Token}
    (here : Divides words opens s args first [] u)
    (there : Divides words opens u more second back t) :
    Divides words opens s (args ++ more) (first ++ second) back t := by
  have leads := here.leads
  rw [List.append_nil] at leads
  refine ⟨?_, List.forall_mem_append.mpr ⟨here.flat, there.flat⟩, there.inner, ?_, ?_⟩
  · rw [List.append_assoc]
    exact leads.trans there.leads
  · rw [List.filterMap_append, here.noSource, there.noSource]
    rfl
  · rw [List.filter_append, List.filterMap_append]
    exact List.rel_append here.clauses there.clauses

namespace Divided

theorem nothing (follows : Leads s [] t) (items : read.items = []) :
    Divided words opens flat s read t :=
  ⟨[], [], items ▸ .nil follows, fun _ => rfl⟩

theorem andThen {first second : Rule (Parts Argument)}
    (here : Ensures first s (Divided words opens true s))
    (there : ∀ u, Ensures second u (Divided words opens flat u)) :
    Ensures (andThen first second) s (Divided words opens flat s) := by
  refine ensures_andThen here ?_ ?_
  · rintro read u ⟨front, back, divides, ended⟩
    exact ⟨front, back, divides, fun _ => ended rfl⟩
  · rintro read u ⟨front, rest, divides, ended⟩
    obtain rfl := ended rfl
    refine (there u).mono ?_
    rintro others t ⟨behind, back, further, closed⟩
    exact ⟨front ++ behind, back, divides.append further, closed⟩

end Divided

/-- What is read for the arguments of a command that reads names of sources and behind them clauses.
Of the words, some are parts of the names, the others open the clauses. -/
structure Parted (words : List Keyword) (opens : Token → Clause → Prop) (s : Reading)
    (args : List Argument) (names front back : List Token) (t : Reading) : Prop where
  leads : Leads s (names ++ (front ++ back)) t
  flat : ∀ token ∈ names ++ front, closing token.kind = 0
  inner : ∀ token ∈ back, token.isOneOf words = false
  clauses : List.Forall₂ opens (front.filter (Token.isOneOf words))
    (args.filterMap Argument.clause?)
  glued : s.Ready → (names ++ (front ++ back)).filter (glues words args) =
    names.filter (Token.isOneOf words)

theorem Names.parted {names front back : List Token} (named : Names words s args names u)
    (divides : Divides words opens u more front back t) :
    Parted words opens s (args ++ more) names front back t := by
  refine ⟨named.leads.trans divides.leads,
    List.forall_mem_append.mpr ⟨named.flat, divides.flat⟩, divides.inner, ?clauses,
    fun ready => ?glued⟩
  case clauses =>
    rw [List.filterMap_append, named.noClause]
    exact divides.clauses
  case glued =>
    obtain ⟨later, _⟩ := named.leads.ready ready
    -- The sources end where the names do, so no token behind the names lies in one of them.
    have apart : ∀ token ∈ front ++ back, ¬ glues words (args ++ more) token = true := by
      intro token member glued
      obtain ⟨source, inside, covers⟩ := List.any_eq_true.mp (Bool.and_eq_true_iff.mp glued).2
      rw [List.filterMap_append, divides.noSource, List.append_nil] at inside
      have left : token ∈ u.rest := divides.leads.rest ▸ List.mem_append_left _ member
      have wide := (later.placed.sound token left).nonempty
      have behind := (later.placed.row.bounds (List.mem_map_of_mem left)).1
      have within := named.stop ready source inside
      have stops := ((Span.covers_iff _ _).mp covers).2
      omega
    rw [List.filter_append, List.filter_eq_nil_iff.mpr apart, List.append_nil]
    refine List.filter_congr fun token member => ?_
    rw [Bool.eq_iff_iff]
    refine ⟨fun glued => (Bool.and_eq_true_iff.mp glued).1, fun among => ?_⟩
    exact glues_mono (List.subset_append_left _ _) (named.glued ready token member among)

/-- The arguments are parted so, with nothing behind the clauses if all that is read is flat. -/
def IsParted (words : List Keyword) (opens : Token → Clause → Prop) (flat : Bool) (s : Reading)
    (read : Parts Argument) (t : Reading) : Prop :=
  ∃ names front back, Parted words opens s read.items names front back t ∧ (flat = true → back = [])

theorem IsParted.andThen {first second : Rule (Parts Argument)}
    (here : Ensures first s (ReadsNames words s))
    (there : ∀ u, Ensures second u (Divided words opens flat u)) :
    Ensures (andThen first second) s (IsParted words opens flat s) := by
  refine ensures_andThen here ?_ ?_
  · rintro read u ⟨names, named⟩
    have parted : Parted words opens s (read.items ++ []) names [] [] u :=
      named.parted (.nil (.refl u))
    rw [List.append_nil] at parted
    exact ⟨names, [], [], parted, fun _ => rfl⟩
  · rintro read u ⟨names, named⟩
    refine (there u).mono ?_
    rintro others t ⟨front, back, divides, closed⟩
    exact ⟨names, front, back, named.parted divides, closed⟩

/-! ## Clauses -/

section

variable {name : String} {start : Nat} {body : Rule (Parts Expr)} {among : TokenKind → Prop}

/-- A clause behind the word that opens it, with a body that holds none of the words. -/
theorem divided_clauseFrom {opening : List Token} {word : Token} (leads : Leads s opening u)
    (flatly : ∀ token ∈ opening, closing token.kind = 0)
    (opener : opening.filter (Token.isOneOf words) = [word])
    (introduces : ∀ clause : Clause, clause.name = name → clause.span.start = start →
      opens word clause)
    (taken : TakesOnly among body)
    (other : ∀ token : Token, among token.kind → token.isOneOf words = false)
    (flattened : flat = true → ∀ kind, among kind → closing kind = 0) :
    Ensures (clauseFrom name start body) u (Divided words opens flat s) := by
  unfold clauseFrom
  refine (taken u).bind ?_
  rintro read v ⟨tokens, further, kinds⟩
  rw [ensures_extent]
  have introduced : opens word ⟨v.extent start (!read.complete), name, read.items⟩ :=
    introduces _ rfl rfl
  have noWord : ∀ token ∈ tokens, token.isOneOf words = false :=
    fun token member => other token (kinds token member)
  -- A flat body goes in front together with its word, so that another clause may follow.
  cases flat with
  | true =>
      refine ⟨opening ++ tokens, [], ⟨?_, ?_, List.forall_mem_nil _, rfl, ?_⟩, fun _ => rfl⟩
      · rw [List.append_nil]
        exact leads.trans further
      · exact List.forall_mem_append.mpr
          ⟨flatly, fun token member => flattened rfl _ (kinds token member)⟩
      · have none : tokens.filter (Token.isOneOf words) = [] :=
          List.filter_eq_nil_iff.mpr fun token member => Bool.eq_false_iff.mp (noWord token member)
        rw [List.filter_append, opener, none]
        exact .cons introduced .nil
  | false =>
      refine ⟨opening, tokens, ⟨leads.trans further, flatly, noWord, rfl, ?_⟩, nofun⟩
      rw [opener]
      exact .cons introduced .nil

theorem filter_isOneOf_singleton {token : Token} {keyword : Keyword} (member : keyword ∈ words)
    (found : token.kind = .keyword keyword) : [token].filter (Token.isOneOf words) = [token] := by
  have among : token.isOneOf words = true := by
    rw [Token.isOneOf, found]
    exact List.contains_iff_mem.mpr member
  exact List.filter_cons_of_pos among

/-- A clause that may follow, opened by one of the words. -/
theorem divided_optionalClause {keyword : Keyword} (member : keyword ∈ words)
    (introduces : ∀ (word : Token) (clause : Clause), word.kind = .keyword keyword →
      clause.name = name → clause.span.start = word.span.start → opens word clause)
    (taken : TakesOnly among body)
    (other : ∀ token : Token, among token.kind → token.isOneOf words = false)
    (flattened : flat = true → ∀ kind, among kind → closing kind = 0) (s : Reading) :
    Ensures (optionalClause name keyword body) s (Divided words opens flat s) := by
  unfold optionalClause acceptWord?
  refine ensures_accept? ?_ (.nothing (.refl s) rfl)
  intro token rest front found
  refine divided_clauseFrom (.advance front) ?_ (filter_isOneOf_singleton member found)
    (fun clause => introduces token clause found) taken other flattened
  rw [List.forall_mem_singleton, found]
  rfl

end

/-! ## Commands that read a source -/

/-- A kind of token that may stand in a list of columns, or close it. -/
def IsListed (kind : TokenKind) : Prop :=
  continuesColumn false kind = true ∨ kind = .comma ∨ kind = .closeBracket

theorem IsListed.closing_eq {kind : TokenKind} (listed : IsListed kind) : closing kind = 0 := by
  rcases listed with continues | rfl | rfl
  · exact (isPlain_of_continuesColumn continues).2
  · rfl
  · rfl

theorem IsListed.isOneOf_eq {token : Token} (listed : IsListed token.kind) :
    token.isOneOf words = false := by
  have other : token.kind.keyword? = none := by
    rcases listed with continues | comma | bracket
    · cases kind : token.kind <;> rw [kind] at continues <;> first | rfl | cases continues
    · rw [comma]
      rfl
    · rw [bracket]
      rfl
  rw [Token.isOneOf, other]
  rfl

/-- A token of an expression is none of the words that open clauses. -/
theorem isOneOf_of_isInner {token : Token} (inner : IsInner token.kind)
    (opening : ∀ word ∈ words, opensClause (.keyword word) = true) :
    token.isOneOf words = false := by
  refine Bool.eq_false_iff.mpr fun among => ?_
  obtain ⟨word, found, member⟩ := Token.exists_of_isOneOf among
  have kind : token.kind = .keyword word := by
    cases kind : token.kind <;> rw [kind] at found <;> cases found
    rfl
  have opens := opening word (List.contains_iff_mem.mp member)
  rw [← kind, show opensClause token.kind = false from inner] at opens
  cases opens

theorem takes_column : TakesOnly IsListed (columnOperand false) :=
  takes_columnOperand fun _ => .inl

theorem takes_columns : TakesOnly IsListed (columnList false) :=
  .separated takes_column (.inr (.inl rfl))

section

variable {word : Token} {clause : Clause} {keyword : Keyword} {name : String}
  (spelled : Keyword.ofLower? name = some keyword)

include spelled

theorem namedFor (found : word.kind = .keyword keyword) (named : clause.name = name) :
    clause.NamedFor word := by
  rw [Clause.NamedFor, named, spelled, found]
  rfl

theorem beginsWith (found : word.kind = .keyword keyword) (named : clause.name = name)
    (starts : clause.span.start = word.span.start) : clause.BeginsWith word :=
  ⟨namedFor spelled found named, starts⟩

end

/-- In brackets, the clause begins with the bracket. -/
theorem divided_bracketedMetadata {opening word : Token} {rest : List Token}
    (front : s.rest = opening :: word :: rest) (bracket : opening.kind = .openBracket)
    (found : word.kind = .keyword .metadata) :
    Ensures (bracketedMetadata opening.span.start) s
      (Divided [.metadata] Clause.NamedFor true s) := by
  have leads : Leads s [opening, word] (s.skip 2) := by
    have skipped := leads_skip s 2
    rwa [front] at skipped
  have other : opening.isOneOf [.metadata] = false := by
    rw [Token.isOneOf, bracket]
    rfl
  have body : TakesOnly IsListed (andThen (columnList false) do
      if ← accept .closeBracket then pure .none else halt .closeBracket) := by
    refine .andThen takes_columns (TakesOnly.bind (.accept (.inr (.inr rfl))) fun closed => ?_)
    split
    · exact .pure _
    · exact .halt _
  unfold bracketedMetadata
  rw [ensures_skip]
  refine divided_clauseFrom leads (List.forall_mem_cons.mpr ⟨?_, ?_⟩) ?_
    (fun clause named _ => namedFor (by decide) found named) body (fun _ => IsListed.isOneOf_eq)
    fun _ _ => IsListed.closing_eq
  · rw [bracket]
    rfl
  · rw [List.forall_mem_singleton, found]
    rfl
  · rw [List.filter_cons_of_neg (Bool.eq_false_iff.mp other)]
    exact filter_isOneOf_singleton (.head _) found

theorem divided_metadataClause (s : Reading) :
    Ensures metadataClause s (Divided [.metadata] Clause.NamedFor true s) := by
  have bare : Ensures (optionalClause "metadata" .metadata (columnList false)) s
      (Divided [.metadata] Clause.NamedFor true s) :=
    divided_optionalClause (.head _) (fun word clause found named _ =>
      namedFor (by decide) found named) takes_columns (fun _ => IsListed.isOneOf_eq)
      (fun _ _ => IsListed.closing_eq) s
  unfold metadataClause
  rw [ensures_tokens]
  split
  · rename_i opening word rest front
    split
    · rename_i bracketed
      obtain ⟨bracket, found⟩ := Bool.and_eq_true_iff.mp bracketed
      exact divided_bracketedMetadata front (beq_iff_eq.mp bracket) (beq_iff_eq.mp found)
    · exact bare
  · exact bare

/-- The names of indices and the clause behind them. -/
theorem parted_fromArguments (s : Reading) :
    Ensures fromArguments s (IsParted [.metadata] Clause.NamedFor true s) :=
  .andThen (.separated (readsNames_sourceArgument _ _) s) divided_metadataClause

/-- The name of a policy and the clauses behind it. -/
theorem parted_enrichArguments (s : Reading) :
    Ensures enrichArguments s (IsParted [.on, .with] Clause.BeginsWith false s) := by
  have field : TakesOnly IsInner enrichField := by
    refine .tokens fun tokens => ?_
    split
    · exact takes_operand takes_field?
    · exact takes_columnOperand isInner_of_continuesColumn
  refine .andThen (readsNames_sourceArgument _ _ s) fun u => .andThen ?_ ?_
  · exact divided_optionalClause (.head _) (fun _ _ => beginsWith (by decide)) takes_column
      (fun _ => IsListed.isOneOf_eq) (fun _ _ => IsListed.closing_eq) u
  · exact divided_optionalClause (.tail _ (.head _)) (fun _ _ => beginsWith (by decide))
      (.separated field rfl) (fun _ inner => isOneOf_of_isInner inner (by decide)) nofun

/-- The name of an index and the clause behind it. -/
theorem parted_joinArguments (s : Reading) :
    Ensures joinArguments s (IsParted [.on] Clause.BeginsWith false s) := by
  refine .andThen (readsNames_sourceArgument _ _ s) fun u => ?_
  unfold acceptWord?
  refine ensures_accept? ?_ (.nothing (.record u _) rfl)
  intro token rest front found
  refine divided_clauseFrom (.advance front) ?_ (filter_isOneOf_singleton (.head _) found)
    (fun clause => beginsWith (by decide) found) (.separated (takes_operand takes_expression) rfl)
    (fun _ inner => isOneOf_of_isInner inner (by decide)) nofun
  rw [List.forall_mem_singleton, found]
  rfl

end Grammar

end Esql
