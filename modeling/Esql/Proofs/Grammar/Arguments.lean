import Esql.Grammar.Arguments
import Esql.Proofs.Grammar.Expression

/-!
# Outcomes of arguments

What each verb takes is read as expressions are: the arguments are well nested over the tokens
read, within one stage, and whatever is left unfinished has been recorded.
-/

namespace Esql.Grammar

/-- The outcome of a rule for several expressions. -/
abbrev ReadsExprs (rule : Rule (Parts Expr)) (s : Reading) : Prop :=
  Ensures rule s fun read t => ExprOutcome 0 (!read.complete) s read.items t

/-- The outcome of a rule for several arguments. -/
abbrev ReadsArguments (rule : Rule (Parts Argument)) (s : Reading) : Prop :=
  Ensures rule s fun read t => ArgumentOutcome 0 (!read.complete) s read.items t

/-- Nothing is read, and nothing is missing. -/
theorem none_outcome {α : Type} {span : α → Span} {nested : String → α → Prop} (s : Reading) :
    Ensures (pure .none : Rule (Parts α)) s fun read t =>
      Outcome span nested 0 (!read.complete) s read.items t :=
  .empty (.refl s) Bool.noConfusion

theorem asArguments_outcome {rule : Rule (Parts Expr)} {s : Reading} (read : ReadsExprs rule s) :
    ReadsArguments (asArguments rule) s := by
  unfold asArguments
  refine read.bind ?_
  intro read t outcome
  exact outcome.asArguments

/-- A clause from the word that introduces it. -/
theorem clauseFrom_headed {body : Rule (Parts Expr)} {s u : Reading} {token : Token}
    {rest : List Token} (name : String) (front : s.rest = token :: rest)
    (plain : IsPlain token.kind) (passage : Passage 0 s.advance u) (read : ReadsExprs body u) :
    Ensures (clauseFrom name token.span.start body) u fun read t =>
      ArgumentOutcome 0 (!read.complete) s read.items t := by
  unfold clauseFrom
  refine read.bind ?_
  intro read t outcome
  simp only [ensures_extent, ensures_pure]
  exact .headed front plain (.after passage outcome) ⟨rfl, rfl⟩ rfl rfl rfl

theorem optionalClause_outcome {body : Rule (Parts Expr)} (name : String) (keyword : Keyword)
    (read : ∀ s, ReadsExprs body s) (s : Reading) :
    ReadsArguments (optionalClause name keyword body) s := by
  unfold optionalClause acceptWord?
  refine ensures_accept? ?_ (none_outcome s)
  intro token rest front found
  refine clauseFrom_headed name front ?_ (.refl _) (read _)
  rw [found]
  exact isPlain_keyword keyword

theorem field?_outcome (s : Reading) :
    Ensures field? s fun x t => ExprOutcome 0 (isUnfinished x) s x.toList t := by
  unfold field?
  simp only [ensures_tokens]
  split
  · rename_i ahead
    refine ((requiredColumn_outcome false s).and (requiredColumn_assignment ahead)).bind ?_
    intro x u read
    cases x with
    | none => exact read.1
    | some target =>
        obtain ⟨token, rest, front, found⟩ := read.2 rfl
        have passed := read.1.before (.advance front found TokenKind.noConfusion) .inl
        simp only [ensures_advance]
        refine (expression_outcome u.advance).bind ?_
        intro value t later
        simp only [ensures_extent, ensures_pure]
        exact ExprOutcome.led (passed.both later) rfl rfl
  · exact expression_outcome s

theorem filteredField?_outcome (s : Reading) :
    Ensures filteredField? s fun x t => ExprOutcome 0 (isUnfinished x) s x.toList t := by
  unfold filteredField?
  refine (field?_outcome s).bind ?_
  intro x u read
  cases x with
  | none => exact read
  | some field =>
      dsimp only
      split
      · exact read
      refine ensures_accept ?_ read
      intro token rest front found
      have passed : ExprOutcome 0 false s [field] u.advance :=
        read.before (.advance front found TokenKind.noConfusion) Bool.noConfusion
      refine (expression_outcome u.advance).bind ?_
      intro condition t later
      simp only [ensures_extent, ensures_pure]
      exact ExprOutcome.led (passed.append later) rfl rfl

theorem fields_outcome (s : Reading) : ReadsExprs fields s :=
  separated_outcome (fun s => operand_outcome (field?_outcome s)) s

theorem columnList_outcome (stars : Bool) (s : Reading) : ReadsExprs (columnList stars) s :=
  separated_outcome (columnOperand_outcome stars) s

theorem sourceArgument_outcome (kind : SourceKind) (what : Expectation) (s : Reading) :
    ReadsArguments (sourceArgument kind what) s := by
  unfold sourceArgument
  refine (source?_outcome kind s).bind ?_
  intro x u read
  cases x with
  | some source =>
      simp only [ensures_pure, Parts.one, Bool.not_not]
      exact read
  | none =>
      have halted : ReadsArguments (halt what) u := halt_outcome what u
      refine halted.mono ?_
      intro parts t outcome
      exact .after read.passage outcome

theorem bracketedMetadata_outcome {s : Reading} {opening word : Token} {rest : List Token}
    (front : s.rest = opening :: word :: rest) (first : IsPlain opening.kind)
    (second : IsPlain word.kind) : ReadsArguments (bracketedMetadata opening.span.start) s := by
  unfold bracketedMetadata
  simp only [ensures_skip]
  have passage : Passage 0 s.advance s.advance.advance :=
    (Passage.advance (Reading.advance_rest front) rfl second.1).weaken (Int.le_of_eq second.2)
  refine clauseFrom_headed "metadata" front first passage ?_
  refine andThen_outcome (columnList_outcome false _) ?_
  intro u
  refine ensures_accept ?_ (halt_outcome .closeBracket u)
  intro token rest front found
  exact .empty (.advance front found TokenKind.noConfusion) Bool.noConfusion

theorem metadataClause_outcome (s : Reading) : ReadsArguments metadataClause s := by
  have bare := optionalClause_outcome "metadata" .metadata (columnList_outcome false) s
  unfold metadataClause
  simp only [ensures_tokens]
  split
  · rename_i opening word rest front
    split
    · rename_i bracketed
      simp only [Bool.and_eq_true, beq_iff_eq, Token.isKeyword] at bracketed
      refine bracketedMetadata_outcome front ?_ ?_
      · rw [bracketed.1]
        exact ⟨TokenKind.noConfusion, rfl⟩
      · rw [bracketed.2]
        exact isPlain_keyword .metadata
    · exact bare
  · exact bare

theorem fromArguments_outcome (s : Reading) : ReadsArguments fromArguments s :=
  andThen_outcome (separated_outcome (sourceArgument_outcome .index .indexName) s)
    metadataClause_outcome

theorem showArguments_outcome (s : Reading) : ReadsArguments showArguments s := by
  unfold showArguments
  simp only [ensures_tokens]
  split
  · rename_i token rest front
    split
    · rename_i word
      have plain := isPlain_of_isName (isName_of_isWord word)
      simp only [ensures_advance, ensures_pure]
      refine ⟨(Passage.advance front rfl plain.1).weaken (Int.le_of_eq plain.2),
        Bool.noConfusion, ?_⟩
      intro ready
      obtain ⟨sound, starts⟩ := ready.head front
      refine .single (.plain ⟨rfl, rfl⟩ sound.fits sound.text_eq (.nil sound.fits.ordered)) starts
        sound.fits.ordered ?_
      exact Nat.le_of_eq (Reading.lastStop_advance front).symm
    · exact halt_outcome .info s
  · exact halt_outcome .info s

theorem statsArguments_outcome (nested : Bool) (s : Reading) :
    ReadsArguments (statsArguments nested) s := by
  unfold statsArguments
  simp only [ensures_get]
  refine andThen_outcome ?_ (optionalClause_outcome "by" .by fields_outcome)
  split
  · exact none_outcome s
  · exact asArguments_outcome
      (separated_outcome (fun s => operand_outcome (filteredField?_outcome s)) s)

/-- The names of a renaming, of which the first has been read. -/
theorem newName_outcome {s u : Reading} {old : Column}
    (read : ExprOutcome 0 false s [.column old] u) :
    Ensures (newName old) u fun read t => ∃ others, read.items = .column old :: others ∧
      ExprOutcome 0 (!read.complete) s read.items t := by
  unfold newName
  refine ensures_accept ?_ ?_
  · intro token rest front found
    have passed : ExprOutcome 0 false s [.column old] u.advance :=
      read.before (.advance front found TokenKind.noConfusion) Bool.noConfusion
    simp only [if_true, andThen, ensures_pure_bind, Parts.one, Bool.not_false]
    refine (columnOperand_outcome false u.advance).bind ?_
    intro more t later
    exact ⟨more.items, rfl, passed.append later⟩
  · simp only [Bool.false_eq_true, if_false, ensures_expected, ensures_pure]
    refine ⟨[], rfl, read.before (.record u _) ?_⟩
    intro _
    exact .inr (by simp)

theorem renamedColumn_outcome (s : Reading) : ReadsArguments renamedColumn s := by
  unfold renamedColumn
  simp only [ensures_tokens]
  split
  · exact asArguments_outcome (operand_outcome (field?_outcome s))
  refine (requiredColumn_outcome true s).bind ?_
  intro x u read
  cases x with
  | none => exact .empty read.passage read.faulty
  | some old =>
      dsimp only
      split
      · rename_i incomplete
        exact read.asArguments.weaken (Int.le_refl 0) fun _ => incomplete
      rename_i complete
      have whole : ExprOutcome 0 false s [.column old] u :=
        read.weaken (Int.le_refl 0) Bool.noConfusion
      unfold clauseFrom
      refine (newName_outcome whole).bind ?_
      intro names t named
      obtain ⟨others, items, outcome⟩ := named
      simp only [ensures_extent, ensures_pure]
      rw [items] at outcome
      exact .led outcome ⟨rfl, rfl⟩ rfl rfl items

theorem direction?_passage (s : Reading) : Ensures direction? s fun _ t => Passage 0 s t := by
  unfold direction?
  refine ensures_accept ?_ (ensures_accept ?_ (.refl s))
  · intro token rest front found
    exact .advance front found TokenKind.noConfusion
  · intro token rest front found
    exact .advance front found TokenKind.noConfusion

theorem isPlain_of_isWord {token : Token} {word : String} (same : token.isWord word = true) :
    IsPlain token.kind := by
  unfold Token.isWord at same
  rw [Bool.and_eq_true, Bool.or_eq_true] at same
  rcases same.1 with plain | reserved
  · exact isPlain_of_isName (isName_of_isWord plain)
  · cases kind : token.kind with
    | keyword reserved => exact isPlain_keyword reserved
    | _ =>
        rw [kind] at reserved
        cases reserved

theorem nullsOrder?_outcome (s : Reading) :
    Ensures nullsOrder? s fun x t =>
      Passage 0 s t ∧ (x.isNone = true → s.errors.length < t.errors.length) := by
  have missing : Ensures (do expected .firstOrLast; pure none) s fun (x : Option NullsOrder) t =>
      Passage 0 s t ∧ (x.isNone = true → s.errors.length < t.errors.length) := by
    simp only [ensures_expected, ensures_pure]
    exact ⟨.record s _, fun _ => by simp⟩
  unfold nullsOrder?
  simp only [ensures_tokens]
  split
  · rename_i token rest front
    have step (word : String) (same : token.isWord word = true) : Passage 0 s s.advance := by
      have plain := isPlain_of_isWord same
      exact (Passage.advance front rfl plain.1).weaken (Int.le_of_eq plain.2)
    split
    · rename_i first
      exact ⟨step "first" first, Bool.noConfusion⟩
    split
    · rename_i last
      exact ⟨step "last" last, Bool.noConfusion⟩
    · exact missing
  · exact missing

theorem sortKey_outcome (s : Reading) : ReadsArguments sortKey s := by
  unfold sortKey
  refine (expression_outcome s).bind ?_
  intro x u read
  cases x with
  | none => exact .empty read.passage read.faulty
  | some expr =>
      dsimp only
      split
      · rename_i incomplete
        simp only [ensures_extent, ensures_pure]
        have whole : ExprOutcome 0 true s [expr] u :=
          read.weaken (Int.le_refl 0) fun _ => incomplete
        exact .led whole ⟨rfl, rfl⟩ rfl rfl rfl
      refine (direction?_passage u).bind ?_
      intro direction v first
      refine (accept_passage (isPlain_keyword .nulls) v).bind ?_
      intro ordered w second
      have passed : ExprOutcome 0 false s [expr] w :=
        read.before (first.trans second) Bool.noConfusion
      split
      · refine (nullsOrder?_outcome w).bind ?_
        intro nulls t order
        simp only [ensures_extent, ensures_pure]
        have whole : ExprOutcome 0 nulls.isNone s [expr] t :=
          passed.before order.1 fun absent => .inr (order.2 absent)
        refine Outcome.weaken (ArgumentOutcome.led whole ⟨rfl, rfl⟩ rfl rfl rfl) (Int.le_refl 0) ?_
        simp [Parts.one]
      · rename_i plain
        simp only [ensures_pure_bind, ensures_extent, ensures_pure]
        refine Outcome.weaken (ArgumentOutcome.led passed ⟨rfl, rfl⟩ rfl rfl rfl) (Int.le_refl 0) ?_
        simp [Parts.one, plain]

theorem number_outcome {s : Reading} {token : Token} {rest : List Token}
    (front : s.rest = token :: rest) (plain : IsPlain token.kind) (kind : LiteralKind)
    (value : String) : ReadsExprs (do pure (.one (← literal kind value false) false)) s := by
  refine (literal_outcome front plain (.refl s) ?_ kind value).bind ?_
  · exact Bool.noConfusion
  · intro x t read
    exact read.weaken (Int.le_refl 0) Bool.noConfusion

theorem numberLiteral_outcome (what : Expectation) (decimals : Bool) (s : Reading) :
    ReadsExprs (numberLiteral what decimals) s := by
  unfold numberLiteral
  simp only [ensures_tokens]
  split
  · rename_i token rest front
    split
    case h_1 kind =>
      exact number_outcome front (by rw [kind]; exact ⟨TokenKind.noConfusion, rfl⟩) _ _
    case h_2 kind =>
      split
      · exact number_outcome front (by rw [kind]; exact ⟨TokenKind.noConfusion, rfl⟩) _ _
      · exact halt_outcome what s
    case h_3 name kind =>
      exact number_outcome front (by rw [kind]; exact ⟨TokenKind.noConfusion, rfl⟩) _ _
    case h_4 => exact halt_outcome what s
  · exact halt_outcome what s

theorem patternOperand_outcome (s : Reading) : ReadsExprs patternOperand s := by
  unfold patternOperand
  simp only [ensures_tokens]
  split
  · split
    · exact operand_outcome (expression_outcome s)
    · exact halt_outcome .pattern s
  · exact halt_outcome .pattern s

theorem grokArguments_outcome (s : Reading) : ReadsArguments grokArguments s :=
  asArguments_outcome
    (andThen_outcome (operand_outcome (expression_outcome s)) patternOperand_outcome)

theorem settingsFrom_outcome (bound : Nat) (s : Reading) :
    ReadsArguments (settingsFrom bound) s := by
  induction bound generalizing s with
  | zero => exact halt_outcome .expression s
  | succ bound ih =>
      unfold settingsFrom
      simp only [ensures_tokens]
      split
      · rename_i name equals rest front
        split
        · rename_i setting
          rw [Bool.and_eq_true, beq_iff_eq] at setting
          refine andThen_outcome ?_ ih
          have passage : Passage 0 s.advance (s.skip 2) :=
            .advance (Reading.advance_rest front) setting.2 TokenKind.noConfusion
          simp only [ensures_skip]
          refine (expression_outcome (s.skip 2)).bind ?_
          intro value t read
          simp only [ensures_extent, ensures_pure, Parts.one, Bool.not_not]
          exact ArgumentOutcome.headed front (isPlain_of_isName (isName_of_isWord setting.1))
            (.after passage read) ⟨rfl, rfl⟩ rfl rfl rfl
        · exact none_outcome s
      · exact none_outcome s

theorem dissectArguments_outcome (s : Reading) : ReadsArguments dissectArguments s :=
  andThen_outcome (grokArguments_outcome s) fun u => settingsFrom_outcome _ u

theorem enrichField_outcome (s : Reading) : ReadsExprs enrichField s := by
  unfold enrichField
  simp only [ensures_tokens]
  split
  · exact operand_outcome (field?_outcome s)
  · exact columnOperand_outcome false s

theorem enrichArguments_outcome (s : Reading) : ReadsArguments enrichArguments s :=
  andThen_outcome (sourceArgument_outcome .policy .policyName s) fun u =>
    andThen_outcome (optionalClause_outcome "on" .on (columnOperand_outcome false) u)
      (optionalClause_outcome "with" .with (separated_outcome enrichField_outcome))

theorem joinArguments_outcome (s : Reading) : ReadsArguments joinArguments s := by
  refine andThen_outcome (sourceArgument_outcome .index .indexName s) ?_
  intro u
  refine ensures_accept? ?_ (halt_outcome .onWord u)
  intro token rest front found
  refine clauseFrom_headed "on" front ?_ (.refl _)
    (separated_outcome (fun s => operand_outcome (expression_outcome s)) _)
  rw [found]
  exact isPlain_keyword .on

theorem outputNames_outcome (s : Reading) : ReadsExprs outputNames s := by
  refine andThen_outcome (columnOperand_outcome false s) ?_
  intro u
  refine ensures_accept ?_ (halt_outcome .comma u)
  intro token rest front found
  refine (columnOperand_outcome false u.advance).mono ?_
  intro read t outcome
  exact .after (.advance front found TokenKind.noConfusion) outcome

theorem changePointArguments_outcome (s : Reading) : ReadsArguments changePointArguments s :=
  andThen_outcome (asArguments_outcome (columnOperand_outcome false s)) fun u =>
    andThen_outcome (optionalClause_outcome "on" .on (columnOperand_outcome false) u)
      (optionalClause_outcome "as" .as outputNames_outcome)

/-- The arguments of every verb but FORK; those of FORK are read as `branches` does. -/
theorem arguments_outcome {branches : Rule (Parts Argument)}
    {post : Parts Argument → Reading → Prop} {s : Reading} (nested : Bool) (verb : Verb)
    (fork : verb = .fork → Ensures branches s post)
    (plain : ∀ read t, ArgumentOutcome 0 (!read.complete) s read.items t → post read t) :
    Ensures (arguments branches nested verb) s post := by
  have others {rule : Rule (Parts Argument)} (read : ReadsArguments rule s) :
      Ensures rule s post := read.mono plain
  cases verb with
  | fork => exact fork rfl
  | «from» | ts => exact others (fromArguments_outcome s)
  | row | eval => exact others (asArguments_outcome (fields_outcome s))
  | «show» => exact others (showArguments_outcome s)
  | «where» => exact others (asArguments_outcome (operand_outcome (expression_outcome s)))
  | stats | inlinestats => exact others (statsArguments_outcome nested s)
  | keep | drop => exact others (asArguments_outcome (columnList_outcome true s))
  | rename => exact others (separated_outcome renamedColumn_outcome s)
  | mvExpand => exact others (asArguments_outcome (columnOperand_outcome false s))
  | sort => exact others (separated_outcome sortKey_outcome s)
  | limit => exact others (asArguments_outcome (numberLiteral_outcome .integer false s))
  | sample => exact others (asArguments_outcome (numberLiteral_outcome .probability true s))
  | dissect => exact others (dissectArguments_outcome s)
  | grok => exact others (grokArguments_outcome s)
  | enrich => exact others (enrichArguments_outcome s)
  | join => exact others (joinArguments_outcome s)
  | changePoint => exact others (changePointArguments_outcome s)

end Esql.Grammar
