import Esql.Proofs.Frame.Expression
import Esql.Proofs.Grammar.Arguments

/-!
# Arguments within a larger text

What a verb takes ends at a pipe, and is the same whether or not a pipe follows.
-/

namespace Esql.Grammar

variable (φ : Frame)

section

variable {α : Type} {f : α → α} {s : Reading}

/-- A rule for parts that reads the same within a larger text. -/
abbrev PartsMirror (f : α → α) (rule : Rule (Parts α)) (s : Reading) : Prop :=
  Mirrors φ (Parts.relocate f) rule rule s

theorem halt_mirrors (what : Expectation) : PartsMirror φ f (halt what) s :=
  (mirrors_expected _ _ _).mpr (.pure rfl)

theorem none_mirrors : PartsMirror φ f (pure .none) s := .pure rfl

theorem Parts.relocate_append (f : α → α) (first second : Parts α) :
    (first.relocate f).append (second.relocate f) = (first.append second).relocate f := by
  simp [relocate, append]

theorem andThen_bind {largeFirst largeSecond smallFirst smallSecond : Rule (Parts α)}
    {post : Parts α → Reading → Prop}
    (front : Mirrors φ (Parts.relocate f) largeFirst smallFirst s)
    (known : Ensures smallFirst s post)
    (back : ∀ read t, post read t → Mirrors φ (Parts.relocate f) largeSecond smallSecond t) :
    Mirrors φ (Parts.relocate f) (andThen largeFirst largeSecond) (andThen smallFirst smallSecond)
      s := by
  unfold andThen
  refine front.bind known ?_
  intro read t holds
  change Mirrors _ _ (if read.complete then _ else _) _ _
  split
  · refine (back read t holds).seq ?_
    intro others u
    exact .pure (Parts.relocate_append f read others)
  · exact .pure rfl

theorem andThen_mirrors {largeFirst smallFirst second : Rule (Parts α)}
    (front : Mirrors φ (Parts.relocate f) largeFirst smallFirst s)
    (back : ∀ t, PartsMirror φ f second t) :
    Mirrors φ (Parts.relocate f) (andThen largeFirst second) (andThen smallFirst second) s := by
  have known : Ensures smallFirst s fun _ _ => True := trivial
  exact andThen_bind φ front known fun _ t _ => back t

/-- The number of items between commas is not bounded by the rule. -/
theorem separatedFrom_mirrors {item : Rule (Parts α)} (each : ∀ s, PartsMirror φ f item s)
    (forward : ∀ s, Ensures item s fun _ t => Follows s t) {n m : Nat} (s : Reading)
    (small : s.rest.length < n) (large : s.rest.length < m) :
    Mirrors φ (Parts.relocate f) (separatedFrom item m) (separatedFrom item n) s := by
  induction n generalizing m s with
  | zero => cases small
  | succ n ih =>
      cases m with
      | zero => cases large
      | succ m =>
          refine andThen_bind φ (each s) (forward s) ?_
          intro read t passed
          have shorter := passed.length_le
          refine mirrors_accept TokenKind.noConfusion ?_ (.pure rfl)
          intro token rest front comma
          have less : t.advance.rest.length + 1 ≤ s.rest.length := by
            rw [front] at shorter
            rwa [Reading.advance_rest front]
          exact ih t.advance (by omega) (by omega)

theorem separated_mirrors {item : Rule (Parts α)} (each : ∀ s, PartsMirror φ f item s)
    (forward : ∀ s, Ensures item s fun _ t => Follows s t) (s : Reading) :
    PartsMirror φ f (separated item) s := by
  unfold separated
  simp only [mirrors_tokens]
  refine separatedFrom_mirrors φ each forward s (Nat.lt_succ_self _) ?_
  rw [List.length_append, List.length_map]
  omega

end

/-- A rule for expressions that reads the same within a larger text. -/
abbrev ExprsMirror (rule : Rule (Parts Expr)) (s : Reading) : Prop :=
  PartsMirror φ (Expr.relocate φ.move) rule s

/-- A rule for arguments that reads the same within a larger text. -/
abbrev ArgumentsMirror (rule : Rule (Parts Argument)) (s : Reading) : Prop :=
  PartsMirror φ (Argument.relocate φ.move) rule s

theorem asArguments_mirrors {rule : Rule (Parts Expr)} {s : Reading}
    (same : ExprsMirror φ rule s) : ArgumentsMirror φ (asArguments rule) s := by
  unfold asArguments
  refine same.seq ?_
  intro read t
  refine .pure ?_
  simp [Parts.relocate, Argument.relocate]

theorem clauseFrom_mirrors {large small : Rule (Parts Expr)} {s : Reading} (name : String)
    (start : Nat) (same : Mirrors φ (Parts.relocate (Expr.relocate φ.move)) large small s) :
    Mirrors φ (Parts.relocate (Argument.relocate φ.move))
      (clauseFrom name (start + φ.offset) large) (clauseFrom name start small) s := by
  unfold clauseFrom
  refine same.seq ?_
  intro read t
  refine (mirrors_extent _ _ _ _).mpr (.pure ?_)
  simp [Parts.relocate, Argument.relocate, Clause.relocate]

theorem optionalClause_mirrors {body : Rule (Parts Expr)} (name : String) (keyword : Keyword)
    (same : ∀ s, ExprsMirror φ body s) (s : Reading) :
    ArgumentsMirror φ (optionalClause name keyword body) s := by
  unfold optionalClause
  refine mirrors_accept? TokenKind.noConfusion ?_ (none_mirrors φ)
  intro token rest front found
  exact clauseFrom_mirrors φ name token.span.start (same _)

theorem field?_mirrors (s : Reading) :
    Mirrors φ (Option.map (Expr.relocate φ.move)) field? field? s := by
  unfold field?
  simp only [mirrors_tokens, φ.assignmentAhead_token]
  split
  · rename_i ahead
    refine (requiredColumn_mirrors φ false s).bind (requiredColumn_assignment ahead) ?_
    intro x t behind
    cases x with
    | none => exact .pure rfl
    | some target =>
        obtain ⟨equals, rest, front, _⟩ := behind rfl
        refine (mirrors_advance front _ _).mpr ?_
        refine (expression_mirrors φ t.advance).seq ?_
        intro value u
        rw [isUnfinished_relocate]
        refine (mirrors_extent _ _ _ _).mpr (.pure ?_)
        rw [Option.map_some, Expr.relocate, Expr.relocateAll_eq_map, ← operands_relocate]
        rfl
  · exact expression_mirrors φ s

theorem filteredField?_mirrors (s : Reading) :
    Mirrors φ (Option.map (Expr.relocate φ.move)) filteredField? filteredField? s := by
  unfold filteredField?
  refine (field?_mirrors φ s).seq ?_
  intro x t
  cases x with
  | none => exact .pure rfl
  | some field =>
      dsimp only [Option.map_some]
      rw [Expr.relocate_incomplete, Expr.relocate_span]
      split
      · exact .pure rfl
      refine mirrors_accept TokenKind.noConfusion ?_ (.pure rfl)
      intro token rest front found
      refine (expression_mirrors φ t.advance).seq ?_
      intro condition u
      rw [isUnfinished_relocate]
      refine (mirrors_extent _ _ _ _).mpr (.pure ?_)
      rw [Option.map_some, Expr.relocate, Expr.relocateAll_eq_map, ← operands_relocate]
      rfl

theorem follows_of_outcome {α : Type} {span : α → Span} {nested : String → α → Prop} {s : Reading}
    {rule : Rule (Parts α)} (read : Ensures rule s fun read t =>
      Outcome span nested 0 (!read.complete) s read.items t) :
    Ensures rule s fun _ t => Follows s t :=
  read.mono fun _ _ outcome => outcome.passage.follows

theorem fields_mirrors (s : Reading) : ExprsMirror φ fields s :=
  separated_mirrors φ (fun s => operand_mirrors φ (field?_mirrors φ s))
    (fun s => follows_of_outcome (operand_outcome (field?_outcome s))) s

theorem columnList_mirrors (stars : Bool) (s : Reading) : ExprsMirror φ (columnList stars) s :=
  separated_mirrors φ (columnOperand_mirrors φ stars)
    (fun s => follows_of_outcome (columnOperand_outcome stars s)) s

theorem sourceArgument_mirrors (kind : SourceKind) (what : Expectation) (s : Reading) :
    ArgumentsMirror φ (sourceArgument kind what) s := by
  unfold sourceArgument
  refine (source?_mirrors φ kind s).seq ?_
  intro x t
  cases x with
  | some source => exact .pure rfl
  | none => exact halt_mirrors φ what

theorem bracketedMetadata_mirrors {s : Reading} {opening word : Token} {rest : List Token}
    (front : s.rest = opening :: word :: rest) (start : Nat) :
    Mirrors φ (Parts.relocate (Argument.relocate φ.move))
      (bracketedMetadata (start + φ.offset)) (bracketedMetadata start) s := by
  unfold bracketedMetadata
  have enough : 2 ≤ s.rest.length := by simp [front]
  rw [mirrors_skip enough]
  refine clauseFrom_mirrors φ "metadata" start (andThen_mirrors φ (columnList_mirrors φ false _) ?_)
  intro t
  refine mirrors_accept TokenKind.noConfusion ?_ (halt_mirrors φ .closeBracket)
  intro token rest front found
  exact none_mirrors φ

theorem metadataClause_mirrors (s : Reading) : ArgumentsMirror φ metadataClause s := by
  have bare := optionalClause_mirrors φ "metadata" .metadata (columnList_mirrors φ false) s
  unfold metadataClause
  refine (mirrors_tokens _ _).mpr ?_
  rcases front : s.rest with _ | ⟨opening, _ | ⟨word, rest⟩⟩
  · rcases φ.beyond_cases with none | ⟨pipe, rest, some, found⟩
    · rw [none]
      exact bare
    · rw [some]
      cases rest with
      | nil => exact bare
      | cons word rest =>
          simp only [List.map_nil, List.nil_append, found]
          exact bare
  · rcases φ.beyond_cases with none | ⟨pipe, rest, some, found⟩
    · rw [none]
      exact bare
    · rw [some]
      have noWord : pipe.isKeyword .metadata = false := by
        rw [Token.isKeyword, found]
        rfl
      simp only [List.map_cons, List.map_nil, List.cons_append, List.nil_append, noWord,
        Bool.and_false, Bool.false_eq_true, if_false]
      exact bare
  · rw [List.map_cons, List.map_cons, List.cons_append, List.cons_append]
    change Mirrors _ _
      (if (opening.kind == .openBracket && word.isKeyword .metadata) = true then
        bracketedMetadata (opening.span.start + φ.offset) else _) _ _
    dsimp only
    split
    · exact bracketedMetadata_mirrors φ front _
    · exact bare

theorem fromArguments_mirrors (s : Reading) : ArgumentsMirror φ fromArguments s :=
  andThen_mirrors φ
    (separated_mirrors φ (sourceArgument_mirrors φ .index .indexName)
      (fun s => follows_of_outcome (sourceArgument_outcome .index .indexName s)) s)
    (metadataClause_mirrors φ)

/-- A rule that looks at the next token, and does at a pipe what it does at the end. -/
theorem mirrors_next {α β : Type} {f : α → β} {s : Reading} {large : Token → List Token → Rule β}
    {small : Token → List Token → Rule α} {largeEnd : Rule β} {smallEnd : Rule α}
    (found : ∀ token rest, s.rest = token :: rest →
      Mirrors φ f (large (φ.token token) (rest.map φ.token ++ φ.beyond)) (small token rest) s)
    (absent : Mirrors φ f largeEnd smallEnd s)
    (pipe : ∀ pipe rest, pipe.kind = .pipe → large pipe rest = largeEnd) :
    Mirrors φ f
      (do
        match ← tokens with
        | token :: rest => large token rest
        | [] => largeEnd)
      (do
        match ← tokens with
        | token :: rest => small token rest
        | [] => smallEnd) s := by
  refine (mirrors_tokens _ _).mpr ?_
  cases front : s.rest with
  | cons token rest => exact found token rest front
  | nil =>
      rcases φ.beyond_cases with none | ⟨token, rest, some, kind⟩
      · rw [none]
        exact absent
      · rw [some]
        simp only [List.map_nil, List.nil_append, pipe token rest kind]
        exact absent

theorem showArguments_mirrors (s : Reading) : ArgumentsMirror φ showArguments s := by
  refine mirrors_next φ ?_ (halt_mirrors φ .info) ?_
  · intro token rest front
    rw [φ.token_kind]
    split
    · exact (mirrors_advance front _ _).mpr (.pure rfl)
    · exact halt_mirrors φ .info
  · intro pipe rest kind
    rw [kind]
    rfl

theorem statsArguments_mirrors (nested : Bool) (s : Reading) :
    ArgumentsMirror φ (statsArguments nested) s := by
  unfold statsArguments
  refine (mirrors_get _ _).mpr ?_
  rw [φ.isAtBoundary_embed, φ.isAt_embed s TokenKind.noConfusion]
  refine andThen_mirrors φ ?_ (optionalClause_mirrors φ "by" .by (fields_mirrors φ))
  split
  · exact none_mirrors φ
  · exact asArguments_mirrors φ
      (separated_mirrors φ (fun s => operand_mirrors φ (filteredField?_mirrors φ s))
        (fun s => follows_of_outcome (operand_outcome (filteredField?_outcome s))) s)

theorem newName_mirrors (old : Column) (s : Reading) :
    Mirrors φ (Parts.relocate (Expr.relocate φ.move)) (newName (old.relocate φ.move)) (newName old)
      s := by
  unfold newName
  refine mirrors_accept TokenKind.noConfusion ?_ ((mirrors_expected _ _ _).mpr (.pure rfl))
  intro token rest front found
  have first : Mirrors φ (Parts.relocate (Expr.relocate φ.move))
      (pure (.one (.column (old.relocate φ.move)) false)) (pure (.one (.column old) false))
      s.advance := .pure rfl
  exact andThen_mirrors φ first (columnOperand_mirrors φ false)

theorem renamedColumn_mirrors (s : Reading) : ArgumentsMirror φ renamedColumn s := by
  unfold renamedColumn
  simp only [mirrors_tokens, φ.assignmentAhead_token]
  split
  · exact asArguments_mirrors φ (operand_mirrors φ (field?_mirrors φ s))
  refine (requiredColumn_mirrors φ true s).seq ?_
  intro x t
  cases x with
  | none => exact .pure rfl
  | some old =>
      dsimp only [Option.map_some]
      change Mirrors _ _ (if old.incomplete = true then _ else _) _ _
      split
      · exact .pure rfl
      · exact clauseFrom_mirrors φ "as" old.span.start (newName_mirrors φ old t)

theorem direction?_mirrors (s : Reading) : Mirrors φ id direction? direction? s := by
  unfold direction?
  refine mirrors_accept TokenKind.noConfusion (fun _ _ _ _ => .pure rfl) ?_
  exact mirrors_accept TokenKind.noConfusion (fun _ _ _ _ => .pure rfl) (.pure rfl)

theorem nullsOrder?_mirrors (s : Reading) : Mirrors φ id nullsOrder? nullsOrder? s := by
  have missing : Mirrors φ (id : Option NullsOrder → _) (do expected .firstOrLast; pure none)
      (do expected .firstOrLast; pure none) s := (mirrors_expected _ _ _).mpr (.pure rfl)
  refine mirrors_next φ ?_ missing ?_
  · intro token rest front
    rw [φ.token_isWord, φ.token_isWord]
    split
    · exact (mirrors_advance front _ _).mpr (.pure rfl)
    split
    · exact (mirrors_advance front _ _).mpr (.pure rfl)
    · exact missing
  · intro pipe rest kind
    simp only [Token.isWord, kind]
    rfl

theorem sortKey_mirrors (s : Reading) : ArgumentsMirror φ sortKey s := by
  unfold sortKey
  refine (expression_mirrors φ s).seq ?_
  intro x t
  cases x with
  | none => exact .pure rfl
  | some expr =>
      dsimp only [Option.map_some]
      rw [Expr.relocate_incomplete, Expr.relocate_span]
      split
      · exact (mirrors_extent _ _ _ _).mpr (.pure rfl)
      refine (direction?_mirrors φ t).seq ?_
      intro direction u
      refine (accept_mirrors φ TokenKind.noConfusion u).seq ?_
      intro ordered v
      cases ordered with
      | true =>
          refine (nullsOrder?_mirrors φ v).seq ?_
          intro nulls w
          exact (mirrors_extent _ _ _ _).mpr (.pure rfl)
      | false =>
          have absent : Mirrors φ id (pure none) (pure (none : Option NullsOrder)) v := .pure rfl
          simp only [id_eq, Bool.false_eq_true, if_false]
          refine absent.seq ?_
          intro nulls w
          exact (mirrors_extent _ _ _ _).mpr (.pure rfl)

theorem numberLiteral_mirrors (what : Expectation) (decimals : Bool) (s : Reading) :
    ExprsMirror φ (numberLiteral what decimals) s := by
  refine mirrors_next φ ?_ (halt_mirrors φ what) ?_
  · intro token rest front
    have leaf (kind : LiteralKind) (value : String) :
        ExprsMirror φ (do pure (.one (← literal kind value false) false)) s :=
      (literal_mirrors φ front kind value false).seq fun x t => .pure rfl
    rw [φ.token_kind]
    split
    · exact leaf _ _
    · split
      · exact leaf _ _
      · exact halt_mirrors φ what
    · exact leaf _ _
    · exact halt_mirrors φ what
  · intro pipe rest kind
    simp only [kind]

theorem patternOperand_mirrors (s : Reading) : ExprsMirror φ patternOperand s := by
  refine mirrors_next φ ?_ (halt_mirrors φ .pattern) ?_
  · intro token rest front
    rw [φ.token_kind]
    split
    · exact operand_mirrors φ (expression_mirrors φ s)
    · exact halt_mirrors φ .pattern
  · intro pipe rest kind
    rw [kind]
    rfl

theorem grokArguments_mirrors (s : Reading) : ArgumentsMirror φ grokArguments s :=
  asArguments_mirrors φ
    (andThen_mirrors φ (operand_mirrors φ (expression_mirrors φ s)) (patternOperand_mirrors φ))

theorem setting_follows (name : Token) (s : Reading) :
    Ensures (do
      skip 2
      let value ← expression
      let incomplete := isUnfinished value
      let extent ← extent name.span.start incomplete
      pure (Parts.one (Argument.clause ⟨extent, name.lower, value.toList⟩) incomplete)) s fun _ t =>
      Follows (s.skip 2) t := by
  simp only [ensures_skip]
  refine (expression_outcome (s.skip 2)).bind ?_
  intro value t read
  exact read.passage.follows

theorem settingsFrom_mirrors {n m : Nat} (s : Reading) (small : s.rest.length < n)
    (large : s.rest.length < m) :
    Mirrors φ (Parts.relocate (Argument.relocate φ.move)) (settingsFrom m) (settingsFrom n) s := by
  induction n generalizing m s with
  | zero => cases small
  | succ n ih =>
      cases m with
      | zero => cases large
      | succ m =>
          unfold settingsFrom
          refine (mirrors_tokens _ _).mpr ?_
          rcases front : s.rest with _ | ⟨name, _ | ⟨equals, rest⟩⟩
          · rcases φ.beyond_cases with none | ⟨pipe, after, some, kind⟩
            · rw [none]
              exact none_mirrors φ
            · rw [some]
              cases after with
              | nil => exact none_mirrors φ
              | cons equals after =>
                  simp only [List.map_nil, List.nil_append, kind]
                  exact none_mirrors φ
          · rcases φ.beyond_cases with none | ⟨pipe, after, some, kind⟩
            · rw [none]
              exact none_mirrors φ
            · rw [some]
              have noEquals : (pipe.kind == .assign) = false := by
                rw [kind]
                rfl
              simp only [List.map_cons, List.map_nil, List.cons_append, List.nil_append, noEquals,
                Bool.and_false, Bool.false_eq_true, if_false]
              exact none_mirrors φ
          · rw [List.map_cons, List.map_cons, List.cons_append, List.cons_append]
            change Mirrors _ _
              (if (name.kind.isWord && equals.kind == .assign) = true then _ else _) _ _
            dsimp only
            split
            · have enough : 2 ≤ s.rest.length := by simp [front]
              refine andThen_bind φ ?_ (setting_follows name s) ?_
              · refine (mirrors_skip enough _ _).mpr ?_
                refine (expression_mirrors φ _).seq ?_
                intro value t
                rw [isUnfinished_relocate]
                refine (mirrors_extent _ _ _ _).mpr (.pure ?_)
                cases value <;> rfl
              · intro read t passed
                have less : t.rest.length + 2 ≤ s.rest.length := by
                  have shorter := passed.length_le
                  rw [Reading.rest_skip, List.length_drop] at shorter
                  omega
                exact ih t (by omega) (by omega)
            · exact none_mirrors φ

theorem dissectArguments_mirrors (s : Reading) : ArgumentsMirror φ dissectArguments s := by
  refine andThen_mirrors φ (grokArguments_mirrors φ s) ?_
  intro t
  refine (mirrors_tokens _ _).mpr (settingsFrom_mirrors φ t (Nat.lt_succ_self _) ?_)
  rw [List.length_append, List.length_map]
  omega

theorem enrichField_mirrors (s : Reading) : ExprsMirror φ enrichField s := by
  unfold enrichField
  simp only [mirrors_tokens, φ.assignmentAhead_token]
  split
  · exact operand_mirrors φ (field?_mirrors φ s)
  · exact columnOperand_mirrors φ false s

theorem enrichArguments_mirrors (s : Reading) : ArgumentsMirror φ enrichArguments s :=
  andThen_mirrors φ (sourceArgument_mirrors φ .policy .policyName s) fun t =>
    andThen_mirrors φ (optionalClause_mirrors φ "on" .on (columnOperand_mirrors φ false) t)
      (optionalClause_mirrors φ "with" .with
        (separated_mirrors φ (enrichField_mirrors φ)
          (fun s => follows_of_outcome (enrichField_outcome s))))

theorem joinArguments_mirrors (s : Reading) : ArgumentsMirror φ joinArguments s := by
  refine andThen_mirrors φ (sourceArgument_mirrors φ .index .indexName s) ?_
  intro t
  refine mirrors_accept? TokenKind.noConfusion ?_ (halt_mirrors φ .onWord)
  intro token rest front found
  exact clauseFrom_mirrors φ "on" token.span.start
    (separated_mirrors φ (fun s => operand_mirrors φ (expression_mirrors φ s))
      (fun s => follows_of_outcome (operand_outcome (expression_outcome s))) _)

theorem outputNames_mirrors (s : Reading) : ExprsMirror φ outputNames s := by
  refine andThen_mirrors φ (columnOperand_mirrors φ false s) ?_
  intro t
  refine mirrors_accept TokenKind.noConfusion ?_ (halt_mirrors φ .comma)
  intro token rest front found
  exact columnOperand_mirrors φ false t.advance

theorem changePointArguments_mirrors (s : Reading) :
    ArgumentsMirror φ changePointArguments s :=
  andThen_mirrors φ (asArguments_mirrors φ (columnOperand_mirrors φ false s)) fun t =>
    andThen_mirrors φ (optionalClause_mirrors φ "on" .on (columnOperand_mirrors φ false) t)
      (optionalClause_mirrors φ "as" .as (outputNames_mirrors φ))

/-- The arguments of every verb but FORK; those of FORK are read as `branches` does. -/
theorem arguments_mirrors {large small : Rule (Parts Argument)} {s : Reading} (nested : Bool)
    (verb : Verb) (fork : verb = .fork →
      Mirrors φ (Parts.relocate (Argument.relocate φ.move)) large small s) :
    Mirrors φ (Parts.relocate (Argument.relocate φ.move)) (arguments large nested verb)
      (arguments small nested verb) s := by
  cases verb with
  | fork => exact fork rfl
  | «from» | ts => exact fromArguments_mirrors φ s
  | row | eval => exact asArguments_mirrors φ (fields_mirrors φ s)
  | «show» => exact showArguments_mirrors φ s
  | «where» => exact asArguments_mirrors φ (operand_mirrors φ (expression_mirrors φ s))
  | stats | inlinestats => exact statsArguments_mirrors φ nested s
  | keep | drop => exact asArguments_mirrors φ (columnList_mirrors φ true s)
  | rename =>
      exact separated_mirrors φ (renamedColumn_mirrors φ)
        (fun s => follows_of_outcome (renamedColumn_outcome s)) s
  | mvExpand => exact asArguments_mirrors φ (columnOperand_mirrors φ false s)
  | sort =>
      exact separated_mirrors φ (sortKey_mirrors φ)
        (fun s => follows_of_outcome (sortKey_outcome s)) s
  | limit => exact asArguments_mirrors φ (numberLiteral_mirrors φ .integer false s)
  | sample => exact asArguments_mirrors φ (numberLiteral_mirrors φ .probability true s)
  | dissect => exact dissectArguments_mirrors φ s
  | grok => exact grokArguments_mirrors φ s
  | enrich => exact enrichArguments_mirrors φ s
  | join => exact joinArguments_mirrors φ s
  | changePoint => exact changePointArguments_mirrors φ s

end Esql.Grammar
