import Esql.Grammar.Names
import Esql.Proofs.Grammar.Outcome

/-!
# Outcomes of names

The tokens of a name stand side by side and hold neither a pipe nor a parenthesis. A name that is
not closed, and a point that no name follows, are recorded.
-/

namespace Esql.Grammar

theorem isPlain_of_isSourcePart {kind : TokenKind} (part : isSourcePart kind = true) :
    IsPlain kind := by
  cases kind with
  | pipe | openParen | closeParen => cases part
  | _ => exact ⟨TokenKind.noConfusion, rfl⟩

theorem isPlain_of_continuesColumn {stars : Bool} {kind : TokenKind}
    (continues : continuesColumn stars kind = true) : IsPlain kind := by
  refine isPlain_of_isSourcePart ?_
  cases kind <;> first | rfl | cases stars <;> cases continues

theorem isPlain_of_isName {kind : TokenKind} (name : kind.isName = true) : IsPlain kind := by
  have continues : continuesColumn false kind = true := by simp [continuesColumn, name]
  exact isPlain_of_continuesColumn continues

theorem isName_of_isWord {kind : TokenKind} (word : kind.isWord = true) : kind.isName = true := by
  cases kind with
  | word name => rfl
  | _ => cases word

theorem continuesColumn_of_startsColumn {stars : Bool} {kind : TokenKind}
    (starts : startsColumn stars kind = true) : continuesColumn stars kind = true := by
  unfold startsColumn at starts
  unfold continuesColumn
  rw [Bool.or_eq_true] at starts ⊢
  rcases starts with name | star
  · exact .inl (by rw [name, Bool.true_or])
  · exact .inr star

theorem isPlain_of_startsColumn {stars : Bool} {kind : TokenKind}
    (starts : startsColumn stars kind = true) : IsPlain kind :=
  isPlain_of_continuesColumn (continuesColumn_of_startsColumn starts)

/-- A run of tokens stands at the front, and all of it belongs. -/
theorem runFrom_append (member : TokenKind → Bool) (previous : Token) (tokens : List Token) :
    ∃ rest, tokens = runFrom member previous tokens ++ rest ∧
      ∀ token ∈ runFrom member previous tokens, member token.kind = true := by
  induction tokens generalizing previous with
  | nil => exact ⟨[], rfl, List.forall_mem_nil _⟩
  | cons token tokens ih =>
      unfold runFrom
      split
      · rename_i joined
        obtain ⟨rest, same, members⟩ := ih token
        refine ⟨rest, by rw [List.cons_append, ← same], ?_⟩
        intro other found
        rcases List.mem_cons.mp found with rfl | found
        · exact (Bool.and_eq_true_iff.mp joined).2
        · exact members other found
      · exact ⟨token :: tokens, rfl, List.forall_mem_nil _⟩

theorem columnRun_append {stars : Bool} {tokens others : List Token} {first : Token}
    (run : columnRun stars tokens = first :: others) :
    ∃ rest, tokens = first :: (others ++ rest) ∧
      ∀ token ∈ first :: others, IsPlain token.kind := by
  unfold columnRun at run
  split at run
  · cases run
  · rename_i token tokens
    split at run
    · rename_i starts
      obtain ⟨rfl, rfl⟩ := List.cons.inj run
      obtain ⟨rest, same, members⟩ := runFrom_append (continuesColumn stars) token tokens
      refine ⟨rest, by rw [← same], ?_⟩
      intro other found
      rcases List.mem_cons.mp found with rfl | found
      · exact isPlain_of_startsColumn starts
      · exact isPlain_of_continuesColumn (members other found)
    · cases run

/-- A node without parts over a run of tokens. -/
theorem ExprOutcome.run {s t : Reading} {first : Token} {others rest : List Token} {failed : Bool}
    {node : Expr} {incomplete : Bool} (front : s.rest = first :: (others ++ rest))
    (plain : ∀ token ∈ first :: others, IsPlain token.kind)
    (passage : Passage 0 (s.skip (others.length + 1)) t)
    (faulty : failed = true → s.errors.length < t.errors.length)
    (extent : node.extent = t.extent first.span.start incomplete) (leaf : node.children = []) :
    ExprOutcome 0 failed s [node] t := by
  have others_plain : ∀ token ∈ others, IsPlain token.kind :=
    fun token member => plain token (List.mem_cons_of_mem _ member)
  have first_plain := plain first List.mem_cons_self
  have inner := (Passage.skip (Reading.advance_rest front) others_plain).trans passage
  have outcome := ExprOutcome.headed front first_plain.1
    (.empty inner (by rwa [Reading.errors_advance])) extent leaf
  exact outcome.weaken (by rw [first_plain.2]; decide) id

theorem column?_outcome (stars : Bool) (s : Reading) :
    Ensures (column? stars) s fun x t =>
      ExprOutcome 0 (x.any fun column => column.incomplete) s (x.toList.map Expr.column) t := by
  unfold column?
  simp only [ensures_tokens]
  split
  · exact .empty (.refl s) Bool.noConfusion
  · rename_i first others run
    obtain ⟨rest, front, plain⟩ := columnRun_append run
    simp only [ensures_skip, ensures_extent, List.length_cons]
    generalize List.any (first :: others) (fun token => isUnclosed token.kind) = unclosed
    generalize ((columnParts (first :: others)).getLast? == some "") = dangling
    split
    · simp only [ensures_record, ensures_pure]
      refine .run front plain (.record _ _) ?_ rfl rfl
      intro _
      simp
    split
    · simp only [ensures_record, ensures_pure]
      refine .run front plain (.record _ _) ?_ rfl rfl
      intro _
      simp
    · rename_i closed complete
      simp only [ensures_pure]
      refine .run front plain (.refl _) ?_ rfl rfl
      intro fails
      simp [closed, complete, Reading.extent] at fails

/-- A name at the front is read. -/
theorem column?_isSome {stars : Bool} {s : Reading} {token : Token} {rest : List Token}
    (front : s.rest = token :: rest) (name : startsColumn stars token.kind = true) :
    Ensures (column? stars) s fun x _ => x.isSome = true := by
  unfold column?
  simp only [ensures_tokens, front, columnRun, name, if_true, ensures_skip, ensures_extent]
  split
  · rfl
  split <;> rfl

/-- Behind the name of an assignment stands an equals sign. -/
theorem drop_columnRun {tokens others : List Token} {first : Token}
    (ahead : assignmentAhead tokens = true) (run : columnRun false tokens = first :: others) :
    ∃ equals rest, tokens.drop (others.length + 1) = equals :: rest ∧ equals.kind = .assign := by
  have same : isPathPart = continuesColumn false := by
    funext kind
    simp [isPathPart, continuesColumn]
  unfold assignmentAhead at ahead
  unfold columnRun at run
  split at run
  · cases run
  · split at run
    · obtain ⟨rfl, rfl⟩ := List.cons.inj run
      rw [same, Bool.and_eq_true] at ahead
      obtain ⟨equals, rest, front, found⟩ := exists_cons_of_head? ahead.2
      exact ⟨equals, rest, front, beq_iff_eq.mp found⟩
    · cases run

theorem column?_assignment {s : Reading} (ahead : assignmentAhead s.rest = true) :
    Ensures (column? false) s fun x t => x.isSome = true →
      ∃ equals rest, t.rest = equals :: rest ∧ equals.kind = .assign := by
  unfold column?
  simp only [ensures_tokens]
  split
  · exact Bool.noConfusion
  · rename_i first others run
    have behind := drop_columnRun ahead run
    rw [← Reading.rest_skip] at behind
    simp only [ensures_skip, ensures_extent, List.length_cons]
    split
    · exact fun _ => behind
    split
    · exact fun _ => behind
    · exact fun _ => behind

/-- A column that has to be there is read, or its absence recorded. -/
theorem requiredColumn_outcome (stars : Bool) (s : Reading) :
    Ensures (requiredColumn stars) s fun x t =>
      ExprOutcome 0 (x.all fun column => column.incomplete) s (x.toList.map Expr.column) t := by
  unfold requiredColumn
  refine (column?_outcome stars s).bind ?_
  intro x u read
  cases x with
  | some column => exact read
  | none =>
      simp only [ensures_expected, ensures_pure]
      refine .weaken (.before read (.record u _) ?_) (Int.le_refl 0) id
      intro _
      exact .inr (by simp)

theorem requiredColumn_assignment {s : Reading} (ahead : assignmentAhead s.rest = true) :
    Ensures (requiredColumn false) s fun x t => x.isSome = true →
      ∃ equals rest, t.rest = equals :: rest ∧ equals.kind = .assign := by
  unfold requiredColumn
  refine (column?_assignment ahead).bind ?_
  intro x u behind
  cases x with
  | some column => exact behind
  | none => exact Bool.noConfusion

theorem columnOperand_outcome (stars : Bool) (s : Reading) :
    Ensures (columnOperand stars) s fun read t =>
      ExprOutcome 0 (!read.complete) s read.items t := by
  unfold columnOperand
  refine (requiredColumn_outcome stars s).bind ?_
  intro x u read
  cases x with
  | some column =>
      simp only [ensures_pure, Parts.one, Bool.not_not]
      exact read
  | none => exact read

theorem isPlain_keyword (reserved : Keyword) : IsPlain (.keyword reserved) :=
  ⟨TokenKind.noConfusion, rfl⟩

theorem startsBareSource_plain {first : Token} {rest : List Token}
    (starts : startsBareSource first rest = true) : IsPlain first.kind := by
  unfold startsBareSource at starts
  split at starts
  · rename_i reserved kind
    rw [kind]
    exact isPlain_keyword reserved
  · exact isPlain_of_isSourcePart starts

/-- The tokens of a source are at the front. -/
theorem sourceRun?_append {tokens : List Token} {name : String} {length : Nat} {incomplete : Bool}
    (run : sourceRun? tokens = some (name, length, incomplete)) :
    ∃ first others rest, tokens = first :: (others ++ rest) ∧ length = others.length + 1 ∧
      ∀ token ∈ first :: others, IsPlain token.kind := by
  unfold sourceRun? at run
  split at run
  · cases run
  rename_i first rest
  split at run
  · rename_i value terminated kind
    cases run
    refine ⟨first, [], rest, rfl, rfl, ?_⟩
    intro token member
    rw [List.mem_singleton.mp member, kind]
    exact ⟨TokenKind.noConfusion, rfl⟩
  · split at run
    · rename_i starts
      cases run
      obtain ⟨after, same, members⟩ := runFrom_append isSourcePart first rest
      refine ⟨first, _, after, by rw [← same], rfl, ?_⟩
      intro token member
      rcases List.mem_cons.mp member with rfl | inside
      · exact startsBareSource_plain starts
      · exact isPlain_of_isSourcePart (members token inside)
    · cases run

theorem source?_outcome (kind : SourceKind) (s : Reading) :
    Ensures (source? kind) s fun x t =>
      ArgumentOutcome 0 (x.any fun source => source.incomplete) s
        (x.toList.map Argument.source) t := by
  unfold source?
  simp only [ensures_get, ensures_tokens]
  split
  · exact .empty (.refl s) Bool.noConfusion
  · rename_i name length incomplete run
    obtain ⟨first, others, rest, front, rfl, plain⟩ := sourceRun?_append run
    have passage : Passage 0 s.advance (s.skip (others.length + 1)) :=
      .skip (Reading.advance_rest front) fun token member =>
        plain token (List.mem_cons_of_mem _ member)
    have first_plain := plain first List.mem_cons_self
    simp only [ensures_skip, ensures_extent, Reading.nextStart, front]
    split
    · rename_i unclosed
      simp only [ensures_record]
      have later (error : SyntaxError) :
          ExprOutcome 0 true s.advance [] ((s.skip (others.length + 1)).record error) :=
        .empty (passage.trans (.record _ _)) fun _ => by simp
      exact (ArgumentOutcome.headed front first_plain (later _) ⟨rfl, rfl⟩ rfl rfl rfl).weaken
        (Int.le_refl 0) fun _ => rfl
    · rename_i closed
      have later : ExprOutcome 0 false s.advance [] (s.skip (others.length + 1)) :=
        .empty passage Bool.noConfusion
      refine (ArgumentOutcome.headed front first_plain later ⟨rfl, rfl⟩ rfl rfl rfl).weaken
        (Int.le_refl 0) ?_
      intro fails
      exact absurd fails closed

end Esql.Grammar
