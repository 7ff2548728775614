import Esql.Proofs.Frame.Basic
import Esql.Proofs.Grammar.Names

/-!
# Names within a larger text

A pipe belongs to no name, so a name ends before it as it ends with the text.
-/

namespace Esql.Grammar

variable (φ : Frame)

@[simp]
theorem Frame.adjoins_token (token next : Token) :
    (φ.token token).adjoins (φ.token next) = token.adjoins next := by
  rw [Bool.eq_iff_iff, Token.adjoins, Token.adjoins, beq_iff_eq, beq_iff_eq, φ.token_start,
    φ.token_stop, Nat.add_right_cancel_iff]

theorem Frame.runFrom_token {member : TokenKind → Bool} (noPipe : member .pipe = false)
    (previous : Token) (tokens : List Token) :
    runFrom member (φ.token previous) (tokens.map φ.token ++ φ.beyond) =
      (runFrom member previous tokens).map φ.token := by
  induction tokens generalizing previous with
  | nil =>
      rcases φ.beyond_cases with none | ⟨pipe, rest, some, found⟩
      · rw [none]
        rfl
      · simp [some, runFrom, found, noPipe]
  | cons token tokens ih =>
      rw [List.map_cons, List.cons_append, runFrom, runFrom, φ.adjoins_token, φ.token_kind, ih]
      split <;> rfl

theorem Frame.columnRun_token (stars : Bool) (tokens : List Token) :
    columnRun stars (tokens.map φ.token ++ φ.beyond) = (columnRun stars tokens).map φ.token := by
  have noPipe : continuesColumn stars .pipe = false := by cases stars <;> rfl
  have noStart : startsColumn stars .pipe = false := by cases stars <;> rfl
  cases tokens with
  | nil =>
      rcases φ.beyond_cases with none | ⟨pipe, rest, some, found⟩
      · rw [none]
        rfl
      · simp [some, columnRun, found, noStart]
  | cons token tokens =>
      rw [List.map_cons, List.cons_append, columnRun, columnRun, φ.token_kind,
        φ.runFrom_token noPipe]
      split <;> rfl

theorem Frame.columnParts_token (tokens : List Token) :
    columnParts (tokens.map φ.token) = columnParts tokens := by
  induction tokens with
  | nil => rfl
  | cons token tokens ih =>
      rw [List.map_cons, columnParts, columnParts, ih]
      rfl

theorem length_columnRun_le (stars : Bool) (tokens : List Token) :
    (columnRun stars tokens).length ≤ tokens.length := by
  cases run : columnRun stars tokens with
  | nil => exact Nat.zero_le _
  | cons first others =>
      obtain ⟨rest, rfl, _⟩ := columnRun_append run
      simp

theorem column?_mirrors (stars : Bool) (s : Reading) :
    Mirrors φ (Option.map (Column.relocate φ.move)) (column? stars) (column? stars) s := by
  unfold column?
  simp only [mirrors_tokens, φ.columnRun_token]
  have enough := length_columnRun_le stars s.rest
  cases run : columnRun stars s.rest with
  | nil => exact .pure rfl
  | cons first others =>
      rw [run] at enough
      rw [List.map_cons]
      dsimp only
      have unclosed : (fun token : Token => isUnclosed token.kind) ∘ φ.token =
          fun token => isUnclosed token.kind := rfl
      have quoted : (fun token : Token => isQuoted token.kind) ∘ φ.token =
          fun token => isQuoted token.kind := rfl
      rw [← List.map_cons, φ.columnParts_token, List.length_map, List.any_map, List.any_map,
        unclosed, quoted, mirrors_skip enough]
      refine (mirrors_extent _ _ _ _).mpr ?_
      split
      · refine (mirrors_record rfl _ _).mpr (.pure rfl)
      split
      · refine (mirrors_record rfl _ _).mpr (.pure rfl)
      · exact .pure rfl

theorem requiredColumn_mirrors (stars : Bool) (s : Reading) :
    Mirrors φ (Option.map (Column.relocate φ.move)) (requiredColumn stars) (requiredColumn stars)
      s := by
  unfold requiredColumn
  refine (column?_mirrors φ stars s).seq ?_
  intro x t
  cases x with
  | some column => exact .pure rfl
  | none => exact (mirrors_expected _ _ _).mpr (.pure rfl)

/-- The items that a rule returned, moved. -/
def Parts.relocate {α : Type} (f : α → α) (parts : Parts α) : Parts α :=
  ⟨parts.items.map f, parts.complete⟩

theorem columnOperand_mirrors (stars : Bool) (s : Reading) :
    Mirrors φ (Parts.relocate (Expr.relocate φ.move)) (columnOperand stars) (columnOperand stars)
      s := by
  unfold columnOperand
  refine (requiredColumn_mirrors φ stars s).seq ?_
  intro x t
  cases x with
  | some column => exact .pure rfl
  | none => exact .pure rfl

theorem Frame.startsBareSource_token (first : Token) (tokens : List Token) :
    startsBareSource (φ.token first) (tokens.map φ.token ++ φ.beyond) =
      startsBareSource first tokens := by
  have next : (tokens.map φ.token ++ φ.beyond).head?.any
        (fun next => (φ.token first).adjoins next && isSourcePart next.kind) =
      tokens.head?.any fun next => first.adjoins next && isSourcePart next.kind := by
    cases tokens with
    | nil =>
        rcases φ.beyond_cases with none | ⟨pipe, rest, some, found⟩
        · rw [none]
          rfl
        · simp [some, found, isSourcePart]
    | cons token tokens => simp
  unfold startsBareSource keywordStartsSource
  simp only [φ.token_kind, next]

theorem Frame.sourceRun?_token (tokens : List Token) :
    sourceRun? (tokens.map φ.token ++ φ.beyond) = sourceRun? tokens := by
  cases tokens with
  | nil =>
      rcases φ.beyond_cases with none | ⟨pipe, rest, some, found⟩
      · rw [none]
        rfl
      · simp [some, sourceRun?, found, startsBareSource, isSourcePart]
  | cons first tokens =>
      rw [List.map_cons, List.cons_append, sourceRun?, sourceRun?, φ.token_kind,
        φ.startsBareSource_token, φ.runFrom_token rfl]
      split
      · rfl
      · split
        · dsimp only
          rw [← List.map_cons, List.foldl_map, List.length_map, List.any_map]
          rfl
        · rfl

theorem source?_mirrors (kind : SourceKind) (s : Reading) :
    Mirrors φ (Option.map (Source.relocate φ.move)) (source? kind) (source? kind) s := by
  unfold source?
  simp only [mirrors_get, mirrors_tokens, φ.sourceRun?_token]
  split
  · exact .pure rfl
  · rename_i name length incomplete run
    obtain ⟨first, others, rest, front, rfl, _⟩ := sourceRun?_append run
    have enough : others.length + 1 ≤ s.rest.length := by simp [front]
    rw [mirrors_skip enough, φ.nextStart_embed front]
    refine (mirrors_extent _ _ _ _).mpr ?_
    split
    · exact (mirrors_record rfl _ _).mpr (.pure rfl)
    · exact .pure rfl

/-- Whether the first token is of a kind that no pipe is of does not depend on what is beyond. -/
theorem Frame.head?_token (member : TokenKind → Bool) (noPipe : member .pipe = false)
    (tokens : List Token) :
    ((tokens.map φ.token ++ φ.beyond).head?.any fun token => member token.kind) =
      tokens.head?.any fun token => member token.kind := by
  cases tokens with
  | nil =>
      rcases φ.beyond_cases with none | ⟨pipe, rest, some, found⟩
      · rw [none]
        rfl
      · simp [some, found, noPipe]
  | cons token tokens => rfl

theorem Frame.assignmentAhead_token (tokens : List Token) :
    assignmentAhead (tokens.map φ.token ++ φ.beyond) = assignmentAhead tokens := by
  cases tokens with
  | nil =>
      rcases φ.beyond_cases with none | ⟨pipe, rest, some, found⟩
      · rw [none]
        rfl
      · simp [some, assignmentAhead, isPathPart, found, TokenKind.isName, TokenKind.name?]
  | cons first tokens =>
      obtain ⟨rest, same, _⟩ := runFrom_append isPathPart first tokens
      have enough : (runFrom isPathPart first tokens).length ≤ (tokens.map φ.token).length := by
        rw [List.length_map]
        conv => rhs; rw [same]
        rw [List.length_append]
        exact Nat.le_add_right _ _
      rw [List.map_cons, List.cons_append, assignmentAhead, assignmentAhead, φ.token_kind,
        φ.runFrom_token rfl, List.length_map, List.drop_append_of_le_length enough, ← List.map_drop,
        φ.head?_token (· == .assign) rfl]

end Esql.Grammar
