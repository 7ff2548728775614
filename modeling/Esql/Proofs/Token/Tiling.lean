import Esql.Proofs.Text.Split
import Esql.Proofs.Token.Blank

/-!
# Tokens and gaps

The tokens of a text and the gaps between them make up the whole text. A gap is made of blanks and
comments alone: a comment behind two slashes runs through the end of its line, one behind a slash
and a star through the first closing mark, and either may run to the end of the text instead.
-/

namespace Esql

namespace Lexeme

/-- A comment behind two slashes takes its line and the line end, or all that is left. -/
theorem lineComment_cases (cs : List Char) :
    (∃ line rest, cs = line ++ '\n' :: rest ∧ '\n' ∉ line ∧ lineComment cs = line.length + 1) ∨
      ('\n' ∉ cs ∧ lineComment cs = cs.length) := by
  induction cs with
  | nil =>
      right
      exact ⟨List.not_mem_nil, rfl⟩
  | cons c cs ih =>
      rw [lineComment_cons]
      by_cases newline : c = '\n'
      · left
        exact ⟨[], cs, by rw [newline, List.nil_append], List.not_mem_nil, if_pos newline⟩
      · rw [if_neg newline]
        rcases ih with ⟨line, rest, rfl, inner, taken⟩ | ⟨inner, taken⟩
        · left
          refine ⟨c :: line, rest, rfl, ?_, by rw [taken, List.length_cons]⟩
          exact List.not_mem_cons_of_ne_of_not_mem (Ne.symm newline) inner
        · right
          refine ⟨?_, by rw [taken, List.length_cons]⟩
          exact List.not_mem_cons_of_ne_of_not_mem (Ne.symm newline) inner

/-- What is passed over up to a mark ends with the first such mark, or is all that is left. -/
theorem throughMark_cases {mark : List Char} (present : mark ≠ []) (cs : List Char) :
    (∃ body rest, cs = body ++ mark ++ rest ∧ ¬ mark <:+: body ∧
        throughMark mark cs = (body ++ mark).length) ∨
      (¬ mark <:+: cs ∧ throughMark mark cs = cs.length) := by
  unfold throughMark
  cases found : Text.splitAtFirst? mark cs with
  | some parts =>
      left
      exact ⟨parts.1, parts.2, Text.splitAtFirst?_append found,
        Text.not_infix_of_splitAtFirst? present found, List.length_append.symm⟩
  | none =>
      right
      exact ⟨Text.not_infix_of_splitAtFirst?_eq_none present found, rfl⟩

end Lexeme

namespace Token

/-- Blanks and comments in front of the rest of a text. -/
inductive Void : List Char → List Char → Prop where
  | nil {rest : List Char} : Void [] rest
  | blank {c : Char} {gap rest : List Char} (blank : Text.isBlank c = true)
      (tail : Void gap rest) : Void (c :: gap) rest
  | line {line gap rest : List Char} (within : '\n' ∉ line) (tail : Void gap rest) :
      Void ('/' :: '/' :: (line ++ '\n' :: gap)) rest
  | lastLine {line : List Char} (within : '\n' ∉ line) : Void ('/' :: '/' :: line) []
  | block {body gap rest : List Char} (within : ¬ ['*', '/'] <:+: body) (tail : Void gap rest) :
      Void ('/' :: '*' :: (body ++ '*' :: '/' :: gap)) rest
  | openBlock {body : List Char} (within : ¬ ['*', '/'] <:+: body) : Void ('/' :: '*' :: body) []

variable {glued : Bool} {c : Char} {cs gap rest : List Char}

/-- What is skipped continues the gap behind it. -/
theorem Void.cons_skipped (skipped : (Lexeme.read glued c cs).kind? = none)
    (left : cs.drop (Lexeme.read glued c cs).more = gap ++ rest) (tail : Void gap rest) :
    Void (c :: (cs.take (Lexeme.read glued c cs).more ++ gap)) rest := by
  rcases Lexeme.read_skipped skipped with blank | ⟨rfl, behind, rfl | rfl⟩
  · have single : Lexeme.read glued c cs = Lexeme.skip 0 := by
      rw [Lexeme.read, if_pos blank]
    rw [single]
    exact .blank blank tail
  · rw [Lexeme.read_lineComment, Lexeme.skip, Nat.add_comm] at left ⊢
    rw [List.drop_succ_cons] at left
    rw [List.take_succ_cons]
    rcases Lexeme.lineComment_cases behind with ⟨line, more, rfl, within, taken⟩ | ⟨within, taken⟩
    · rw [taken, List.take_length_add_append, List.cons_append, List.append_assoc]
      exact .line within tail
    · rw [taken, List.drop_length] at left
      obtain ⟨rfl, rfl⟩ := List.append_eq_nil_iff.mp left.symm
      rw [taken, List.take_length, List.append_nil]
      exact .lastLine within
  · rw [Lexeme.read_blockComment, Lexeme.skip, Nat.add_comm] at left ⊢
    rw [List.drop_succ_cons] at left
    rw [List.take_succ_cons]
    rcases Lexeme.throughMark_cases (List.cons_ne_nil '*' ['/']) behind with
      ⟨body, more, rfl, within, taken⟩ | ⟨within, taken⟩
    · rw [taken, List.take_left, List.cons_append, List.append_assoc]
      exact .block within tail
    · rw [taken, List.drop_length] at left
      obtain ⟨rfl, rfl⟩ := List.append_eq_nil_iff.mp left.symm
      rw [taken, List.take_length, List.append_nil]
      exact .openBlock within

/-- A gap is skipped wherever it stands. -/
theorem Void.skipped (void : Void (c :: gap) rest) (glued : Bool) :
    (Lexeme.read glued c (gap ++ rest)).kind? = none := by
  cases void with
  | blank blank tail =>
      rw [Lexeme.read, if_pos blank]
      rfl
  | line within tail => exact Lexeme.read_comment (.inl rfl) glued
  | lastLine within => exact Lexeme.read_comment (.inl rfl) glued
  | block within tail => exact Lexeme.read_comment (.inr rfl) glued
  | openBlock within => exact Lexeme.read_comment (.inr rfl) glued

/-- A scan passes over a gap, behind which a token starts unless the text ends. -/
theorem exists_void (cs : List Char) (glued : Bool) (offset : Nat) :
    ∃ gap rest after, cs = gap ++ rest ∧ Void gap rest ∧
      scanFrom cs 0 glued offset = scanFrom rest 0 after (offset + Text.width gap) ∧
      ∀ c behind, rest = c :: behind → (Lexeme.read after c behind).kind? ≠ none := by
  induction length : cs.length using Nat.strongRecOn generalizing cs glued offset with
  | ind size ih =>
      cases cs with
      | nil => exact ⟨[], [], glued, rfl, .nil, rfl, fun _ _ same => nomatch same⟩
      | cons c cs =>
          cases kind : (Lexeme.read glued c cs).kind? with
          | some found =>
              refine ⟨[], c :: cs, glued, rfl, .nil, rfl, ?_⟩
              rintro d behind same
              cases same
              rw [kind]
              exact Option.some_ne_none found
          | none =>
              have shorter : (cs.drop (Lexeme.read glued c cs).more).length < size := by
                rw [← length, List.length_cons, List.length_drop]
                omega
              obtain ⟨gap, rest, after, left, void, scanned, starts⟩ :=
                ih _ shorter (cs.drop (Lexeme.read glued c cs).more) false
                  (offset + Text.width (c :: cs.take (Lexeme.read glued c cs).more)) rfl
              refine ⟨_, rest, after, ?_, void.cons_skipped kind left, ?_, starts⟩
              · rw [List.cons_append, List.append_assoc, ← left, List.take_append_drop]
              · rw [scanFrom, scanFrom_pending, ← List.cons_append, Text.width_append,
                  ← Nat.add_assoc, ← scanned, Text.width_cons, Nat.add_assoc]
                rw [kind]

/-- Where the first of some tokens starts, or a later offset if there are none. -/
def startBefore (offset : Nat) : List Token → Nat
  | [] => offset
  | token :: _ => token.span.start

/-- Tokens that make up a text together with the gaps before, between and behind them. -/
structure Tiles (source : String) (tokens : List Token) : Prop where
  /-- Every token covers some text, begins and ends between characters, and holds that text. -/
  sound : ∀ token ∈ tokens, Sound source token
  /-- A token ends before any later one starts. -/
  ordered : tokens.Pairwise fun left right => left.span.stop ≤ right.span.start
  /-- What stands between two neighbours, before the first token or behind the last one is a gap,
  and the gap goes on as far as it can. -/
  gaps : ∀ front back, tokens = front ++ back →
    ∃ before gap behind, source.toList = before ++ gap ++ behind ∧
      Text.width before = stopAfter 0 front ∧
      Text.width before + Text.width gap = startBefore (Text.byteLength source) back ∧
      Void gap behind ∧
      ∀ more rest, behind = more ++ rest → Void more rest → more = []

/-- The tokens of a text tile it. -/
theorem tiles_scan (source : String) : Tiles source (scan source) := by
  have placed := scanFrom_placed source.toList false
  rw [String.ofList_toList] at placed
  refine ⟨placed.sound, List.pairwise_map.mp placed.row.pairwise, ?_⟩
  intro front back division
  obtain ⟨before, rest, after, whole, run, others, stops⟩ := exists_scanned_append division
  obtain ⟨gap, behind, glued, rfl, void, scanned, starts⟩ :=
    exists_void rest after (0 + Text.width before)
  refine ⟨before, gap, behind, by rw [whole, List.append_assoc], ?_, ?_, void, ?_⟩
  · rw [stops, Nat.zero_add]
  · rw [scanned] at others
    cases behind with
    | nil =>
        rw [scanFrom_nil] at others
        rw [← others, startBefore, Text.byteLength, whole, List.append_nil, Text.width_append]
    | cons c behind =>
        obtain ⟨kind, found⟩ := Option.ne_none_iff_exists'.mp (starts c behind rfl)
        rw [scanFrom, found] at others
        rw [← others, startBefore, Nat.zero_add]
  · rintro more tail same again
    cases more with
    | nil => rfl
    | cons c more => exact absurd (again.skipped glued) (starts c (more ++ tail) same)

end Token

end Esql
