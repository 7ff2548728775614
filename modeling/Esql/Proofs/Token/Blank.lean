import Esql.Proofs.Token.Cut
import Mathlib.Data.List.TakeWhile

/-!
# Blanks around a text

Blanks in front of a text only move its tokens. Blanks behind it change nothing as long as no token
takes them in, as an unfinished string and an unfinished quoted name do.
-/

namespace Esql

namespace Text

/-- Only blanks, and perhaps none at all. -/
def Blank (cs : List Char) : Prop := ∀ c ∈ cs, isBlank c = true

theorem exists_trimStartChars (cs : List Char) :
    ∃ before, cs = before ++ trimStartChars cs ∧ Blank before := by
  refine ⟨cs.takeWhile isBlank, List.takeWhile_append_dropWhile.symm, ?_⟩
  intro c member
  exact List.mem_takeWhile_imp member

/-- A text is what is left of it without the blanks at its ends, between these blanks. -/
theorem exists_trimChars (cs : List Char) :
    ∃ before after, cs = before ++ trimChars cs ++ after ∧ Blank before ∧ Blank after := by
  obtain ⟨before, front, leading⟩ := exists_trimStartChars cs
  obtain ⟨behind, back, trailing⟩ := exists_trimStartChars (trimStartChars cs).reverse
  refine ⟨before, behind.reverse, ?_, leading, ?_⟩
  · have left : trimStartChars cs = trimChars cs ++ behind.reverse := by
      rw [trimChars, ← List.reverse_append, ← back, List.reverse_reverse]
    rw [List.append_assoc, ← left, ← front]
  · intro c member
    exact trailing c (List.mem_reverse.mp member)

end Text

namespace Lexeme

variable {glued : Bool} {c : Char} {cs mark rest : List Char}

theorem lineComment_append (ends : lineComment cs < cs.length)
    (rest : List Char) : lineComment (cs ++ rest) = lineComment cs := by
  induction cs with
  | nil => cases ends
  | cons c cs ih =>
      rw [lineComment_cons] at ends
      rw [List.cons_append, lineComment_cons, lineComment_cons]
      split
      · rfl
      · rename_i other
        rw [if_neg other, List.length_cons, Nat.add_lt_add_iff_right] at ends
        rw [ih ends]

/-- A mark that is found stays where it is when the text goes on. -/
theorem splitAtFirst?_append_right {before after : List Char}
    (found : Text.splitAtFirst? mark cs = some (before, after)) (rest : List Char) :
    Text.splitAtFirst? mark (cs ++ rest) = some (before, after ++ rest) := by
  induction cs generalizing before after with
  | nil =>
      rw [Text.splitAtFirst?] at found
      split at found
      · rename_i empty
        obtain rfl := List.isEmpty_iff.mp empty
        cases found
        cases rest <;> simp [Text.splitAtFirst?]
      · cases found
  | cons c cs ih =>
      rw [Text.splitAtFirst?] at found
      rw [List.cons_append, Text.splitAtFirst?]
      split at found
      · rename_i starts
        rw [List.isPrefixOf_iff_prefix] at starts
        have longer := starts.trans (List.prefix_append (c :: cs) rest)
        rw [List.cons_append] at longer
        rw [if_pos (List.isPrefixOf_iff_prefix.mpr longer), ← List.cons_append,
          List.drop_append_of_le_length starts.length_le]
        cases found
        rfl
      · rename_i differs
        obtain ⟨⟨inner, tail⟩, inside, same⟩ := Option.map_eq_some_iff.mp found
        have enough := congrArg List.length (Text.splitAtFirst?_append inside)
        rw [List.length_append, List.length_append] at enough
        rw [if_neg, ih inside]
        · cases same
          rfl
        · intro starts
          rw [List.isPrefixOf_iff_prefix, ← List.cons_append] at starts
          apply differs
          rw [List.isPrefixOf_iff_prefix]
          apply List.prefix_of_prefix_length_le starts (List.prefix_append _ _)
          rw [List.length_cons]
          omega

theorem throughMark_append (ends : throughMark mark cs < cs.length)
    (rest : List Char) : throughMark mark (cs ++ rest) = throughMark mark cs := by
  unfold throughMark at ends ⊢
  cases found : Text.splitAtFirst? mark cs with
  | none =>
      rw [found] at ends
      cases Nat.lt_irrefl _ ends
  | some parts => rw [splitAtFirst?_append_right found rest]

/-- What is skipped is a blank or a comment of one of the two kinds. -/
theorem read_skipped (skipped : (read glued c cs).kind? = none) :
    Text.isBlank c = true ∨ c = '/' ∧ ∃ rest, cs = '/' :: rest ∨ cs = '*' :: rest := by
  by_cases blank : Text.isBlank c = true
  · exact .inl blank
  right
  unfold read at skipped
  rw [if_neg blank] at skipped
  split at skipped
  · rename_i line
    rw [Bool.and_eq_true, beq_iff_eq, beq_iff_eq] at line
    obtain ⟨rest, slash⟩ := List.head?_eq_some_iff.mp line.2
    exact ⟨line.1, rest, .inl slash⟩
  split at skipped
  · rename_i block
    rw [Bool.and_eq_true, beq_iff_eq, beq_iff_eq] at block
    obtain ⟨rest, star⟩ := List.head?_eq_some_iff.mp block.2
    exact ⟨block.1, rest, .inr star⟩
  split at skipped
  · unfold name at skipped
    dsimp only at skipped
    split at skipped <;> cases skipped
  split at skipped
  · cases skipped
  split at skipped
  · cases skipped
  split at skipped
  · obtain ⟨value, terminated, kind⟩ := quotedString_kind? cs
    rw [kind] at skipped
    cases skipped
  split at skipped
  · cases skipped
  · obtain ⟨kind, found, _⟩ := mark_kind? c cs.head?
    rw [found] at skipped
    cases skipped

theorem read_comment (opens : cs = '/' :: rest ∨ cs = '*' :: rest) (glued : Bool) :
    (read glued '/' cs).kind? = none := by
  rcases opens with rfl | rfl <;> rfl

/-- A comment that ends before the end of the text is the same when the text goes on. -/
theorem read_comment_append (opens : cs = '/' :: rest ∨ cs = '*' :: rest)
    (ends : (read glued '/' cs).more < cs.length) (behind : List Char) :
    read glued '/' (cs ++ behind) = read glued '/' cs := by
  rcases opens with rfl | rfl
  · rw [read_lineComment, List.length_cons] at ends
    dsimp only [skip] at ends
    rw [List.cons_append, read_lineComment, read_lineComment, lineComment_append (by omega)]
  · rw [read_blockComment, List.length_cons] at ends
    dsimp only [skip] at ends
    rw [List.cons_append, read_blockComment, read_blockComment, throughMark_append (by omega)]

/-- A lexeme that ends before some blanks is read without them. -/
theorem read_trailing {front blanks : List Char} (blank : Text.Blank blanks)
    (ends : blanks ≠ [] → (read glued c (front ++ blanks)).more ≤ front.length) :
    read glued c (front ++ blanks) = read glued c front := by
  cases blanks with
  | nil => rw [List.append_nil]
  | cons separator rest =>
      have separates : Text.isSeparator separator = true := by
        simp [Text.isSeparator, blank separator List.mem_cons_self]
      exact read_cut separates (ends (List.cons_ne_nil _ _))

end Lexeme

namespace Token

/-- The text of a token has a blank at its end. -/
def endsBlank (token : Token) : Bool := token.text.toList.getLast?.any Text.isBlank

/-- No blank at the end of a text is part of a token. -/
def Closed (tokens : List Token) : Prop := ∀ token ∈ tokens.getLast?, token.endsBlank = false

instance (tokens : List Token) : Decidable (Closed tokens) :=
  inferInstanceAs (Decidable (∀ token ∈ tokens.getLast?, token.endsBlank = false))

section

variable {glued : Bool} {offset : Nat} {c : Char} {cs : List Char} {lexeme : Lexeme}

/-- Blanks in front of a text are passed over. -/
theorem scanFrom_leading {before : List Char} (blank : Text.Blank before) (cs : List Char)
    (offset : Nat) :
    scanFrom (before ++ cs) 0 false offset = scanFrom cs 0 false (offset + Text.width before) := by
  induction before generalizing offset with
  | nil => rfl
  | cons c before ih =>
      have others : Text.Blank before := fun d member => blank d (List.mem_cons_of_mem _ member)
      rw [List.cons_append, scanFrom_cons_blank (blank c List.mem_cons_self), ih others,
        Text.width_cons, Nat.add_assoc]

theorem scanFrom_blanks {blanks : List Char} (blank : Text.Blank blanks) (glued : Bool)
    (offset : Nat) : scanFrom blanks 0 glued offset = [] := by
  cases blanks with
  | nil => rfl
  | cons c blanks =>
      have others : Text.Blank blanks := fun d member => blank d (List.mem_cons_of_mem _ member)
      have passed := scanFrom_leading others [] (offset + c.utf8Size)
      rw [List.append_nil, scanFrom_nil] at passed
      rw [scanFrom_cons_blank (blank c List.mem_cons_self), passed]

/-- A lexeme that ends before some blanks is followed by what stands before them. -/
theorem scanFrom_within {body more blanks : List Char} (blank : Text.Blank blanks)
    (read : Lexeme.read glued c (body ++ (more ++ blanks)) = lexeme)
    (taken : (body ++ (more ++ blanks)).take lexeme.more = body) :
    scanFrom (c :: (body ++ more)) 0 glued offset =
      lexeme.tokens (c :: body) offset ++
        scanFrom more 0 lexeme.kind?.isSome (offset + Text.width (c :: body)) := by
  obtain ⟨taken', ends⟩ := take_append_eq taken
  apply scanFrom_cons glued offset c _ taken'
  rw [← read, ← List.append_assoc] at ends ⊢
  exact (Lexeme.read_trailing blank ends).symm

/-- No comment is opened by blanks. -/
theorem opens_of_append {behind rest : List Char} (blank : Text.Blank behind)
    (opens : cs ++ behind = '/' :: rest ∨ cs ++ behind = '*' :: rest) :
    ∃ inner, cs = '/' :: inner ∨ cs = '*' :: inner := by
  cases cs with
  | nil =>
      rcases opens with rfl | rfl
      · cases blank '/' List.mem_cons_self
      · cases blank '*' List.mem_cons_self
  | cons d inner =>
      rcases opens with same | same
      · exact ⟨inner, .inl (congrArg (· :: inner) (List.cons.inj same).1)⟩
      · exact ⟨inner, .inr (congrArg (· :: inner) (List.cons.inj same).1)⟩

/-- What is skipped together with blanks behind a text is skipped without them, too. -/
theorem scanFrom_skipped {behind : List Char} (blank : Text.Blank behind)
    (skipped : (Lexeme.read glued c (cs ++ behind)).kind? = none)
    (beyond : cs.length < (Lexeme.read glued c (cs ++ behind)).more) :
    scanFrom (c :: cs) 0 glued offset = [] := by
  rcases Lexeme.read_skipped skipped with first | ⟨rfl, rest, opens⟩
  · rw [Lexeme.read, if_pos first] at beyond
    cases beyond
  · obtain ⟨inner, opens⟩ := opens_of_append blank opens
    have all : cs.length ≤ (Lexeme.read glued '/' cs).more := by
      apply Nat.le_of_not_lt
      intro ends
      rw [Lexeme.read_comment_append opens ends] at beyond
      exact Nat.lt_asymm beyond ends
    rw [scanFrom]
    dsimp only
    rw [Lexeme.read_comment opens]
    dsimp only
    rw [scanFrom_pending, List.drop_of_length_le all, scanFrom_nil]

/-- A token that takes in blanks has one at its end. -/
theorem endsBlank_of_append {kind : TokenKind} {span : Span} {front blanks : List Char}
    (blank : Text.Blank blanks) (some : blanks ≠ []) :
    endsBlank ⟨kind, String.ofList (front ++ blanks), span⟩ = true := by
  rw [endsBlank, String.toList_ofList, List.getLast?_append, List.getLast?_eq_some_getLast some]
  exact blank _ (List.getLast_mem some)

theorem Closed.single {token : Token} (closed : Closed [token]) : token.endsBlank = false :=
  closed token rfl

theorem Closed.behind {left right : List Token} (closed : Closed (left ++ right)) :
    Closed right := by
  intro token last
  apply closed
  rw [List.getLast?_append, last]
  rfl

/-- A lexeme that takes in blanks behind a text, and is no token, leaves nothing of the text. -/
theorem scanFrom_beyond {some tail : List Char} (blank : Text.Blank (some ++ tail))
    (present : some ≠ [])
    (read : Lexeme.read glued c (cs ++ (some ++ tail)) = lexeme)
    (taken : (cs ++ (some ++ tail)).take lexeme.more = cs ++ some)
    (closed : Closed (lexeme.tokens (c :: cs ++ some) offset)) :
    lexeme.tokens (c :: cs ++ some) offset = scanFrom (c :: cs) 0 glued offset := by
  unfold Lexeme.tokens at closed ⊢
  cases kind : lexeme.kind? with
  | none =>
      have beyond : cs.length < lexeme.more := by
        have enough := congrArg List.length taken
        have more := List.length_pos_iff.mpr present
        simp only [List.length_take, List.length_append] at enough
        omega
      rw [← read] at kind beyond
      exact (scanFrom_skipped blank kind beyond).symm
  | some found =>
      have taking : Text.Blank some := fun d member => blank d (List.mem_append_left tail member)
      rw [kind] at closed
      have ends := closed.single
      rw [endsBlank_of_append taking present] at ends
      cases ends

/-- The front of a text in two parts ends within the first part or takes in some of the second. -/
theorem front_cases {first second front rest : List Char}
    (split : first ++ second = front ++ rest) :
    (∃ more, first = front ++ more ∧ rest = more ++ second) ∨
      ∃ some, some ≠ [] ∧ front = first ++ some ∧ second = some ++ rest := by
  rcases List.append_eq_append_iff.mp split with ⟨some, fronts, seconds⟩ | within
  · cases some with
    | nil =>
        left
        exact ⟨[], by rw [fronts, List.append_nil, List.append_nil], seconds.symm⟩
    | cons d some =>
        right
        exact ⟨d :: some, List.cons_ne_nil _ _, fronts, seconds⟩
  · exact .inl within

/-- Blanks behind a text that no token takes in are passed over. -/
theorem scanFrom_trailing {blanks : List Char} (blank : Text.Blank blanks)
    (closed : Closed (scanFrom (cs ++ blanks) 0 glued offset)) :
    scanFrom (cs ++ blanks) 0 glued offset = scanFrom cs 0 glued offset := by
  induction length : cs.length using Nat.strongRecOn generalizing cs glued offset with
  | ind size ih =>
      cases cs with
      | nil => rw [List.nil_append, scanFrom_blanks blank, scanFrom_nil]
      | cons c cs =>
          obtain ⟨lexeme, body, tail, split, read, taken⟩ := exists_lexeme glued c (cs ++ blanks)
          rw [List.cons_append, split, scanFrom_cons glued offset c read taken] at closed ⊢
          rcases front_cases split with ⟨more, rfl, rfl⟩ | ⟨some, present, rfl, rfl⟩
          · have shorter : more.length < size := by
              rw [← length, List.length_cons, List.length_append]
              omega
            rw [scanFrom_within blank read taken, ih _ shorter closed.behind rfl]
          · have left : Text.Blank tail := fun d member =>
              blank d (List.mem_append_right some member)
            rw [scanFrom_blanks left, List.append_nil] at closed ⊢
            rw [← split] at read taken
            exact scanFrom_beyond blank present read taken closed

end

/-- The tokens of a text are those of the text without the blanks at its ends, moved. -/
theorem scan_trim {text : String} (closed : Closed (scan text)) :
    ∃ distance, scan text = (scan (Text.trim text)).map (shift distance) := by
  obtain ⟨before, after, whole, leading, trailing⟩ := Text.exists_trimChars text.toList
  refine ⟨Text.width before, ?_⟩
  rw [scan, whole, List.append_assoc, scanFrom_leading leading] at closed ⊢
  rw [scanFrom_trailing trailing closed, scanFrom_shift, scan, Text.trim, String.toList_ofList]

end Token

end Esql
