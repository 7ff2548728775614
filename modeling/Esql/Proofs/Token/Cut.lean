import Esql.Proofs.Text.Separator
import Esql.Proofs.Token.Scanned

/-!
# Cutting a text between tokens

A text that is cut behind a lexeme, before a separator, is scanned up to the cut as if nothing had
been cut off. Every look-ahead of the scanner is covered: points, exponents, doubled quotes and
marks of two characters are decided without the separator.
-/

namespace Esql.Lexeme

variable {separator : Char} {front rest : List Char}

theorem takeWhile_cut {member : Char → Bool} (outside : member separator = false) :
    (front ++ separator :: rest).takeWhile member = front.takeWhile member := by
  induction front with
  | nil => simp [outside]
  | cons c front ih => simp only [List.cons_append, List.takeWhile_cons, ih]

theorem runLength_cut {member : Char → Bool} (outside : member separator = false) :
    runLength member (front ++ separator :: rest) = runLength member front :=
  congrArg List.length (takeWhile_cut outside)

theorem runLength_le (member : Char → Bool) (cs : List Char) : runLength member cs ≤ cs.length :=
  (List.takeWhile_sublist member).length_le

theorem name_cut (c : Char) (stops : Text.isStop separator = true) :
    name c (front ++ separator :: rest) = name c front := by
  unfold name
  dsimp only
  rw [runLength_cut (Text.not_continuesName_of_isStop stops),
    List.take_append_of_le_length (runLength_le _ _)]

theorem parameter_cut (stops : Text.isStop separator = true) :
    parameter (front ++ separator :: rest) = parameter front := by
  unfold parameter
  dsimp only
  rw [runLength_cut (Text.not_continuesName_of_isStop stops),
    List.take_append_of_le_length (runLength_le _ _)]

theorem any_head?_cut {member : Char → Bool} (outside : member separator = false) :
    (front ++ separator :: rest).head?.any member = front.head?.any member := by
  cases front with
  | nil => simp [outside]
  | cons c front => rfl

theorem fractionLength_cut (stops : Text.isStop separator = true) :
    fractionLength (front ++ separator :: rest) = fractionLength front := by
  have noPoint : separator ≠ '.' := Text.ne_of_isStop stops (by decide)
  cases front with
  | nil =>
      rw [List.nil_append, fractionLength]
      · rfl
      · intro tail same
        exact noPoint (List.cons.inj same).1
  | cons c front =>
      by_cases point : c = '.'
      · subst point
        simp only [List.cons_append, fractionLength,
          any_head?_cut (Text.not_startsName_of_isStop stops),
          runLength_cut (Text.not_isDigit_of_isStop stops)]
      · have other (cs : List Char) : fractionLength (c :: cs) = 0 := by
          rw [fractionLength]
          intro tail same
          exact point (List.cons.inj same).1
        rw [List.cons_append, other, other]

theorem fractionLength_le (cs : List Char) : fractionLength cs ≤ cs.length := by
  unfold fractionLength
  split
  · rename_i tail
    have bound := runLength_le Text.isDigit tail
    rw [List.length_cons]
    split <;> omega
  · exact Nat.zero_le _

/-- A separator is neither a sign nor a digit, so an exponent is read without it. -/
theorem exponentLength_cut (stops : Text.isStop separator = true) :
    exponentLength (front ++ separator :: rest) = exponentLength front := by
  have small : separator ≠ 'e' := Text.ne_of_isStop stops (by decide)
  have large : separator ≠ 'E' := Text.ne_of_isStop stops (by decide)
  have plus : separator ≠ '+' := Text.ne_of_isStop stops (by decide)
  have minus : separator ≠ '-' := Text.ne_of_isStop stops (by decide)
  have digit := Text.not_isDigit_of_isStop stops
  cases front with
  | nil => simp [exponentLength, small, large]
  | cons letter front =>
      have signs : (front ++ separator :: rest).head?.any (fun sign => sign == '+' || sign == '-') =
          front.head?.any fun sign => sign == '+' || sign == '-' :=
        any_head?_cut (by simp [plus, minus])
      simp only [List.cons_append, exponentLength, signs]
      cases signed : front.head?.any fun sign => sign == '+' || sign == '-' with
      | false => simp only [Bool.false_eq_true, if_false, any_head?_cut digit, runLength_cut digit]
      | true =>
          cases front with
          | nil => cases signed
          | cons c front =>
              simp only [if_true, List.cons_append, List.drop_succ_cons, List.drop_zero,
                any_head?_cut digit, runLength_cut digit]

theorem number_cut (stops : Text.isStop separator = true) :
    number (front ++ separator :: rest) = number front := by
  have digits := runLength_le Text.isDigit front
  have fraction := fractionLength_le (front.drop (runLength Text.isDigit front))
  rw [List.length_drop] at fraction
  unfold number
  dsimp only
  rw [runLength_cut (Text.not_isDigit_of_isStop stops),
    List.drop_append_of_le_length digits, fractionLength_cut stops,
    List.drop_append_of_le_length (by omega), exponentLength_cut stops]

theorem quotedBody_cons {c : Char} (plain : c ≠ '\x60') (cs : List Char) :
    quotedBody (c :: cs) =
      (c :: (quotedBody cs).1, (quotedBody cs).2.1 + 1, (quotedBody cs).2.2) := by
  rw [quotedBody]
  · intro tail same
    exact absurd same plain
  · exact plain

/-- A quoted name that ends before the cut ends at the same place without what follows. -/
theorem quotedBody_cut (separates : Text.isSeparator separator = true)
    (ends : (quotedBody (front ++ separator :: rest)).2.1 ≤ front.length) :
    quotedBody (front ++ separator :: rest) = quotedBody front := by
  have noQuote : separator ≠ '\x60' := Text.ne_of_isSeparator separates (by decide)
  fun_induction quotedBody front with
  | case1 =>
      rw [List.nil_append, quotedBody_cons noQuote] at ends
      cases ends
  | case2 front value length terminated inner ih =>
      simp only [List.cons_append, quotedBody, List.length_cons, Nat.add_le_add_iff_right] at ends ⊢
      rw [ih ends, inner]
  | case3 front once =>
      cases front with
      | nil => simp [quotedBody, noQuote]
      | cons c front =>
          have other : c ≠ '\x60' := by
            rintro rfl
            exact once front rfl
          simp [quotedBody, other]
  | case4 c front _ plain value length terminated inner ih =>
      rw [List.cons_append, quotedBody_cons plain] at ends ⊢
      rw [ih (Nat.le_of_succ_le_succ ends), inner]

theorem quotedName_cut (separates : Text.isSeparator separator = true)
    (ends : (quotedName (front ++ separator :: rest)).more ≤ front.length) :
    quotedName (front ++ separator :: rest) = quotedName front := by
  unfold quotedName at ends ⊢
  rw [quotedBody_cut separates ends]

theorem stringBody_cons {c : Char} (noEscape : c ≠ '\\') (noQuote : c ≠ '\x22')
    (cs : List Char) :
    stringBody (c :: cs) =
      (c :: (stringBody cs).1, (stringBody cs).2.1 + 1, (stringBody cs).2.2) := by
  rw [stringBody]
  · intro same
    exact absurd same noEscape
  · intro d tail same
    exact absurd same noEscape
  · exact noQuote

theorem ne_backslash {c : Char} {others : List Char}
    (notLast : c = '\\' → others = [] → False)
    (notFirst : ∀ d rest, c = '\\' → others = d :: rest → False) : c ≠ '\\' := by
  intro same
  cases others with
  | nil => exact notLast same rfl
  | cons d rest => exact notFirst d rest same rfl

/-- A string that ends before the cut ends at the same place without what follows. -/
theorem stringBody_cut (separates : Text.isSeparator separator = true)
    (ends : (stringBody (front ++ separator :: rest)).2.1 ≤ front.length) :
    stringBody (front ++ separator :: rest) = stringBody front := by
  have noQuote : separator ≠ '\x22' := Text.ne_of_isSeparator separates (by decide)
  have noEscape : separator ≠ '\\' := Text.ne_of_isSeparator separates (by decide)
  fun_induction stringBody front with
  | case1 =>
      rw [List.nil_append, stringBody_cons noEscape noQuote] at ends
      cases ends
  | case2 =>
      simp only [List.cons_append, List.nil_append, stringBody, List.length_cons,
        List.length_nil] at ends
      omega
  | case3 c front value length terminated inner ih =>
      simp only [List.cons_append, stringBody, List.length_cons, Nat.add_le_add_iff_right] at ends ⊢
      rw [ih ends, inner]
  | case4 front => simp only [List.cons_append, stringBody]
  | case5 c front noEnd noPair plain value length terminated inner ih =>
      rw [List.cons_append, stringBody_cons (ne_backslash noEnd noPair) plain] at ends ⊢
      rw [ih (Nat.le_of_succ_le_succ ends), inner]

/-- A mark that is found before the cut is found at the same place without what follows. -/
theorem splitAtFirst?_cut {mark before after : List Char}
    (found : Text.splitAtFirst? mark (front ++ rest) = some (before, after))
    (ends : before.length + mark.length ≤ front.length) :
    ∃ left, Text.splitAtFirst? mark front = some (before, left) := by
  induction front generalizing before with
  | nil =>
      rw [List.length_nil, Nat.le_zero] at ends
      obtain ⟨noBefore, noMark⟩ := Nat.add_eq_zero_iff.mp ends
      rw [List.length_eq_zero_iff] at noBefore noMark
      subst noBefore noMark
      exact ⟨[], rfl⟩
  | cons c front ih =>
      rw [List.cons_append, Text.splitAtFirst?] at found
      rw [Text.splitAtFirst?]
      split at found
      · rename_i starts
        simp only [Option.some.injEq, Prod.mk.injEq] at found
        rw [← found.1, List.length_nil, Nat.zero_add] at ends
        rw [List.isPrefixOf_iff_prefix, ← List.cons_append] at starts
        have shorter := List.prefix_of_prefix_length_le starts (List.prefix_append _ _) ends
        rw [if_pos (List.isPrefixOf_iff_prefix.mpr shorter), ← found.1]
        exact ⟨_, rfl⟩
      · rename_i differs
        obtain ⟨⟨inner, tail⟩, inside, same⟩ := Option.map_eq_some_iff.mp found
        simp only [Prod.mk.injEq] at same
        obtain ⟨rfl, rfl⟩ := same
        obtain ⟨left, shorter⟩ := ih inside (by
          rw [List.length_cons, List.length_cons] at ends
          omega)
        rw [if_neg, shorter]
        · exact ⟨left, rfl⟩
        · intro starts
          rw [List.isPrefixOf_iff_prefix] at starts differs
          exact differs (starts.trans (List.prefix_append _ _))

theorem throughMark_cut {mark : List Char} (ends : throughMark mark (front ++ rest) ≤ front.length)
    (more : rest ≠ []) : throughMark mark (front ++ rest) = throughMark mark front := by
  unfold throughMark at ends ⊢
  cases found : Text.splitAtFirst? mark (front ++ rest) with
  | none =>
      simp only [found, List.length_append] at ends
      exact absurd (List.length_eq_zero_iff.mp (by omega)) more
  | some parts =>
      simp only [found] at ends
      obtain ⟨left, inFront⟩ := splitAtFirst?_cut found ends
      rw [inFront]

theorem lineComment_cons (c : Char) (cs : List Char) :
    lineComment (c :: cs) = if c = '\n' then 1 else lineComment cs + 1 := by
  unfold lineComment runLength
  by_cases newline : c = '\n'
  · simp [newline]
  · simp only [List.takeWhile_cons, bne_iff_ne, ne_eq, newline, not_false_eq_true, if_true,
      List.length_cons, Nat.add_lt_add_iff_right, if_false]
    split <;> rfl

theorem lineComment_cut (ends : lineComment (front ++ rest) ≤ front.length) (more : rest ≠ []) :
    lineComment (front ++ rest) = lineComment front := by
  have beyond : 0 < rest.length := List.length_pos_iff.mpr more
  induction front with
  | nil =>
      unfold lineComment at ends
      dsimp only at ends
      rw [List.nil_append, List.length_nil] at ends
      split at ends <;> omega
  | cons c front ih =>
      rw [List.cons_append, lineComment_cons] at ends ⊢
      rw [lineComment_cons]
      split
      · rfl
      · rename_i other
        rw [if_neg other, List.length_cons, Nat.add_le_add_iff_right] at ends
        rw [ih ends]

theorem rawString_cut (ends : (rawString (front ++ rest)).more ≤ front.length + 2)
    (more : rest ≠ []) : rawString (front ++ rest) = rawString front := by
  unfold rawString at ends ⊢
  cases found : Text.splitAtFirst? tripleQuote (front ++ rest) with
  | none =>
      simp only [found, token, List.length_append] at ends
      exact absurd (List.length_eq_zero_iff.mp (by omega)) more
  | some parts =>
      simp only [found, token] at ends
      have length : tripleQuote.length = 3 := rfl
      obtain ⟨left, inFront⟩ := splitAtFirst?_cut found (by omega)
      rw [inFront]

theorem quotedString_single {cs : List Char} (plain : ∀ tail, cs ≠ '\x22' :: '\x22' :: tail) :
    quotedString cs =
      token (.string (String.ofList (stringBody cs).1) (stringBody cs).2.2)
        (stringBody cs).2.1 := by
  rw [quotedString]
  exact plain

/-- A string ends at the same place without what follows, in single and in triple quotes. -/
theorem quotedString_cut (separates : Text.isSeparator separator = true)
    (ends : (quotedString (front ++ separator :: rest)).more ≤ front.length) :
    quotedString (front ++ separator :: rest) = quotedString front := by
  have noQuote : separator ≠ '\x22' := Text.ne_of_isSeparator separates (by decide)
  by_cases triple : ∃ tail, front = '\x22' :: '\x22' :: tail
  · obtain ⟨tail, rfl⟩ := triple
    exact rawString_cut ends (List.cons_ne_nil _ _)
  · have plain : ∀ tail, front ≠ '\x22' :: '\x22' :: tail := fun tail same => triple ⟨tail, same⟩
    have longer : ∀ tail, front ++ separator :: rest ≠ '\x22' :: '\x22' :: tail := by
      intro tail same
      rcases front with _ | ⟨c, _ | ⟨d, front⟩⟩
      · exact noQuote (List.cons.inj same).1
      · exact noQuote (List.cons.inj (List.cons.inj same).2).1
      · simp only [List.cons_append, List.cons.injEq] at same
        exact plain front (by rw [same.1, same.2.1])
    rw [quotedString_single longer] at ends ⊢
    rw [quotedString_single plain, stringBody_cut separates ends]

/-- Only an equals sign or a colon makes a mark of two characters. -/
theorem mark_eq {next : Char} (noEqual : next ≠ '=') (noColon : next ≠ ':') (c : Char) :
    mark c (some next) = mark c none := by
  unfold mark
  split <;> simp_all

theorem mark_cut (separates : Text.isSeparator separator = true) (c : Char) :
    mark c (front ++ separator :: rest).head? = mark c front.head? := by
  cases front with
  | nil =>
      exact mark_eq (Text.ne_of_isSeparator separates (by decide))
        (Text.ne_of_isSeparator separates (by decide)) c
  | cons d front => rfl

theorem startsNumber_cut (stops : Text.isStop separator = true) (glued : Bool)
    (c : Char) :
    startsNumber glued c (front ++ separator :: rest) = startsNumber glued c front := by
  unfold startsNumber
  rw [any_head?_cut (Text.not_isDigit_of_isStop stops)]

/-- What is no comment is read without the separator behind it. -/
theorem read_plain_cut {glued : Bool} {c : Char} (separates : Text.isSeparator separator = true)
    (noLine : (c == '/' && (front ++ separator :: rest).head? == some '/') = false)
    (noBlock : (c == '/' && (front ++ separator :: rest).head? == some '*') = false)
    (noLine' : (c == '/' && front.head? == some '/') = false)
    (noBlock' : (c == '/' && front.head? == some '*') = false)
    (ends : (read glued c (front ++ separator :: rest)).more ≤ front.length) :
    read glued c (front ++ separator :: rest) = read glued c front := by
  have stops := Text.isStop_of_isSeparator separates
  unfold read at ends ⊢
  simp only [noLine, noBlock, noLine', noBlock', startsNumber_cut stops, name_cut c stops,
    parameter_cut stops, mark_cut separates, Bool.false_eq_true, if_false] at ends ⊢
  split
  · rfl
  split
  · rfl
  split
  · have whole : number (c :: front ++ separator :: rest) = number (c :: front) :=
      number_cut stops
    exact whole
  split
  · rename_i notBlank notName notNumber quoted
    simp only [notBlank, notName, notNumber, quoted, if_true] at ends
    exact quotedName_cut separates ends
  split
  · rename_i notBlank notName notNumber notQuoted string
    simp only [notBlank, notName, notNumber, notQuoted, string, if_true] at ends
    exact quotedString_cut separates ends
  · rfl

theorem read_lineComment (glued : Bool) (cs : List Char) :
    read glued '/' ('/' :: cs) = skip (1 + lineComment cs) := rfl

theorem read_blockComment (glued : Bool) (cs : List Char) :
    read glued '/' ('*' :: cs) = skip (1 + throughMark ['*', '/'] cs) := rfl

/-- A number starts with a digit, or with a point and a digit behind it. -/
theorem startsNumber_cases {glued : Bool} {c : Char} {cs : List Char}
    (starts : startsNumber glued c cs = true) :
    Text.isDigit c = true ∨ c = '.' ∧ cs.head?.any Text.isDigit = true := by
  rw [startsNumber, Bool.or_eq_true, Bool.and_eq_true, Bool.and_eq_true, beq_iff_eq] at starts
  exact starts.imp_right And.left

theorem read_eq_number {glued : Bool} {c : Char} {cs : List Char}
    (noBlank : ¬ Text.isBlank c = true) (noName : Text.startsName c = false)
    (starts : startsNumber glued c cs = true) : read glued c cs = number (c :: cs) := by
  have slash : c ≠ '/' := by
    rintro rfl
    cases starts
  simp only [read, if_neg noBlank, beq_eq_false_iff_ne.mpr slash, Bool.false_and, noName, starts,
    if_true, Bool.false_eq_true, if_false]

/-- A lexeme that ends before a separator is read without anything from the separator on. -/
theorem read_cut {glued : Bool} {c : Char} (separates : Text.isSeparator separator = true)
    (ends : (read glued c (front ++ separator :: rest)).more ≤ front.length) :
    read glued c (front ++ separator :: rest) = read glued c front := by
  have noStar : separator ≠ '*' := Text.ne_of_isSeparator separates (by decide)
  have more : separator :: rest ≠ [] := List.cons_ne_nil _ _
  by_cases slash : c = '/'
  · subst slash
    cases front with
    | nil =>
        by_cases line : separator = '/'
        · subst line
          rw [List.nil_append, read_lineComment] at ends
          cases Nat.le_trans (Nat.le_add_right 1 _) ends
        · exact read_plain_cut separates (by simp [line]) (by simp [noStar]) rfl rfl ends
    | cons d front =>
        by_cases line : d = '/'
        · subst line
          rw [List.cons_append, read_lineComment] at ends ⊢
          simp only [skip, List.length_cons] at ends
          rw [read_lineComment, lineComment_cut (by omega) more]
        by_cases block : d = '*'
        · subst block
          rw [List.cons_append, read_blockComment] at ends ⊢
          simp only [skip, List.length_cons] at ends
          rw [read_blockComment, throughMark_cut (by omega) more]
        · exact read_plain_cut separates (by simp [line]) (by simp [block]) (by simp [line])
            (by simp [block]) ends
  · exact read_plain_cut separates (by simp [slash]) (by simp [slash]) (by simp [slash])
      (by simp [slash]) ends

theorem quotedString_kind? (cs : List Char) :
    ∃ value terminated, (quotedString cs).kind? = some (.string value terminated) := by
  unfold quotedString rawString
  split
  · split <;> exact ⟨_, _, rfl⟩
  · exact ⟨_, _, rfl⟩

theorem mark_kind? (c : Char) (next : Option Char) :
    ∃ kind, (mark c next).kind? = some kind ∧ (kind = .pipe → c = '|') := by
  unfold mark
  split <;> refine ⟨_, rfl, ?_⟩ <;> intro same <;> first | rfl | cases same

/-- Only blanks and comments are no tokens, and only a pipe is read as one. -/
theorem read_kind? (glued : Bool) (c : Char) (cs : List Char) :
    (read glued c cs).kind? = none ∧ Text.isSeparator c = true ∨
      ∃ kind, (read glued c cs).kind? = some kind ∧ (kind = .pipe → c = '|') := by
  unfold read
  split
  · rename_i blank
    exact .inl ⟨rfl, by simp [Text.isSeparator, blank]⟩
  split
  · rename_i comment
    exact .inl ⟨rfl, by simp_all [Text.isSeparator]⟩
  split
  · rename_i comment
    exact .inl ⟨rfl, by simp_all [Text.isSeparator]⟩
  right
  split
  · unfold name
    dsimp only
    split <;> exact ⟨_, rfl, TokenKind.noConfusion⟩
  split
  · unfold number
    dsimp only
    split <;> exact ⟨_, rfl, TokenKind.noConfusion⟩
  split
  · exact ⟨_, rfl, TokenKind.noConfusion⟩
  split
  · obtain ⟨value, terminated, kind⟩ := quotedString_kind? cs
    exact ⟨_, kind, TokenKind.noConfusion⟩
  split
  · exact ⟨_, rfl, TokenKind.noConfusion⟩
  · exact mark_kind? c cs.head?

end Esql.Lexeme

namespace Esql.Token

/-- Nothing follows, or something before which a text may be cut. -/
def CutsBefore (rest : List Char) : Prop := ∀ c ∈ rest.head?, Text.isSeparator c = true

/-- The characters behind a run may be cut off if the scan goes on with a pipe or not at all. -/
theorem cutsBefore_of_scanFrom {rest : List Char} {glued : Bool} {offset : Nat}
    (pipe : ∀ token ∈ (scanFrom rest 0 glued offset).head?, token.kind = .pipe) :
    CutsBefore rest := by
  intro c first
  cases rest with
  | nil => cases first
  | cons d rest =>
      obtain rfl : d = c := Option.some.inj first
      rw [scanFrom] at pipe
      dsimp only at pipe
      rcases Lexeme.read_kind? glued d rest with ⟨_, separates⟩ | ⟨kind, found, onlyPipe⟩
      · exact separates
      · rw [found] at pipe
        rw [onlyPipe (pipe _ rfl)]
        rfl

/-- How many characters a lexeme takes, when more of them may follow. -/
theorem take_append_eq {body front rest : List Char} {count : Nat}
    (taken : (body ++ (front ++ rest)).take count = body) :
    (body ++ front).take count = body ∧ (rest ≠ [] → count ≤ (body ++ front).length) := by
  have lengths := congrArg List.length taken
  simp only [List.length_take, List.length_append] at lengths ⊢
  refine ⟨?_, ?_⟩
  · rcases Nat.lt_or_ge body.length count with long | short
    · have nothing : front = [] := List.length_eq_zero_iff.mp (by omega)
      rw [nothing, List.append_nil, List.take_of_length_le (Nat.le_of_lt long)]
    · have exact : count = body.length := by omega
      rw [exact, List.take_left']
      rfl
  · intro more
    have beyond := List.length_pos_iff.mpr more
    omega

/-- A run before a separator is also a run over a text that ends there. -/
theorem Scanned.cut {glued after : Bool} {offset : Nat} {front rest : List Char}
    {tokens : List Token} (run : Scanned glued offset front rest tokens after)
    (cuts : CutsBefore rest) : Scanned glued offset front [] tokens after := by
  induction run with
  | nil => exact .nil
  | @cons glued after offset c body front rest lexeme tokens read taken tail ih =>
      have cut : Lexeme.read glued c (body ++ (front ++ [])) = lexeme := by
        cases rest with
        | nil => exact read
        | cons separator rest =>
            have ends := (take_append_eq taken).2 (List.cons_ne_nil _ _)
            rw [← List.append_assoc] at read
            rw [← read] at ends ⊢
            rw [Lexeme.read_cut (cuts separator rfl) ends, List.append_nil]
      refine .cons cut ?_ (ih cuts)
      rw [List.append_nil]
      exact (take_append_eq taken).1

end Esql.Token
