import Esql.Proofs.Token.Lexemes

/-!
# Tokens by themselves

A token scanned by itself is the same token. What the scanner looks at before or behind a lexeme
keeps a point from starting a number or a fraction, a letter from starting an exponent and a mark
from taking a second character. None of these is part of the lexeme then, so nothing changes without
them.
-/

namespace Esql

namespace Lexeme

variable {glued : Bool} {c : Char} {cs : List Char} {kind : TokenKind} {count more : Nat}

/-! ## Looking ahead within what is taken -/

theorem any_head?_take (member : Char → Bool) (some : 0 < count) :
    (cs.take count).head?.any member = cs.head?.any member := by
  rw [List.head?_take, if_neg (Nat.pos_iff_ne_zero.mp some)]

theorem any_head?_of_take {member : Char → Bool}
    (front : (cs.take count).head?.any member = true) : cs.head?.any member = true := by
  cases count with
  | zero => cases front
  | succ count => rwa [any_head?_take member (Nat.succ_pos count)] at front

theorem runLength_take (member : Char → Bool) (cs : List Char) (count : Nat) :
    runLength member (cs.take count) = min count (runLength member cs) := by
  rw [runLength, ← List.take_takeWhile, List.length_take, runLength]

theorem runLength_pos {member : Char → Bool} (front : cs.head?.any member = true) :
    0 < runLength member cs := by
  cases cs with
  | nil => cases front
  | cons d rest =>
      rw [runLength, List.takeWhile_cons_of_pos (Option.any_some.symm.trans front)]
      exact Nat.succ_pos _

/-! ## Numbers -/

theorem fractionLength_cons (other : c ≠ '.') (cs : List Char) : fractionLength (c :: cs) = 0 := by
  rw [fractionLength]
  intro tail same
  exact other (List.cons.inj same).1

/-- A fraction is read without what stands behind it. A point that starts none may not be left, for
alone it would start one. -/
theorem fractionLength_take (enough : fractionLength cs ≤ count)
    (none : cs.head? = some '.' → fractionLength cs = 0 → count = 0) :
    fractionLength (cs.take count) = fractionLength cs := by
  cases count with
  | zero => exact (Nat.le_zero.mp enough).symm
  | succ count =>
      cases cs with
      | nil => rfl
      | cons d rest =>
          rw [List.take_succ_cons]
          by_cases point : d = '.'
          · subst point
            cases named : rest.head?.any Text.startsName with
            | true =>
                refine absurd (none rfl ?_) (Nat.succ_ne_zero count)
                rw [fractionLength, if_pos named]
            | false =>
                have shorter : ¬ (rest.take count).head?.any Text.startsName = true := fun front =>
                  absurd (any_head?_of_take front) (Bool.eq_false_iff.mp named)
                rw [fractionLength, named, if_neg Bool.false_ne_true] at enough
                rw [fractionLength, fractionLength, named, if_neg Bool.false_ne_true,
                  if_neg shorter, runLength_take]
                omega
          · rw [fractionLength_cons point, fractionLength_cons point]

/-- The letter of an exponent, and a sign behind it if there is one. -/
def opensExponent : List Char → Bool
  | [letter] => letter == 'e' || letter == 'E'
  | [letter, sign] => (letter == 'e' || letter == 'E') && (sign == '+' || sign == '-')
  | _ => false

/-- An exponent takes what opens it and the digits behind that. -/
theorem exponentLength_append {lead digits : List Char} (opens : opensExponent lead = true)
    (digit : digits.head?.any Text.isDigit = true) :
    exponentLength (lead ++ digits) = lead.length + runLength Text.isDigit digits := by
  match lead, opens with
  | [letter], opens =>
      obtain ⟨d, front, first⟩ := (Option.any_eq_true _ _).mp digit
      have unsigned : digits.head?.any (fun sign => sign == '+' || sign == '-') = false := by
        rw [front, Option.any_some, Bool.or_eq_false_iff, beq_eq_false_iff_ne, beq_eq_false_iff_ne]
        constructor <;> (rintro rfl; cases first)
      have opens : (letter == 'e' || letter == 'E') = true := opens
      simp [exponentLength, opens, unsigned, digit]
  | [letter, sign], opens =>
      obtain ⟨exponent, signed⟩ := (Bool.and_eq_true _ _).mp opens
      simp [exponentLength, exponent, signed, digit]

/-- Where an exponent is read, it is opened, and digits follow. -/
theorem exists_exponent (some : exponentLength cs ≠ 0) :
    ∃ lead digits, cs = lead ++ digits ∧ opensExponent lead = true ∧
      digits.head?.any Text.isDigit = true := by
  cases cs with
  | nil => exact absurd rfl some
  | cons letter rest =>
      rw [exponentLength] at some
      split at some
      · rename_i exponent
        dsimp only at some
        cases signed : rest.head?.any fun sign => sign == '+' || sign == '-' with
        | false =>
            simp only [signed, Bool.false_eq_true, if_false] at some
            exact ⟨[letter], rest, rfl, exponent, by_contra fun none => some (if_neg none)⟩
        | true =>
            cases rest with
            | nil => cases signed
            | cons sign digits =>
                simp only [signed, if_true, List.drop_succ_cons, List.drop_zero] at some
                exact ⟨[letter, sign], digits, rfl, (Bool.and_eq_true _ _).mpr ⟨exponent, signed⟩,
                  by_contra fun none => some (if_neg none)⟩
      · exact absurd rfl some

/-- An exponent is read without what stands behind it. -/
theorem exponentLength_take (cs : List Char) :
    exponentLength (cs.take (exponentLength cs)) = exponentLength cs := by
  by_cases none : exponentLength cs = 0
  · rw [none]
    rfl
  · obtain ⟨lead, digits, rfl, opens, digit⟩ := exists_exponent none
    have some := runLength_pos digit
    rw [exponentLength_append opens digit, List.take_length_add_append,
      exponentLength_append opens ((any_head?_take _ some).trans digit), runLength_take,
      Nat.min_self]

theorem exponentLength_point (point : cs.head? = some '.') : exponentLength cs = 0 := by
  obtain ⟨rest, rfl⟩ := List.head?_eq_some_iff.mp point
  rfl

/-- How many characters a number takes: its digits, its fraction and its exponent. -/
def numberLength (cs : List Char) : Nat :=
  let digits := runLength Text.isDigit cs
  let fraction := fractionLength (cs.drop digits)
  digits + fraction + exponentLength (cs.drop (digits + fraction))

theorem number_more (cs : List Char) : (number cs).more = numberLength cs - 1 := rfl

theorem numberLength_pos (starts : startsNumber glued c cs = true) :
    0 < numberLength (c :: cs) := by
  refine Nat.add_pos_left ?_ _
  rcases startsNumber_cases starts with digit | ⟨rfl, digits⟩
  · have front : (c :: cs).head?.any Text.isDigit = true := digit
    exact Nat.add_pos_left (runLength_pos front) _
  · have none : runLength Text.isDigit ('.' :: cs) = 0 := rfl
    rw [none, List.drop_zero, fractionLength_point digits]
    omega

theorem number_take_length (cs : List Char) : number (cs.take (numberLength cs)) = number cs := by
  unfold numberLength number
  dsimp only
  generalize first : runLength Text.isDigit cs = digits
  generalize second : fractionLength (cs.drop digits) = fraction
  generalize third : exponentLength (cs.drop (digits + fraction)) = exponent
  have front : runLength Text.isDigit (cs.take (digits + fraction + exponent)) = digits := by
    rw [runLength_take, first]
    omega
  have middle : fractionLength ((cs.take (digits + fraction + exponent)).drop digits) =
      fraction := by
    rw [List.drop_take, Nat.add_assoc, Nat.add_sub_cancel_left, ← second]
    -- Behind a point that starts no fraction there is no exponent either, so nothing is left.
    refine fractionLength_take (Nat.le_add_right _ _) fun point none => ?_
    rw [none, Nat.zero_add, ← third, ← second, none]
    exact exponentLength_point point
  have back : exponentLength ((cs.take (digits + fraction + exponent)).drop (digits + fraction)) =
      exponent := by
    rw [List.drop_take, Nat.add_sub_cancel_left, ← third]
    exact exponentLength_take _
  rw [front, middle, back]

/-- A number is read without what stands behind it. -/
theorem number_take (starts : startsNumber glued c cs = true) :
    number (c :: cs.take (number (c :: cs)).more) = number (c :: cs) := by
  obtain ⟨count, length⟩ := Nat.exists_eq_add_of_le' (numberLength_pos starts)
  rw [number_more, length, Nat.add_sub_cancel, ← List.take_succ_cons, ← length]
  exact number_take_length (c :: cs)

/-! ## Quotes -/

/-- A name in backticks is read without what stands behind it. -/
theorem quotedBody_take (cs : List Char) :
    quotedBody (cs.take (quotedBody cs).2.1) = quotedBody cs := by
  fun_induction quotedBody cs with
  | case1 => rfl
  | case2 rest value length terminated inner ih =>
      rw [inner] at ih
      rw [List.take_succ_cons, List.take_succ_cons, quotedBody, ih]
  | case3 rest once => rfl
  | case4 c rest _ plain value length terminated inner ih =>
      rw [inner] at ih
      rw [List.take_succ_cons, quotedBody_cons plain, ih]

theorem quotedName_take (cs : List Char) :
    quotedName (cs.take (quotedName cs).more) = quotedName cs := by
  have body : quotedBody (cs.take (quotedName cs).more) = quotedBody cs := quotedBody_take cs
  rw [quotedName, body, quotedName]

theorem stringBody_take (cs : List Char) :
    stringBody (cs.take (stringBody cs).2.1) = stringBody cs := by
  fun_induction stringBody cs with
  | case1 => rfl
  | case2 => rfl
  | case3 c rest value length terminated inner ih =>
      rw [inner] at ih
      rw [List.take_succ_cons, List.take_succ_cons, stringBody, ih]
  | case4 rest => rfl
  | case5 c rest noEnd noPair plain value length terminated inner ih =>
      rw [inner] at ih
      rw [List.take_succ_cons, stringBody_cons (ne_backslash noEnd noPair) plain, ih]

theorem two_le_rawString (rest : List Char) : 2 ≤ (rawString rest).more := by
  unfold rawString token
  split <;> (dsimp only; omega)

/-- A raw string is read without what stands behind the quotes that close it. -/
theorem rawString_take {rest : List Char} (more : (rawString rest).more = count + 2) :
    rawString (rest.take count) = rawString rest := by
  cases found : Text.splitAtFirst? tripleQuote rest with
  | none =>
      have all : (rawString rest).more = 2 + rest.length := by
        rw [rawString, found]
        rfl
      rw [List.take_of_length_le (by omega)]
  | some parts =>
      obtain ⟨before, after⟩ := parts
      have body : (rawString rest).more = 2 + before.length + 3 := by
        rw [rawString, found]
        rfl
      have quotes : tripleQuote.length = 3 := rfl
      have enough := congrArg List.length (Text.splitAtFirst?_append found)
      rw [List.length_append, List.length_append] at enough
      rw [← List.take_append_drop count rest] at found
      obtain ⟨left, within⟩ := splitAtFirst?_cut found (by rw [List.length_take]; omega)
      rw [List.take_append_drop] at found
      rw [rawString, rawString, within, found]

theorem quotedString_take (cs : List Char) :
    quotedString (cs.take (quotedString cs).more) = quotedString cs := by
  by_cases triple : ∃ rest, cs = '\x22' :: '\x22' :: rest
  · obtain ⟨rest, rfl⟩ := triple
    obtain ⟨count, more⟩ := Nat.exists_eq_add_of_le' (two_le_rawString rest)
    have taken : (quotedString ('\x22' :: '\x22' :: rest)).more = count + 2 := more
    rw [taken, List.take_succ_cons, List.take_succ_cons]
    exact rawString_take more
  · have plain (tail : List Char) : cs ≠ '\x22' :: '\x22' :: tail := fun same => triple ⟨tail, same⟩
    have taken (count : Nat) (tail : List Char) : cs.take count ≠ '\x22' :: '\x22' :: tail := by
      intro same
      refine plain (tail ++ cs.drop count) ?_
      rw [← List.cons_append, ← List.cons_append, ← same, List.take_append_drop]
    have body : stringBody (cs.take (quotedString cs).more) = stringBody cs := by
      rw [quotedString_single plain]
      exact stringBody_take cs
    rw [quotedString_single (taken _), body, quotedString_single plain]

/-- A parameter is read without what stands behind it. -/
theorem parameter_take (cs : List Char) :
    parameter (cs.take (parameter cs).more) = parameter cs := by
  have same : runLength Text.continuesName (cs.take (parameter cs).more) = (parameter cs).more := by
    rw [runLength_take]
    exact Nat.min_self _
  rw [parameter, same, List.take_take, Nat.min_self]
  rfl

/-! ## Marks -/

/-- A mark takes one character, and the next only if that makes it another mark. -/
theorem mark_cases (c : Char) (next : Option Char) :
    ((mark c next).more = 0 ∧ mark c none = mark c next) ∨ (mark c next).more = 1 := by
  unfold mark
  split
  case h_22 =>
    left
    refine ⟨rfl, ?_⟩
    split <;> first | contradiction | rfl
  all_goals first
    | exact .inr rfl
    | exact .inl ⟨rfl, rfl⟩

theorem mark_take (c : Char) (cs : List Char) :
    mark c (cs.take (mark c cs.head?).more).head? = mark c cs.head? := by
  rcases mark_cases c cs.head? with ⟨alone, same⟩ | two
  · rw [alone]
    exact same
  · rw [two, List.head?_take, if_neg Nat.one_ne_zero]

/-! ## Lexemes -/

/-- What starts a number starts it by itself as well. -/
theorem startsNumber_take (starts : startsNumber glued c cs = true) :
    startsNumber false c (cs.take (number (c :: cs)).more) = true := by
  rcases startsNumber_cases starts with digit | ⟨rfl, digits⟩
  · rw [startsNumber, digit, Bool.true_or]
  · have some : 0 < (number ('.' :: cs)).more := by
      have first := runLength_pos digits
      have length : numberLength ('.' :: cs) = 0 + fractionLength ('.' :: cs) +
          exponentLength (('.' :: cs).drop (0 + fractionLength ('.' :: cs))) := rfl
      rw [number_more, length, fractionLength_point digits]
      omega
    have front : (cs.take (number ('.' :: cs)).more).head?.any Text.isDigit = true :=
      (any_head?_take Text.isDigit some).trans digits
    simp [startsNumber, front]

/-- What starts no number where it stands starts none by itself if it is read as a mark: a point is
then left alone. -/
theorem startsNumber_mark (noNumber : startsNumber glued c cs = false) :
    startsNumber false c (cs.take (mark c cs.head?).more) = false := by
  by_cases point : c = '.'
  · subst point
    have alone : (mark '.' cs.head?).more = 0 := by cases cs <;> rfl
    rw [alone]
    rfl
  · rw [startsNumber, Bool.or_eq_false_iff] at noNumber
    rw [startsNumber, noNumber.1, beq_eq_false_iff_ne.mpr point]
    rfl

/-- A token is read without anything that stands before or behind it. -/
theorem read_take (some : (read glued c cs).kind? ≠ none) :
    read false c (cs.take (read glued c cs).more) = read glued c cs := by
  have noBlank : Text.isBlank c = false := by
    refine Bool.eq_false_iff.mpr fun blank => some ?_
    rw [read, if_pos blank]
    rfl
  have noComment : (c == '/' && Text.Source.opensComment cs) = false := by
    refine Bool.eq_false_iff.mpr fun opens => some ?_
    rw [Bool.and_eq_true, beq_iff_eq] at opens
    obtain ⟨rfl, opens⟩ := opens
    obtain ⟨rest, opens⟩ := exists_of_opensComment opens
    exact read_comment opens glued
  by_cases tick : c = '\x60'
  · subst tick
    rw [read_tick, read_tick]
    exact quotedName_take cs
  by_cases quote : c = '\x22'
  · subst quote
    rw [read_quote, read_quote]
    exact quotedString_take cs
  by_cases question : c = '?'
  · subst question
    rw [read_question, read_question]
    exact parameter_take cs
  cases noName : Text.startsName c with
  | true =>
      rw [Token.read_name noName glued, token, Token.read_name noName, ← List.take_takeWhile,
        List.take_length, token]
  | false =>
      cases number : startsNumber glued c cs with
      | true =>
          rw [read_eq_number (Bool.eq_false_iff.mp noBlank) noName number,
            read_eq_number (Bool.eq_false_iff.mp noBlank) noName (startsNumber_take number)]
          exact number_take number
      | false =>
          have unquoted : c ∉ ['?', '\x22', '\x60'] := by simp [tick, quote, question]
          have alone (count : Nat) :
              (c == '/' && Text.Source.opensComment (cs.take count)) = false := by
            refine Bool.eq_false_iff.mpr fun opens => Bool.eq_false_iff.mp noComment ?_
            rw [Bool.and_eq_true] at opens ⊢
            exact opens.imp_right any_head?_of_take
          rw [read_eq_mark noBlank noComment noName number unquoted,
            read_eq_mark noBlank (alone _) noName (startsNumber_mark number) unquoted]
          exact mark_take c cs

end Lexeme

namespace Token

/-- A token of a scan, scanned by itself, is one token of the same kind and the same text. -/
theorem scan_text_of_mem_scan {text : String} {token : Token} (member : token ∈ scan text) :
    scan token.text = [⟨token.kind, token.text, ⟨0, Text.byteLength token.text⟩⟩] := by
  obtain ⟨glued, c, rest, more, read, same⟩ := exists_read_of_mem_scanFrom member
  have some : (Lexeme.read glued c rest).kind? ≠ none := by
    rw [read]
    exact Option.some_ne_none _
  have alone : Lexeme.read false c (rest.take more) = .token token.kind more := by
    have taken := Lexeme.read_take some
    rwa [read] at taken
  have taken : (rest.take more ++ []).take more = rest.take more := by
    rw [List.append_nil, List.take_take, Nat.min_self]
  rw [← List.append_nil (rest.take more)] at alone
  have scanned := scanFrom_cons false 0 c alone taken
  rw [List.append_nil, scanFrom_nil, List.append_nil] at scanned
  rw [same, scan, String.toList_ofList, scanned, Text.byteLength, String.toList_ofList]
  simp [Lexeme.tokens, Lexeme.token]

/-- A point between a name and a digit. -/
theorem scan_text_of_mem_scan_point :
    ∃ token ∈ scan "a.5", token.text = "." ∧
      scan token.text = [⟨token.kind, token.text, ⟨0, Text.byteLength token.text⟩⟩] := by
  have scanned : scan "a.5" =
      [⟨.word "a", "a", ⟨0, 1⟩⟩, ⟨.dot, ".", ⟨1, 2⟩⟩, ⟨.integer, "5", ⟨2, 3⟩⟩] := by
    decide +kernel
  have member : ⟨.dot, ".", ⟨1, 2⟩⟩ ∈ scan "a.5" := by
    rw [scanned]
    exact .tail _ (.head _)
  exact ⟨_, member, rfl, scan_text_of_mem_scan member⟩

end Token

end Esql
