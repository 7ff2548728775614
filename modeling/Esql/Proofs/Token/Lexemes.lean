import Esql.Proofs.Text.Sources
import Esql.Proofs.Token.Blank
import Esql.Proofs.Token.Spelled

/-!
# Lexemes in source names

A lexeme that opens neither quotes nor a comment takes characters of a bare name, or it ends the
name, as the characters alone decide. What opens quotes never has a longer value than what is read
for it.
-/

namespace Esql

open Text.Source Grammar

namespace Lexeme

variable {glued : Bool} {c : Char} {cs tail : List Char} {kind : TokenKind} {more : Nat}

theorem take_runLength (member : Char → Bool) (cs : List Char) :
    cs.take (runLength member cs) = cs.takeWhile member :=
  (List.prefix_iff_eq_take.mp (List.takeWhile_prefix member)).symm

theorem isPlain_of_isDigit (digit : Text.isDigit c = true) : isPlain c = true :=
  isPlain_of_continuesName (Text.continuesName_of_isDigit digit)

theorem isPlain_of_mem_digits (cs : List Char) :
    ∀ c ∈ cs.take (runLength Text.isDigit cs), isPlain c = true := by
  rw [take_runLength]
  exact fun c member => isPlain_of_isDigit (List.all_eq_true.mp List.all_takeWhile c member)

theorem isPlain_of_mem_fraction (cs : List Char) :
    ∀ c ∈ cs.take (fractionLength cs), isPlain c = true := by
  unfold fractionLength
  split
  · rename_i rest
    split
    · exact List.forall_mem_nil _
    · rw [Nat.add_comm, List.take_succ_cons]
      exact List.forall_mem_cons.mpr ⟨by decide, isPlain_of_mem_digits rest⟩
  · exact List.forall_mem_nil _

theorem isPlain_of_mem_exponent (cs : List Char) :
    ∀ c ∈ cs.take (exponentLength cs), isPlain c = true := by
  cases cs with
  | nil => exact List.forall_mem_nil _
  | cons letter rest =>
      rw [exponentLength]
      split
      · rename_i exponent
        have first : isPlain letter = true := by
          rcases Bool.or_eq_true_iff.mp exponent with small | large
          · exact beq_iff_eq.mp small ▸ by decide
          · exact beq_iff_eq.mp large ▸ by decide
        -- The first split is on the sign, the second on a digit behind it.
        dsimp only
        split
        · rename_i signed
          obtain ⟨sign, digits, rfl, mark⟩ : ∃ sign digits, rest = sign :: digits ∧
              (sign == '+' || sign == '-') = true := by
            cases rest with
            | nil => cases signed
            | cons sign digits => exact ⟨sign, digits, rfl, signed⟩
          have second : isPlain sign = true := by
            rcases Bool.or_eq_true_iff.mp mark with plus | minus
            · exact beq_iff_eq.mp plus ▸ by decide
            · exact beq_iff_eq.mp minus ▸ by decide
          rw [List.drop_succ_cons, List.drop_zero]
          split
          · rw [Nat.add_comm, List.take_succ_cons, List.take_succ_cons]
            exact List.forall_mem_cons.mpr ⟨first, List.forall_mem_cons.mpr
              ⟨second, isPlain_of_mem_digits digits⟩⟩
          · exact List.forall_mem_nil _
        · split
          · rw [Nat.add_comm, List.take_succ_cons]
            exact List.forall_mem_cons.mpr ⟨first, isPlain_of_mem_digits rest⟩
          · exact List.forall_mem_nil _
      · exact List.forall_mem_nil _

theorem exponentLength_le (cs : List Char) : exponentLength cs ≤ cs.length := by
  cases cs with
  | nil => exact Nat.le_refl _
  | cons letter rest =>
      have digits := runLength_le Text.isDigit rest
      have behind := runLength_le Text.isDigit (rest.drop 1)
      rw [List.length_drop] at behind
      rw [exponentLength, List.length_cons]
      split
      · dsimp only
        split
        · rename_i signed
          cases rest with
          | nil => cases signed
          | cons sign rest =>
              rw [List.length_cons] at behind ⊢
              split <;> omega
        · split <;> omega
      · exact Nat.zero_le _

/-- A number is part of a source name, with characters that are plain. -/
theorem exists_number (c : Char) (cs : List Char) :
    ∃ kind more, number (c :: cs) = token kind more ∧ isSourcePart kind = true ∧
      isQuoted kind = false ∧ more ≤ cs.length ∧ ∀ d ∈ cs.take more, isPlain d = true := by
  have digits := runLength_le Text.isDigit (c :: cs)
  have plain := isPlain_of_mem_digits (c :: cs)
  unfold number
  dsimp only
  generalize runLength Text.isDigit (c :: cs) = whole at *
  have fraction := fractionLength_le ((c :: cs).drop whole)
  have plain' := isPlain_of_mem_fraction ((c :: cs).drop whole)
  generalize fractionLength ((c :: cs).drop whole) = point at *
  have exponent := exponentLength_le ((c :: cs).drop (whole + point))
  have plain'' := isPlain_of_mem_exponent ((c :: cs).drop (whole + point))
  generalize exponentLength ((c :: cs).drop (whole + point)) = power at *
  rw [List.length_drop, List.length_cons] at fraction exponent
  rw [List.length_cons] at digits
  have all : ∀ d ∈ (c :: cs).take (whole + point + power), isPlain d = true := by
    rw [List.take_add, List.take_add]
    exact List.forall_mem_append.mpr ⟨List.forall_mem_append.mpr ⟨plain, plain'⟩, plain''⟩
  refine ⟨_, _, rfl, ?_, ?_, by omega, fun d member => ?_⟩
  · split <;> rfl
  · split <;> rfl
  · cases taken : whole + point + power with
    | zero =>
        rw [taken] at member
        cases member
    | succ count =>
        rw [taken] at member all
        exact all d (List.mem_cons_of_mem _ member)

/-- What opens no comment opens neither of the two kinds. -/
theorem not_comment (noComment : (c == '/' && opensComment cs) = false) :
    (c == '/' && cs.head? == some '/') = false ∧ (c == '/' && cs.head? == some '*') = false := by
  cases first : c == '/' with
  | false => exact ⟨rfl, rfl⟩
  | true =>
      rw [first, Bool.true_and] at noComment
      cases cs with
      | nil => exact ⟨rfl, rfl⟩
      | cons d cs => simpa [opensComment] using noComment

/-- What opens no quotes is read without the blanks behind it. -/
theorem read_unquoted (blank : Text.Blank tail) (noTick : c ≠ '\x60') (noQuote : c ≠ '\x22')
    (noComment : (c == '/' && opensComment cs) = false) :
    read glued c (cs ++ tail) = read glued c cs := by
  cases tail with
  | nil => rw [List.append_nil]
  | cons separator rest =>
      have separates : Text.isSeparator separator = true := by
        rw [Text.isSeparator, blank separator (.head _)]
        rfl
      have stops := Text.isStop_of_isSeparator separates
      have marks : (separator == '/' || separator == '*') = false := by
        rw [Bool.or_eq_false_iff, beq_eq_false_iff_ne, beq_eq_false_iff_ne]
        refine ⟨?_, Text.ne_of_isSeparator separates (by decide)⟩
        rintro rfl
        exact absurd (blank '/' (.head _)) (by decide)
      have noComment' : (c == '/' && opensComment (cs ++ separator :: rest)) = false := by
        rwa [opensComment, any_head?_cut marks]
      have whole : number ((c :: cs) ++ separator :: rest) = number (c :: cs) := number_cut stops
      rw [List.cons_append] at whole
      simp only [read, not_comment noComment, not_comment noComment', startsNumber_cut stops,
        name_cut c stops, parameter_cut stops, mark_cut separates, whole,
        beq_eq_false_iff_ne.mpr noTick, beq_eq_false_iff_ne.mpr noQuote, Bool.false_eq_true,
        if_false]

/-- What opens nothing and starts no name or number is a mark. -/
theorem read_eq_mark (noBlank : Text.isBlank c = false)
    (noComment : (c == '/' && opensComment cs) = false) (noName : Text.startsName c = false)
    (noNumber : startsNumber glued c cs = false) (unquoted : c ∉ ['?', '\x22', '\x60']) :
    read glued c cs = mark c cs.head? := by
  simp only [List.mem_cons, List.not_mem_nil, or_false, not_or] at unquoted
  simp only [read, noBlank, not_comment noComment, noName, noNumber,
    beq_eq_false_iff_ne.mpr unquoted.1, beq_eq_false_iff_ne.mpr unquoted.2.1,
    beq_eq_false_iff_ne.mpr unquoted.2.2, Bool.false_eq_true, if_false]

/-- A lexeme that goes on a bare source name exactly if it is a part of a source. -/
def Decides (lexeme : Lexeme) (c : Char) (cs : List Char) : Prop :=
  ∃ kind more, lexeme = token kind more ∧ isQuoted kind = false ∧ more ≤ cs.length ∧
    isBareFrom false (c :: cs) = (isSourcePart kind && isBareFrom false (cs.drop more))

theorem decides_alone (closed : isQuoted kind = false)
    (behind : isBareFrom false (c :: cs) = (isSourcePart kind && isBareFrom false cs)) :
    Decides (token kind 0) c cs :=
  ⟨kind, 0, rfl, closed, Nat.zero_le _, behind⟩

theorem decides_pair (part : isSourcePart kind = true) (closed : isQuoted kind = false)
    (first : c ∈ ['=', '!', '<', '>']) (second : cs.head? = some '=') :
    Decides (token kind 1) c cs := by
  obtain ⟨enough, behind⟩ := isBareFrom_pair first second
  exact ⟨kind, 1, rfl, closed, enough, by rw [behind, part, Bool.true_and]⟩

/-- A lexeme of plain characters that is a part of a source. -/
theorem decides_plain (part : isSourcePart kind = true) (closed : isQuoted kind = false)
    (within : more ≤ cs.length) (first : isPlain c = true)
    (others : ∀ d ∈ cs.take more, isPlain d = true) : Decides (token kind more) c cs := by
  refine ⟨kind, more, rfl, closed, within, ?_⟩
  rw [isBareFrom_cons first, isBareFrom_drop others, part, Bool.true_and]

theorem mark_decides (noBlank : Text.isBlank c = false) (unquoted : c ∉ ['?', '\x22', '\x60'])
    (noComment : (c == '/' && opensComment cs) = false) : Decides (mark c cs.head?) c cs := by
  by_cases exclamation : c = '!'
  · subst exclamation
    by_cases second : cs.head? = some '='
    · rw [second]
      exact decides_pair rfl rfl (by decide) second
    · have alone : mark '!' cs.head? = token (.other '!') 0 := by
        unfold mark
        split <;> first | rfl | contradiction
      rw [alone]
      exact decides_alone rfl (isBareFrom_alone (by decide) second)
  unfold mark
  split
  case h_1 second => exact decides_pair rfl rfl (by decide) second
  case h_2 => contradiction
  case h_3 second => exact decides_pair rfl rfl (by decide) second
  case h_4 second => exact decides_pair rfl rfl (by decide) second
  case h_5 second =>
    obtain ⟨rest, rfl⟩ := List.head?_eq_some_iff.mp second
    exact ⟨_, _, rfl, rfl, Nat.succ_pos _, rfl⟩
  case h_6 second => exact decides_alone rfl (isBareFrom_assign second)
  case h_7 second => exact decides_alone rfl (isBareFrom_alone (by decide) second)
  case h_8 second => exact decides_alone rfl (isBareFrom_alone (by decide) second)
  case h_20 => exact decides_alone rfl (isBareFrom_slash noComment)
  case h_22 =>
    exact decides_alone rfl (isBareFrom_cons (isPlain_of_not_mem noBlank (by simp_all)) cs)
  all_goals first
    | exact decides_alone rfl (isBareFrom_of_ends (by decide) cs)
    | exact decides_alone rfl (isBareFrom_cons (by decide) cs)

/-- What opens neither quotes nor a comment, and is no blank, goes on a bare name exactly if it is
a part of a source. -/
theorem read_decides (noBlank : Text.isBlank c = false) (noTick : c ≠ '\x60')
    (noQuote : c ≠ '\x22') (noComment : (c == '/' && opensComment cs) = false) (glued : Bool) :
    Decides (read glued c cs) c cs := by
  cases starts : Text.startsName c with
  | true =>
      have inside := List.all_eq_true.mp (List.all_takeWhile (p := Text.continuesName) (l := cs))
      rw [Token.read_name starts]
      refine decides_plain ?_ ?_ (List.takeWhile_prefix _).length_le
        (isPlain_of_startsName starts) ?_
      · rw [Token.nameKind]
        split <;> rfl
      · rw [Token.nameKind]
        split <;> rfl
      · rw [← runLength, take_runLength]
        exact fun d member => isPlain_of_continuesName (inside d member)
  | false =>
      cases number : startsNumber glued c cs with
      | true =>
          obtain ⟨kind, more, read, part, closed, within, plain⟩ := exists_number c cs
          have first : isPlain c = true := by
            rcases startsNumber_cases number with digit | ⟨rfl, -⟩
            · exact isPlain_of_isDigit digit
            · decide
          rw [read_eq_number (Bool.eq_false_iff.mp noBlank) starts number, read]
          exact decides_plain part closed within first plain
      | false =>
          by_cases question : c = '?'
          · subst question
            have outside : isBareFrom false ('?' :: cs) = false :=
              isBareFrom_of_ends (by decide) cs
            exact ⟨_, _, rfl, rfl, runLength_le _ _, outside⟩
          · have unquoted : c ∉ ['?', '\x22', '\x60'] := by simp [question, noQuote, noTick]
            rw [read_eq_mark noBlank noComment starts number unquoted]
            exact mark_decides noBlank unquoted noComment

/-! ## Quotes -/

theorem length_escaped_le (c : Char) : (escaped c).length ≤ 2 := by
  rcases escaped_cases c with ⟨d, one, -⟩ | ⟨two, -⟩
  · rw [one]
    exact Nat.le_succ 1
  · rw [two]
    exact Nat.le_refl 2

/-- The value of a closed string is shorter than what is read for it. -/
theorem stringBody_closed (cs : List Char) (closed : (stringBody cs).2.2 = true) :
    (stringBody cs).1.length + 1 ≤ (stringBody cs).2.1 ∧ (stringBody cs).2.1 ≤ cs.length := by
  fun_induction stringBody cs with
  | case1 => cases closed
  | case2 => cases closed
  | case3 c rest value length terminated inner ih =>
      rw [inner] at ih
      have behind := ih closed
      have taken := length_escaped_le c
      simp only [List.length_append, List.length_cons] at behind ⊢
      omega
  | case4 rest => simp
  | case5 c rest _ _ _ value length terminated inner ih =>
      rw [inner] at ih
      have behind := ih closed
      simp only [List.length_cons] at behind ⊢
      omega

theorem quotedString_closed {value : String}
    (read : quotedString cs = token (.string value true) more) :
    value.toList.length + 1 ≤ more ∧ more ≤ cs.length := by
  unfold quotedString at read
  split at read
  · rename_i rest
    unfold rawString at read
    split at read
    · rename_i before after found
      cases read
      have whole := congrArg List.length (Text.splitAtFirst?_append found)
      rw [List.length_append, List.length_append] at whole
      have quotes : tripleQuote.length = 3 := rfl
      rw [String.toList_ofList, List.length_cons, List.length_cons]
      omega
    · cases read
  · obtain ⟨kinds, rfl⟩ := Lexeme.mk.inj read
    obtain ⟨rfl, closed⟩ := TokenKind.string.inj (Option.some.inj kinds)
    rw [String.toList_ofList]
    exact stringBody_closed cs closed

theorem quotedName_closed {name : String}
    (read : quotedName cs = token (.quoted name true) more) :
    name.toList.length + 1 ≤ more ∧ more ≤ cs.length := by
  obtain ⟨kinds, rfl⟩ := Lexeme.mk.inj read
  obtain ⟨rfl, closed⟩ := TokenKind.quoted.inj (Option.some.inj kinds)
  obtain ⟨rest, whole, length, -⟩ := quotedBody_closed cs closed
  have total := congrArg List.length whole
  have longer := Text.Quoted.length_le_encode (quotedBody cs).1
  rw [List.length_append, ← length] at total
  rw [List.length_append, List.length_singleton] at length
  rw [String.toList_ofList]
  change (quotedBody cs).1.length + 1 ≤ (quotedBody cs).2.1 ∧ (quotedBody cs).2.1 ≤ cs.length
  omega

/-- What a backtick opens. -/
theorem read_tick (glued : Bool) (cs : List Char) :
    Lexeme.read glued '\x60' cs = quotedName cs := by
  have blank : Text.isBlank '\x60' = false := by decide +kernel
  have noName : Text.startsName '\x60' = false := by decide +kernel
  have noNumber : startsNumber glued '\x60' cs = false := rfl
  simp [Lexeme.read, blank, noName, noNumber]

theorem read_quote (glued : Bool) (cs : List Char) :
    Lexeme.read glued '\x22' cs = quotedString cs := by
  have blank : Text.isBlank '\x22' = false := by decide +kernel
  have noName : Text.startsName '\x22' = false := by decide +kernel
  have noNumber : startsNumber glued '\x22' cs = false := rfl
  simp [Lexeme.read, blank, noName, noNumber]

theorem read_question (glued : Bool) (cs : List Char) :
    Lexeme.read glued '?' cs = parameter cs := by
  have blank : Text.isBlank '?' = false := by decide +kernel
  have noName : Text.startsName '?' = false := by decide +kernel
  have noNumber : startsNumber glued '?' cs = false := rfl
  simp [Lexeme.read, blank, noName, noNumber]

theorem exists_quotedName (cs : List Char) :
    ∃ name terminated more, quotedName cs = token (.quoted name terminated) more :=
  ⟨_, _, _, rfl⟩

theorem exists_quotedString (cs : List Char) :
    ∃ value terminated more, quotedString cs = token (.string value terminated) more := by
  obtain ⟨value, terminated, kind⟩ := quotedString_kind? cs
  exact ⟨value, terminated, (quotedString cs).more, congrArg (Lexeme.mk · _) kind⟩

theorem read_string {value : String} {terminated : Bool}
    (read : Lexeme.read glued c cs = token (.string value terminated) more) :
    quotedString cs = token (.string value terminated) more := by
  rcases read_cases read with ⟨-, named⟩ | ⟨-, digits⟩ | ⟨-, quoted⟩ | string | param | marked
  · unfold Lexeme.name at named
    dsimp only at named
    split at named <;> cases named
  · unfold number at digits
    dsimp only at digits
    split at digits <;> cases digits
  · cases quoted
  · exact string
  · cases param
  · unfold mark at marked
    split at marked <;> cases marked

theorem exists_of_opensComment (opens : opensComment cs = true) :
    ∃ rest, cs = '/' :: rest ∨ cs = '*' :: rest := by
  cases cs with
  | nil => cases opens
  | cons d rest =>
      rcases Bool.or_eq_true_iff.mp opens with slash | star
      · exact ⟨rest, .inl (congrArg (· :: rest) (beq_iff_eq.mp slash))⟩
      · exact ⟨rest, .inr (congrArg (· :: rest) (beq_iff_eq.mp star))⟩

end Lexeme

end Esql
