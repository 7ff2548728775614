import Esql.Proofs.Token.Stage
import Esql.Text.Quoted

/-!
# Tokens as they are written

Names, integers and some marks are written in one way each: a word is its own characters, an integer
is digits only, and a name in backticks that is closed doubles each backtick inside it. What stands
directly behind such a name is no backtick.
-/

namespace Esql

namespace Lexeme

open Text.Quoted

/-- A quoted name that is closed takes what its characters are encoded as, and a backtick that no
other one follows. -/
theorem quotedBody_closed (cs : List Char) (closed : (quotedBody cs).2.2 = true) :
    ∃ rest, cs = (encode (quotedBody cs).1 ++ ['\x60']) ++ rest ∧
      (quotedBody cs).2.1 = (encode (quotedBody cs).1 ++ ['\x60']).length ∧
      rest.head? ≠ some '\x60' := by
  fun_induction quotedBody cs with
  | case1 => cases closed
  | case2 rest value length closed' inner ih =>
      rw [inner] at ih
      obtain ⟨behind, written, taken, other⟩ := ih closed
      exact ⟨behind, congrArg ('\x60' :: '\x60' :: ·) written, congrArg (· + 2) taken, other⟩
  | case3 rest once =>
      refine ⟨rest, rfl, rfl, fun tick => ?_⟩
      obtain ⟨others, rfl⟩ := List.head?_eq_some_iff.mp tick
      exact once others rfl
  | case4 c rest _ plain value length closed' inner ih =>
      rw [inner] at ih
      obtain ⟨behind, written, taken, other⟩ := ih closed
      have noTick : ¬ (c == '\x60') = true := fun tick => plain (beq_iff_eq.mp tick)
      dsimp only at written taken ⊢
      rw [encode, if_neg noTick]
      exact ⟨behind, congrArg (c :: ·) written, congrArg (· + 1) taken, other⟩

variable {glued : Bool} {c : Char} {cs : List Char} {kind : TokenKind} {more : Nat}

/-- What is read as a token is a name, a number, a name in backticks, a string, a parameter or a
mark. -/
theorem read_cases (read : Lexeme.read glued c cs = token kind more) :
    (Text.startsName c = true ∧ name c cs = token kind more) ∨
      (startsNumber glued c cs = true ∧ number (c :: cs) = token kind more) ∨
      (c = '\x60' ∧ quotedName cs = token kind more) ∨
      quotedString cs = token kind more ∨ parameter cs = token kind more ∨
      mark c cs.head? = token kind more := by
  unfold Lexeme.read at read
  split at read
  · cases read
  split at read
  · cases read
  split at read
  · cases read
  split at read
  · exact .inl ⟨‹_›, read⟩
  split at read
  · exact .inr (.inl ⟨‹_›, read⟩)
  split at read
  · rename_i tick
    exact .inr (.inr (.inl ⟨beq_iff_eq.mp tick, read⟩))
  split at read
  · exact .inr (.inr (.inr (.inl read)))
  split at read
  · exact .inr (.inr (.inr (.inr (.inl read))))
  · exact .inr (.inr (.inr (.inr (.inr read))))

/-- No name follows a point before a digit, so the point starts a fraction. -/
theorem fractionLength_point (digits : cs.head?.any Text.isDigit = true) :
    fractionLength ('.' :: cs) = 1 + runLength Text.isDigit cs := by
  obtain ⟨d, front, first⟩ := (Option.any_eq_true _ _).mp digits
  rw [fractionLength, front, Option.any_some, Text.not_startsName_of_isDigit first,
    if_neg Bool.false_ne_true]

/-- An integer is a run of digits: with a point in front it would have a fraction. -/
theorem number_integer (starts : startsNumber glued c cs = true)
    (read : number (c :: cs) = token .integer more) :
    Text.isDigit c = true ∧ more = runLength Text.isDigit cs := by
  unfold number at read
  dsimp only at read
  obtain ⟨kinds, taken⟩ := Lexeme.mk.inj read
  generalize exponentLength _ = exponent at kinds taken
  have none : fractionLength ((c :: cs).drop (runLength Text.isDigit (c :: cs))) = 0 ∧
      exponent = 0 := by
    refine Nat.add_eq_zero_iff.mp (beq_iff_eq.mp ?_)
    by_contra some
    rw [if_neg some] at kinds
    cases kinds
  cases digit : Text.isDigit c with
  | true =>
      have first : runLength Text.isDigit (c :: cs) = runLength Text.isDigit cs + 1 := by
        rw [runLength, List.takeWhile_cons_of_pos digit]
        rfl
      exact ⟨rfl, by omega⟩
  | false =>
      rcases startsNumber_cases starts with other | ⟨rfl, digits⟩
      · rw [digit] at other
        cases other
      · have fraction := none.1
        rw [runLength, List.takeWhile_cons_of_neg (Bool.eq_false_iff.mp digit), List.length_nil,
          List.drop_zero, fractionLength_point digits] at fraction
        omega

/-- A name in backticks is what the reader of names finds behind a backtick. -/
theorem read_quoted {name : String} {terminated : Bool}
    (read : Lexeme.read glued c cs = token (.quoted name terminated) more) :
    c = '\x60' ∧ quotedBody cs = (name.toList, more, terminated) := by
  rcases read_cases read with ⟨-, named⟩ | ⟨-, digits⟩ | ⟨rfl, quoted⟩ | string | param | marked
  · unfold Lexeme.name at named
    dsimp only at named
    split at named <;> cases named
  · unfold number at digits
    dsimp only at digits
    split at digits <;> cases digits
  · obtain ⟨kinds, rfl⟩ := Lexeme.mk.inj quoted
    obtain ⟨rfl, rfl⟩ := TokenKind.quoted.inj (Option.some.inj kinds)
    rw [String.toList_ofList]
    exact ⟨rfl, rfl⟩
  · obtain ⟨value, terminated, kinds⟩ := quotedString_kind? cs
    rw [string] at kinds
    cases kinds
  · cases param
  · unfold mark at marked
    split at marked <;> cases marked

/-- A kind of token that is written in one way, up to the spelling of what it holds. -/
def isWritten : TokenKind → Bool
  | .word _ | .integer | .dot | .star | .plus | .minus => true
  | .quoted _ terminated => terminated
  | _ => false

/-- How tokens of these kinds are written. -/
inductive Writes : TokenKind → List Char → Prop where
  | word {c : Char} {body : List Char} (starts : Text.startsName c = true)
      (continues : ∀ d ∈ body, Text.continuesName d = true) :
      Writes (.word (String.ofList (c :: body))) (c :: body)
  | quoted (name : List Char) :
      Writes (.quoted (String.ofList name) true) ('\x60' :: (encode name ++ ['\x60']))
  | integer {digits : List Char} (some : digits ≠ [])
      (all : ∀ c ∈ digits, Text.isDigit c = true) : Writes .integer digits
  | dot : Writes .dot ['.']
  | star : Writes .star ['*']
  | plus : Writes .plus ['+']
  | minus : Writes .minus ['-']

theorem mark_writes {next : Option Char} (read : mark c next = token kind more)
    (written : isWritten kind = true) : Writes kind [c] ∧ more = 0 := by
  unfold mark at read
  split at read <;> cases read <;> first | exact ⟨by constructor, rfl⟩ | cases written

/-- A token is written as its kind demands. -/
theorem read_writes (read : Lexeme.read glued c cs = token kind more)
    (written : isWritten kind = true) : Writes kind (c :: cs.take more) := by
  have taken (member : Char → Bool) :
      cs.take (runLength member cs) = cs.takeWhile member :=
    (List.prefix_iff_eq_take.mp (List.takeWhile_prefix member)).symm
  rcases read_cases read with ⟨starts, named⟩ | ⟨starts, digits⟩ | ⟨rfl, quoted⟩ | string | param |
    marked
  · unfold name at named
    dsimp only at named
    split at named
    · cases named
      cases written
    · cases named
      rw [taken]
      exact .word starts (List.all_eq_true.mp List.all_takeWhile)
  · have integer : kind = .integer := by
      unfold number at digits
      dsimp only at digits
      split at digits <;> cases digits
      · rfl
      · cases written
    subst integer
    obtain ⟨digit, rfl⟩ := number_integer starts digits
    rw [taken]
    exact .integer (List.cons_ne_nil _ _)
      (List.forall_mem_cons.mpr ⟨digit, List.all_eq_true.mp List.all_takeWhile⟩)
  · cases quoted
    have closed : (quotedBody cs).2.2 = true := written
    obtain ⟨rest, whole, length, -⟩ := quotedBody_closed cs closed
    have body : cs.take (quotedBody cs).2.1 = encode (quotedBody cs).1 ++ ['\x60'] := by
      rw [length]
      exact (congrArg (List.take _) whole).trans List.take_left
    rw [body, closed]
    exact .quoted _
  · obtain ⟨value, terminated, kinds⟩ := quotedString_kind? cs
    rw [string] at kinds
    cases kinds
    cases written
  · cases param
    cases written
  · obtain ⟨writes, rfl⟩ := mark_writes marked written
    exact writes

end Lexeme

namespace Token

/-- Each token of a scan is some lexeme, behind which the scan goes on. -/
theorem exists_read_of_scanFrom {cs : List Char} {pending : Nat} {glued : Bool} {offset : Nat}
    {left right : List Token} {token : Token}
    (scanned : scanFrom cs pending glued offset = left ++ token :: right) :
    ∃ glued c rest more, Lexeme.read glued c rest = .token token.kind more ∧
      token.text = String.ofList (c :: rest.take more) ∧
      scanFrom (rest.drop more) 0 true token.span.stop = right := by
  induction cs generalizing pending glued offset left with
  | nil =>
      rw [scanFrom_nil] at scanned
      exact absurd scanned.symm (List.append_ne_nil_of_right_ne_nil _ (List.cons_ne_nil _ _))
  | cons c cs ih =>
      cases pending with
      | succ pending => exact ih scanned
      | zero =>
          rw [scanFrom] at scanned
          dsimp only at scanned
          cases kind : (Lexeme.read glued c cs).kind? with
          | none =>
              rw [kind] at scanned
              exact ih scanned
          | some found =>
              rw [kind] at scanned
              cases left with
              | cons first left => exact ih (List.cons.inj scanned).2
              | nil =>
                  obtain ⟨rfl, rest⟩ := List.cons.inj scanned
                  refine ⟨glued, c, cs, (Lexeme.read glued c cs).more, ?_, rfl, ?_⟩
                  · rw [Lexeme.token, ← kind]
                  · rw [← rest, scanFrom_pending cs, Text.width_cons, Nat.add_assoc]

theorem exists_read_of_mem_scanFrom {cs : List Char} {pending : Nat} {glued : Bool} {offset : Nat}
    {token : Token} (member : token ∈ scanFrom cs pending glued offset) :
    ∃ glued c rest more, Lexeme.read glued c rest = .token token.kind more ∧
      token.text = String.ofList (c :: rest.take more) := by
  obtain ⟨left, right, scanned⟩ := List.append_of_mem member
  obtain ⟨glued, c, rest, more, read, written, -⟩ := exists_read_of_scanFrom scanned
  exact ⟨glued, c, rest, more, read, written⟩

/-- The tokens of a text are written as their kinds demand. -/
theorem writes_of_mem_scan {text : String} {token : Token} (member : token ∈ scan text)
    (written : Lexeme.isWritten token.kind = true) :
    Lexeme.Writes token.kind token.text.toList := by
  obtain ⟨glued, c, rest, more, read, same⟩ := exists_read_of_mem_scanFrom member
  rw [same, String.toList_ofList]
  exact Lexeme.read_writes read written

/-- What stands directly behind a closed name in backticks does not start with a backtick: that
backtick would be part of the name. -/
theorem head?_ne_tick_of_quoted {text : String} {left right : List Token} {name : String}
    {token next : Token} (scanned : scan text = left ++ token :: next :: right)
    (quoted : token.kind = .quoted name true) (adjoins : next.span.start = token.span.stop) :
    next.text.toList.head? ≠ some '\x60' := by
  obtain ⟨glued, c, rest, more, read, -, behind⟩ := exists_read_of_scanFrom scanned
  rw [quoted] at read
  have body := (Lexeme.read_quoted read).2
  obtain ⟨tail, whole, length, other⟩ :=
    Lexeme.quotedBody_closed rest (congrArg (·.2.2) body)
  rw [body] at whole length
  dsimp only at whole length
  have left : rest.drop more = tail := by
    rw [length]
    exact (congrArg (List.drop _) whole).trans List.drop_left
  rw [left] at behind
  -- Nothing lies between the tokens, so the next one starts with what the reader left.
  obtain ⟨gap, d, others, after, rfl, run, kind, starts⟩ := exists_scanned_gap behind
  have none : gap = [] := Text.eq_nil_of_width_eq_zero (by omega)
  subst none
  cases run
  rw [List.nil_append, scanFrom] at behind
  dsimp only at behind
  rw [kind] at behind
  obtain ⟨same, -⟩ := List.cons.inj behind
  rw [← same, String.toList_ofList]
  exact other

end Token

end Esql
