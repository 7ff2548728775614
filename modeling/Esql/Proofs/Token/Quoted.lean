import Esql.Proofs.Text.Stretches
import Esql.Proofs.Token.Names

/-!
# Names in backticks

Two readers take the backticks off what is written. The scanner takes one name in backticks and
looks one character ahead for a second backtick; a written name is read as a whole, with quotes that
open and close as it goes. They agree behind any opening backtick, whether a closing one comes or
not. So what is written for a name is read as that name by both.
-/

namespace Esql

namespace Text.Quoted

/-- What is written for a name is read as the name. -/
theorem read_write (name : String) : read (write name) = name := by
  cases quoted : needsQuotes name with
  | false =>
      obtain ⟨first, rest, chars, -, inside, -⟩ := exists_of_not_needsQuotes quoted
      have noTick : '\x60' ∉ name.toList := fun tick =>
        absurd (inside _ (chars ▸ tick)) (by decide +kernel)
      have plain := decode_unquoted noTick []
      rw [List.append_nil] at plain
      rw [write, quoted, if_neg Bool.false_ne_true, read, plain, decode, List.append_nil,
        String.ofList_toList]
  | true =>
      rw [write, if_pos quoted, read, String.toList_ofList, decode_tick,
        decode_encode_append name.toList [] (by decide), decode, List.append_nil,
        String.ofList_toList]

end Text.Quoted

namespace Lexeme

open Text.Quoted

/-- Behind an opening backtick, both readers read the same up to where the scanner stops. -/
theorem decode_eq (cs : List Char) :
    decode true cs = (quotedBody cs).1 ++ decode false (cs.drop (quotedBody cs).2.1) := by
  fun_induction quotedBody cs with
  | case1 => rfl
  | case2 rest value length terminated inner ih =>
      rw [inner] at ih
      rw [decode, ih]
      rfl
  | case3 rest once =>
      rw [decode]
      · rfl
      · intro others _ _ same
        exact once others same
  | case4 c rest _ plain value length terminated inner ih =>
      rw [inner] at ih
      rw [decode]
      · rw [if_neg fun tick => plain (beq_iff_eq.mp tick), ih]
        rfl
      · intro others _ same _
        exact plain same

/-- A name in backticks that is not closed takes all that is left. -/
theorem quotedBody_open {cs : List Char} (unclosed : (quotedBody cs).2.2 = false) :
    (quotedBody cs).2.1 = cs.length := by
  fun_induction quotedBody cs with
  | case1 => rfl
  | case2 rest value length terminated inner ih =>
      rw [inner] at ih
      exact congrArg (· + 2) (ih unclosed)
  | case3 => cases unclosed
  | case4 c rest _ plain value length terminated inner ih =>
      rw [inner] at ih
      exact congrArg (· + 1) (ih unclosed)

end Lexeme

namespace Token

open Text.Quoted

/-- For every name, what is written for it is read as the name. It is scanned as one closed name in
backticks, from the first character to the last, if and only if the name has to be quoted. -/
theorem read_write_and_scan (name : String) :
    read (write name) = name ∧
      (needsQuotes name = true ↔ scan (write name) =
        [⟨.quoted name true, write name, ⟨0, Text.byteLength (write name)⟩⟩]) := by
  refine ⟨read_write name, fun quoted => ?_, fun alone => ?_⟩
  · have scanned := Grammar.scanFrom_quoted name.toList (List.head?_nil.trans_ne nofun) false 0
    rw [List.append_nil, scanFrom_nil, String.ofList_toList] at scanned
    rw [write, if_pos quoted, scan, String.toList_ofList, scanned, Text.byteLength,
      String.toList_ofList, Nat.zero_add]
  · by_contra bare
    rw [Bool.not_eq_true] at bare
    obtain ⟨first, rest, chars, starts, -⟩ := exists_of_not_needsQuotes bare
    rw [write, bare, if_neg Bool.false_ne_true, scan, chars, scanFrom, read_name starts] at alone
    have kinds := congrArg Token.kind (List.cons.inj alone).1
    unfold nameKind at kinds
    dsimp only [Lexeme.token] at kinds
    split at kinds <;> cases kinds

end Token

end Esql
