import Esql.Proofs.Span.Row
import Esql.Token.Scan

/-!
# Runs of the scanner

A run of the scanner passes over the characters in front of a rest, lexeme by lexeme, with that
rest in sight. Every scan can be divided at any of its tokens into runs, and the tokens of a scan
stand in a row of spans, each with exactly the text under its span.
-/

namespace Esql

/-- The token that a lexeme of these characters is, if it is one. -/
def Lexeme.tokens (lexeme : Lexeme) (chars : List Char) (offset : Nat) : List Token :=
  match lexeme.kind? with
  | some kind => [⟨kind, String.ofList chars, ⟨offset, offset + Text.width chars⟩⟩]
  | none => []

namespace Token

/-- Where the last of some tokens stops, or an earlier offset if there are none. -/
def stopAfter (offset : Nat) : List Token → Nat
  | [] => offset
  | token :: rest => stopAfter token.span.stop rest

@[simp]
theorem stopAfter_cons (offset : Nat) (token : Token) (rest : List Token) :
    stopAfter offset (token :: rest) = stopAfter token.span.stop rest := rfl

theorem stopAfter_append (offset : Nat) (front back : List Token) :
    stopAfter offset (front ++ back) = stopAfter (stopAfter offset front) back := by
  induction front generalizing offset with
  | nil => rfl
  | cons token front ih => exact ih token.span.stop

theorem scanFrom_nil (pending : Nat) (glued : Bool) (offset : Nat) :
    scanFrom [] pending glued offset = [] := by
  cases pending <;> rfl

/-- A scan takes one lexeme and goes on behind it. -/
theorem scanFrom_cons (glued : Bool) (offset : Nat) (c : Char) {body tail : List Char}
    {lexeme : Lexeme} (read : Lexeme.read glued c (body ++ tail) = lexeme)
    (taken : (body ++ tail).take lexeme.more = body) :
    scanFrom (c :: (body ++ tail)) 0 glued offset =
      lexeme.tokens (c :: body) offset ++
        scanFrom tail 0 lexeme.kind?.isSome (offset + Text.width (c :: body)) := by
  have left : (body ++ tail).drop lexeme.more = tail := by
    have whole := List.take_append_drop lexeme.more (body ++ tail)
    rw [taken] at whole
    exact List.append_cancel_left whole
  unfold Lexeme.tokens
  rw [scanFrom, read]
  cases kind : lexeme.kind? with
  | none =>
      simp only [scanFrom_pending _ lexeme.more, left, taken, Text.width_cons, Nat.add_assoc]
      rfl
  | some found =>
      simp only [scanFrom_pending _ lexeme.more, left, taken, Text.width_cons, Nat.add_assoc]
      rfl

theorem scanFrom_cons_blank {c : Char} (blank : Text.isBlank c = true) (cs : List Char)
    (glued : Bool) (offset : Nat) :
    scanFrom (c :: cs) 0 glued offset = scanFrom cs 0 false (offset + c.utf8Size) := by
  have read : Lexeme.read glued c cs = Lexeme.skip 0 := by
    rw [Lexeme.read, if_pos blank]
  rw [scanFrom, read]
  rfl

/-- Scanning passes exactly over some characters in front of a rest, and finds these tokens. The
Booleans say whether a token ends directly before and directly behind those characters. -/
inductive Scanned : Bool → Nat → List Char → List Char → List Token → Bool → Prop where
  | nil {glued : Bool} {offset : Nat} {rest : List Char} : Scanned glued offset [] rest [] glued
  | cons {glued after : Bool} {offset : Nat} {c : Char} {body front rest : List Char}
      {lexeme : Lexeme} {tokens : List Token}
      (read : Lexeme.read glued c (body ++ (front ++ rest)) = lexeme)
      (taken : (body ++ (front ++ rest)).take lexeme.more = body)
      (tail : Scanned lexeme.kind?.isSome (offset + Text.width (c :: body)) front rest tokens
        after) :
      Scanned glued offset (c :: (body ++ front)) rest
        (lexeme.tokens (c :: body) offset ++ tokens) after

namespace Scanned

variable {glued middle after : Bool} {offset : Nat} {front more rest : List Char}
  {tokens others : List Token}

/-- A scan consists of a run and the scan of what the run leaves. -/
theorem scanFrom_eq (run : Scanned glued offset front rest tokens after) :
    scanFrom (front ++ rest) 0 glued offset =
      tokens ++ scanFrom rest 0 after (offset + Text.width front) := by
  induction run with
  | nil => rfl
  | cons read taken tail ih =>
      rw [List.cons_append, List.append_assoc, scanFrom_cons _ _ _ read taken, ih,
        List.append_assoc, Nat.add_assoc, ← Text.width_append, List.cons_append]

theorem append (first : Scanned glued offset front (more ++ rest) tokens middle)
    (second : Scanned middle (offset + Text.width front) more rest others after) :
    Scanned glued offset (front ++ more) rest (tokens ++ others) after := by
  generalize beyond : more ++ rest = whole at first
  induction first with
  | nil => exact second
  | @cons glued middle offset c body front _ lexeme tokens read taken tail ih =>
      subst beyond
      have rest_run := ih (by
        rwa [← List.cons_append, Text.width_append, ← Nat.add_assoc] at second) rfl
      rw [List.cons_append, List.append_assoc, List.append_assoc]
      exact .cons (by rwa [List.append_assoc]) (by rwa [List.append_assoc]) rest_run

end Scanned

/-- Every lexeme is a run of its own. -/
theorem exists_lexeme (glued : Bool) (c : Char) (cs : List Char) :
    ∃ lexeme body tail, cs = body ++ tail ∧ Lexeme.read glued c (body ++ tail) = lexeme ∧
      (body ++ tail).take lexeme.more = body := by
  refine ⟨_, cs.take (Lexeme.read glued c cs).more, cs.drop (Lexeme.read glued c cs).more,
    (List.take_append_drop _ _).symm, rfl, ?_⟩
  rw [List.take_append_drop]

/-- A scan can be divided behind any of its tokens. -/
theorem exists_scanned_append {cs : List Char} {glued : Bool} {offset : Nat}
    {left right : List Token} (scan : scanFrom cs 0 glued offset = left ++ right) :
    ∃ front rest after, cs = front ++ rest ∧ Scanned glued offset front rest left after ∧
      scanFrom rest 0 after (offset + Text.width front) = right ∧
      stopAfter offset left = offset + Text.width front := by
  induction length : cs.length using Nat.strongRecOn generalizing cs glued offset left with
  | ind size ih =>
      cases left with
      | nil => exact ⟨[], cs, glued, rfl, .nil, scan, rfl⟩
      | cons first left =>
          cases cs with
          | nil =>
              rw [scanFrom_nil] at scan
              cases scan
          | cons c cs =>
              obtain ⟨lexeme, body, tail, rfl, read, taken⟩ := exists_lexeme glued c cs
              rw [scanFrom_cons glued offset c read taken] at scan
              have shorter : tail.length < size := by
                rw [← length, List.length_cons, List.length_append]
                omega
              obtain ⟨found, division, inner, stops⟩ : ∃ found,
                  lexeme.tokens (c :: body) offset ++ found = first :: left ∧
                    scanFrom tail 0 lexeme.kind?.isSome (offset + Text.width (c :: body)) =
                      found ++ right ∧
                    stopAfter (offset + Text.width (c :: body)) found =
                      stopAfter offset (first :: left) := by
                unfold Lexeme.tokens at scan ⊢
                cases kind : lexeme.kind? with
                | none =>
                    rw [kind] at scan
                    exact ⟨first :: left, rfl, scan, rfl⟩
                | some kind' =>
                    rw [kind] at scan
                    obtain ⟨same, others⟩ := List.cons.inj scan
                    exact ⟨left, congrArg (· :: left) same, others, by rw [← same, stopAfter_cons]⟩
              obtain ⟨front, rest, after, rfl, run, scanned, last⟩ := ih _ shorter inner rfl
              have width : offset + Text.width (c :: (body ++ front)) =
                  offset + Text.width (c :: body) + Text.width front := by
                rw [Nat.add_assoc, ← Text.width_append, List.cons_append]
              refine ⟨c :: (body ++ front), rest, after, by simp, ?_, ?_, ?_⟩
              · rw [← division]
                exact .cons read taken run
              · rw [width, scanned]
              · rw [← stops, last, width]

/-- Blanks and comments lie before the first token of a scan. -/
theorem exists_scanned_gap {cs : List Char} {glued : Bool} {offset : Nat} {token : Token}
    {others : List Token} (scan : scanFrom cs 0 glued offset = token :: others) :
    ∃ gap c rest after, cs = gap ++ c :: rest ∧ Scanned glued offset gap (c :: rest) [] after ∧
      (Lexeme.read after c rest).kind? = some token.kind ∧
      token.span.start = offset + Text.width gap := by
  induction length : cs.length using Nat.strongRecOn generalizing cs glued offset with
  | ind size ih =>
      cases cs with
      | nil =>
          rw [scanFrom_nil] at scan
          cases scan
      | cons c cs =>
          obtain ⟨lexeme, body, tail, rfl, read, taken⟩ := exists_lexeme glued c cs
          rw [scanFrom_cons glued offset c read taken] at scan
          cases kind : lexeme.kind? with
          | none =>
              have shorter : tail.length < size := by
                rw [← length, List.length_cons, List.length_append]
                omega
              have inner : scanFrom tail 0 lexeme.kind?.isSome (offset + Text.width (c :: body)) =
                  token :: others := by
                simpa only [Lexeme.tokens, kind, List.nil_append] using scan
              obtain ⟨gap, d, rest, after, rfl, run, found, starts⟩ := ih _ shorter inner rfl
              refine ⟨c :: (body ++ gap), d, rest, after, by simp, ?_, found, ?_⟩
              · have whole := Scanned.cons read taken run
                simpa only [Lexeme.tokens, kind, List.nil_append] using whole
              · rw [starts, Nat.add_assoc, ← Text.width_append, List.cons_append]
          | some found =>
              simp only [Lexeme.tokens, kind, List.cons_append, List.cons.injEq] at scan
              refine ⟨[], c, body ++ tail, glued, rfl, .nil, ?_, ?_⟩
              · rw [read, kind, ← scan.1]
              · rw [← scan.1]
                rfl

/-- A token that covers some text, and holds exactly that text. -/
structure Sound (source : String) (token : Token) : Prop where
  nonempty : token.span.start < token.span.stop
  fits : token.span.Fits source
  text_eq : token.text = token.span.slice source

/-- The token of a lexeme covers the characters of the lexeme. -/
theorem sound_of_lexeme {source : String} {before rest : List Char} {c : Char} {body : List Char}
    (whole : source.toList = before ++ (c :: body) ++ rest) (kind : TokenKind) :
    Sound source ⟨kind, String.ofList (c :: body),
      ⟨Text.width before, Text.width before + Text.width (c :: body)⟩⟩ := by
  refine ⟨?_, ⟨?_, ?_, ?_⟩, ?_⟩
  · exact Nat.lt_add_of_pos_right (Text.width_pos c body)
  · exact Nat.le_add_right _ _
  · rw [whole, List.append_assoc]
    exact Text.isBoundary_append before _
  · rw [whole, ← Text.width_append]
    exact Text.isBoundary_append _ rest
  · unfold Span.slice
    rw [whole, Text.sliceChars_width]

/-- The tokens of a run stand in a row within the characters that it passes over. -/
theorem Scanned.placed {source : String} {before front rest : List Char} {glued after : Bool}
    {tokens : List Token} (run : Scanned glued (Text.width before) front rest tokens after)
    (whole : source.toList = before ++ front ++ rest) :
    Placed Token.span (Sound source) (Text.width before) tokens
      (Text.width before + Text.width front) := by
  generalize same : Text.width before = offset at run
  induction run generalizing before with
  | nil => exact .nil (Nat.le_add_right _ _)
  | @cons glued after offset c body front rest lexeme tokens read taken tail ih =>
      subst same
      have later : source.toList = (before ++ c :: body) ++ front ++ rest := by
        rw [whole]
        simp only [List.append_assoc, List.cons_append]
      have behind := ih later (Text.width_append _ _)
      have last : Text.width before + Text.width (c :: body) + Text.width front =
          Text.width before + Text.width (c :: (body ++ front)) := by
        rw [Nat.add_assoc, ← Text.width_append, List.cons_append]
      rw [last] at behind
      refine Placed.append ?_ behind
      unfold Lexeme.tokens
      cases lexeme.kind? with
      | none => exact .nil (Nat.le_add_right _ _)
      | some kind =>
          have here : source.toList = before ++ (c :: body) ++ (front ++ rest) := by
            rw [whole]
            simp only [List.append_assoc, List.cons_append]
          have sound : Sound source ⟨kind, String.ofList (c :: body),
              ⟨Text.width before, Text.width before + Text.width (c :: body)⟩⟩ :=
            sound_of_lexeme here kind
          exact .single sound (Nat.le_refl _) sound.fits.ordered (Nat.le_refl _)

/-- The tokens of a scan stand in a row within the text, each with its own piece of the text. -/
theorem scanFrom_placed (cs : List Char) (glued : Bool) :
    Placed Token.span (Sound (String.ofList cs)) 0 (scanFrom cs 0 glued 0) (Text.width cs) := by
  obtain ⟨front, rest, after, rfl, run, _⟩ :=
    exists_scanned_append (List.append_nil (scanFrom cs 0 glued 0)).symm
  have whole : (String.ofList (front ++ rest)).toList = [] ++ front ++ rest := by
    rw [String.toList_ofList, List.nil_append]
  refine Placed.widen (run.placed whole) (Nat.le_refl _) ?_
  rw [Text.width_nil, Nat.zero_add, Text.width_append]
  exact Nat.le_add_right _ _

/-- Scanning at another offset finds the same tokens, moved. -/
def shift (distance : Nat) (token : Token) : Token :=
  { token with span := token.span.shift distance }

theorem scanFrom_shift (cs : List Char) (pending : Nat) (glued : Bool) (offset distance : Nat) :
    scanFrom cs pending glued (offset + distance) =
      (scanFrom cs pending glued offset).map (shift distance) := by
  induction cs generalizing pending glued offset with
  | nil => simp only [scanFrom_nil, List.map_nil]
  | cons c cs ih =>
      have next : offset + distance + c.utf8Size = offset + c.utf8Size + distance :=
        Nat.add_right_comm _ _ _
      cases pending with
      | succ pending => rw [scanFrom, scanFrom, next, ih]
      | zero =>
          rw [scanFrom, scanFrom, next]
          dsimp only
          cases (Lexeme.read glued c cs).kind? with
          | none => exact ih _ _ _
          | some kind =>
              rw [List.map_cons, ← ih, ← next]
              simp only [shift, Span.shift, Nat.add_right_comm]

end Token

end Esql
