import Esql.Proofs.Token.Cut
import Mathlib.Data.List.TakeWhile

/-!
# The stages of a text

The pipes of a text divide it into stages. The tokens of a stage are those that the part of the text
between the pipes has by itself: nothing of them depends on what stands in the other stages.
-/

namespace Esql

/-- What stands between two pipes of a text, or before the first pipe or behind the last: the
tokens, the part of the text, and whether a pipe stands before it. -/
structure Stage where
  tokens : List Token
  span : Span
  piped : Bool

namespace Stage

/-- The parentheses of some tokens match, behind as many open ones as `depth` says. -/
def balancedFrom : (depth : Nat) → List Token → Bool
  | depth, [] => depth == 0
  | depth, token :: rest =>
      match token.kind with
      | .openParen => balancedFrom (depth + 1) rest
      | .closeParen => depth != 0 && balancedFrom (depth - 1) rest
      | _ => balancedFrom depth rest

def balanced (stage : Stage) : Bool := balancedFrom 0 stage.tokens

/-- Stages with one more token at the front of the first. -/
def push (token : Token) : List Stage → List Stage
  | [] => []
  | stage :: others => { stage with tokens := token :: stage.tokens } :: others

/-- The stages of the tokens that stand between two offsets of a text. -/
def divide (piped : Bool) (start stop : Nat) : List Token → List Stage
  | [] => [⟨[], ⟨start, stop⟩, piped⟩]
  | token :: rest =>
      if token.kind == .pipe then
        ⟨[], ⟨start, token.span.start⟩, piped⟩ :: divide true token.span.stop stop rest
      else push token (divide piped start stop rest)

section

variable {piped : Bool} {start stop : Nat} {front rest : List Token} {pipe : Token}

/-- Tokens without a pipe are one stage. -/
theorem divide_eq_singleton (noPipe : ∀ token ∈ front, token.kind ≠ .pipe) :
    divide piped start stop front = [⟨front, ⟨start, stop⟩, piped⟩] := by
  induction front with
  | nil => rfl
  | cons token front ih =>
      have other : (token.kind == .pipe) = false :=
        beq_eq_false_iff_ne.mpr (noPipe token List.mem_cons_self)
      rw [divide, other, if_neg Bool.false_ne_true,
        ih fun token member => noPipe token (List.mem_cons_of_mem _ member)]
      rfl

/-- The first stage ends at the first pipe. -/
theorem divide_eq_cons (noPipe : ∀ token ∈ front, token.kind ≠ .pipe) (found : pipe.kind = .pipe) :
    divide piped start stop (front ++ pipe :: rest) =
      ⟨front, ⟨start, pipe.span.start⟩, piped⟩ :: divide true pipe.span.stop stop rest := by
  induction front with
  | nil =>
      have same : (pipe.kind == .pipe) = true := beq_iff_eq.mpr found
      rw [List.nil_append, divide, same, if_pos rfl]
  | cons token front ih =>
      have other : (token.kind == .pipe) = false :=
        beq_eq_false_iff_ne.mpr (noPipe token List.mem_cons_self)
      rw [List.cons_append, divide, other, if_neg Bool.false_ne_true,
        ih fun token member => noPipe token (List.mem_cons_of_mem _ member)]
      rfl

end

theorem noPipe_of_mem_divide {piped : Bool} {start stop : Nat} {tokens : List Token} {stage : Stage}
    (member : stage ∈ divide piped start stop tokens) :
    ∀ token ∈ stage.tokens, token.kind ≠ .pipe := by
  induction tokens generalizing piped start stage with
  | nil =>
      obtain rfl := List.mem_singleton.mp member
      exact List.forall_mem_nil _
  | cons token tokens ih =>
      rw [divide] at member
      split at member
      · rcases List.mem_cons.mp member with rfl | later
        · exact List.forall_mem_nil _
        · exact ih later
      · rename_i other
        cases division : divide piped start stop tokens with
        | nil =>
            rw [division] at member
            cases member
        | cons first others =>
            have inner (stage : Stage) (inside : stage ∈ first :: others) :
                ∀ token ∈ stage.tokens, token.kind ≠ .pipe := by
              rw [← division] at inside
              exact ih inside
            rw [division] at member
            rcases List.mem_cons.mp member with rfl | later
            · intro next inside
              rcases List.mem_cons.mp inside with rfl | behind
              · exact fun found => other (beq_iff_eq.mpr found)
              · exact inner first List.mem_cons_self next behind
            · exact inner stage (List.mem_cons_of_mem _ later)

/-- The tokens up to the first pipe. -/
theorem exists_front (tokens : List Token) :
    ∃ front back, tokens = front ++ back ∧ (∀ token ∈ front, token.kind ≠ .pipe) ∧
      ∀ token ∈ back.head?, token.kind = .pipe := by
  induction tokens with
  | nil =>
      refine ⟨[], [], rfl, List.forall_mem_nil _, ?_⟩
      rintro _ ⟨⟩
  | cons token tokens ih =>
      by_cases found : token.kind = .pipe
      · refine ⟨[], token :: tokens, rfl, List.forall_mem_nil _, ?_⟩
        rintro _ ⟨⟩
        exact found
      · obtain ⟨front, back, rfl, noPipe, closed⟩ := ih
        refine ⟨token :: front, back, rfl, ?_, closed⟩
        intro other member
        rcases List.mem_cons.mp member with rfl | inside
        · exact found
        · exact noPipe other inside

end Stage

/-- The stages of a text, in order. -/
def stages (text : String) : List Stage :=
  Stage.divide false 0 (Text.byteLength text) (Token.scan text)

/-! ## Tokens one by one -/

namespace Token

/-- Of the marks only these five can have a second character. -/
theorem mark_alone {c : Char} (alone : c ∉ ['=', '!', '<', '>', ':']) (next : Option Char) :
    Lexeme.mark c next = Lexeme.mark c none := by
  unfold Lexeme.mark
  split <;> simp_all

/-- A mark of one character is a token, unless a number starts with it. -/
theorem scanFrom_mark {c : Char} {kind : TokenKind}
    (mark : Lexeme.mark c none = Lexeme.token kind 0)
    (alone : c ∉ ['=', '!', '<', '>', ':']) (plain : c ∉ ['/', '\x60', '\x22', '?'])
    (other : Text.isBlank c = false ∧ Text.startsName c = false) {glued : Bool} {rest : List Char}
    (noNumber : Lexeme.startsNumber glued c rest = false) (offset : Nat) :
    scanFrom (c :: rest) 0 glued offset =
      ⟨kind, String.ofList [c], ⟨offset, offset + Text.width [c]⟩⟩ ::
        scanFrom rest 0 true (offset + Text.width [c]) := by
  have read : Lexeme.read glued c ([] ++ rest) = Lexeme.token kind 0 := by
    simp only [List.mem_cons, List.not_mem_nil, not_or, or_false] at plain
    simp [Lexeme.read, other, noNumber, plain, mark_alone alone, mark]
  exact scanFrom_cons glued offset c read rfl

/-- A pipe is a token of one character. -/
theorem scanFrom_pipe (glued : Bool) (offset : Nat) (rest : List Char) :
    scanFrom ('|' :: rest) 0 glued offset =
      ⟨.pipe, "|", ⟨offset, offset + 1⟩⟩ :: scanFrom rest 0 true (offset + 1) :=
  scanFrom_mark rfl (by decide) (by decide) (by decide +kernel) rfl offset

theorem scanFrom_comma (glued : Bool) (offset : Nat) (rest : List Char) :
    scanFrom (',' :: rest) 0 glued offset =
      ⟨.comma, ",", ⟨offset, offset + 1⟩⟩ :: scanFrom rest 0 true (offset + 1) :=
  scanFrom_mark rfl (by decide) (by decide) (by decide +kernel) rfl offset

/-- Directly behind a token, a point is a token whatever follows. -/
theorem scanFrom_point (offset : Nat) (rest : List Char) :
    scanFrom ('.' :: rest) 0 true offset =
      ⟨.dot, ".", ⟨offset, offset + 1⟩⟩ :: scanFrom rest 0 true (offset + 1) := by
  have noNumber : Lexeme.startsNumber true '.' rest = false := by
    simp [Lexeme.startsNumber, Text.isDigit]
  exact scanFrom_mark rfl (by decide) (by decide) (by decide +kernel) noNumber offset

theorem scanFrom_blank (glued : Bool) (offset : Nat) (rest : List Char) :
    scanFrom (' ' :: rest) 0 glued offset = scanFrom rest 0 false (offset + 1) :=
  scanFrom_cons_blank (by decide) rest glued offset

theorem takeWhile_append_stop {member : Char → Bool} {front tail : List Char}
    (ends : ∀ c ∈ tail.head?, member c = false) :
    (front ++ tail).takeWhile member = front.takeWhile member := by
  cases tail with
  | nil => rw [List.append_nil]
  | cons c tail => exact Lexeme.takeWhile_cut (ends c rfl)

/-- The kind of a token with the characters of a name. -/
def nameKind (chars : List Char) : TokenKind :=
  match Keyword.ofWord? (String.ofList chars) with
  | some reserved => .keyword reserved
  | none => .word (String.ofList chars)

theorem read_name {c : Char} (starts : Text.startsName c = true) (glued : Bool) (cs : List Char) :
    Lexeme.read glued c cs =
      .token (nameKind (c :: cs.takeWhile Text.continuesName))
        (cs.takeWhile Text.continuesName).length := by
  have other : Text.isSeparator c = false := by
    refine Bool.eq_false_iff.mpr fun separator => ?_
    rw [Text.not_startsName_of_isSeparator separator] at starts
    cases starts
  simp only [Text.isSeparator, Bool.or_eq_false_iff, beq_eq_false_iff_ne] at other
  have prefixed := List.takeWhile_prefix Text.continuesName (l := cs)
  have taken := (List.prefix_iff_eq_take.mp prefixed).symm
  have read : Lexeme.read glued c cs = Lexeme.name c cs := by
    simp [Lexeme.read, other.1.1, other.2, starts]
  rw [read, Lexeme.name, Lexeme.runLength, taken, nameKind]
  cases Keyword.ofWord? (String.ofList (c :: cs.takeWhile Text.continuesName)) <;> rfl

/-- A name is one token, up to what does not go on with it. -/
theorem scanFrom_name {c : Char} {body tail : List Char} (starts : Text.startsName c = true)
    (continues : ∀ d ∈ body, Text.continuesName d = true)
    (ends : ∀ d ∈ tail.head?, Text.continuesName d = false) (glued : Bool) (offset : Nat) :
    scanFrom (c :: (body ++ tail)) 0 glued offset =
      ⟨nameKind (c :: body), String.ofList (c :: body),
        ⟨offset, offset + Text.width (c :: body)⟩⟩ ::
        scanFrom tail 0 true (offset + Text.width (c :: body)) := by
  have read := read_name starts glued (body ++ tail)
  rw [takeWhile_append_stop ends, List.takeWhile_eq_self_iff.mpr continues] at read
  exact scanFrom_cons glued offset c read List.take_left

/-- A word before a blank. -/
theorem scanFrom_word (c : Char) (body : List Char) (starts : Text.startsName c = true)
    (continues : body.all Text.continuesName = true)
    (plain : Keyword.ofWord? (String.ofList (c :: body)) = none) (glued : Bool) (offset : Nat)
    (rest : List Char) :
    scanFrom (c :: (body ++ ' ' :: rest)) 0 glued offset =
      ⟨.word (String.ofList (c :: body)), String.ofList (c :: body),
        ⟨offset, offset + Text.width (c :: body)⟩⟩ ::
        scanFrom rest 0 false (offset + Text.width (c :: body) + 1) := by
  have ends : ∀ d ∈ (' ' :: rest).head?, Text.continuesName d = false := by
    rintro _ ⟨⟩
    decide +kernel
  rw [scanFrom_name starts (List.all_eq_true.mp continues) ends, scanFrom_blank, nameKind, plain]

/-- The scan of a text behind `FROM a |`. -/
theorem scanFrom_lead (rest : List Char) :
    scanFrom ("FROM a |".toList ++ rest) 0 false 0 =
      scan "FROM a " ++ ⟨.pipe, "|", ⟨7, 8⟩⟩ :: scanFrom rest 0 true 8 := by
  have lead : scan "FROM a " = [⟨.word "FROM", "FROM", ⟨0, 4⟩⟩, ⟨.word "a", "a", ⟨5, 6⟩⟩] := by
    decide +kernel
  have verb := scanFrom_word 'F' ['R', 'O', 'M'] (by decide +kernel) (by decide +kernel)
    (by decide +kernel) false 0 ('a' :: ' ' :: '|' :: rest)
  have source := scanFrom_word 'a' [] (by decide +kernel) rfl (by decide +kernel) false 5
    ('|' :: rest)
  rw [lead]
  refine verb.trans (congrArg _ (source.trans (congrArg _ ?_)))
  exact scanFrom_pipe false 7 rest

end Token

/-! ## Stages in the text -/

/-- A stage of a longer text has the tokens of its own part of the text. -/
def Stage.Stands (text : List Char) (stage : Stage) : Prop :=
  ∃ before part after, text = before ++ part ++ after ∧
    stage.span = ⟨Text.width before, Text.width before + Text.width part⟩ ∧
    stage.tokens = (Token.scanFrom part 0 stage.piped 0).map (Token.shift (Text.width before))

/-- The first stage of a scan ends before the character of its pipe. -/
theorem Token.exists_stage {cs : List Char} {glued : Bool} {offset : Nat} {front rest : List Token}
    {pipe : Token} (found : pipe.kind = .pipe)
    (scan : scanFrom cs 0 glued offset = front ++ pipe :: rest) :
    ∃ part after, cs = part ++ '|' :: after ∧ scanFrom part 0 glued offset = front ∧
      pipe.span.start = offset + Text.width part ∧ pipe.span.stop = offset + Text.width part + 1 ∧
      scanFrom after 0 true (offset + Text.width part + 1) = rest := by
  obtain ⟨chars, left, middle, rfl, run, behind, _⟩ := exists_scanned_append scan
  obtain ⟨gap, c, after, last, rfl, skipped, kind, starts⟩ := exists_scanned_gap behind
  have isPipe : c = '|' := by
    rcases Lexeme.read_kind? last c after with ⟨noToken, _⟩ | ⟨other, some, onlyPipe⟩
    · rw [noToken] at kind
      cases kind
    · rw [kind, found] at some
      exact onlyPipe (Option.some.inj some).symm
  subst isPipe
  have whole := run.append skipped
  rw [List.append_nil] at whole
  have cuts : CutsBefore ('|' :: after) := by
    rintro _ ⟨⟩
    decide
  have alone := (whole.cut cuts).scanFrom_eq
  rw [scanFrom_nil, List.append_nil, List.append_nil] at alone
  have next := whole.scanFrom_eq
  rw [List.append_assoc, scan, List.append_cancel_left_eq, scanFrom_pipe] at next
  obtain ⟨rfl, rfl⟩ := List.cons.inj next
  refine ⟨chars ++ gap, after, (List.append_assoc _ _ _).symm, alone, rfl, rfl, rfl⟩

/-- Every stage of a scan has the tokens of its own part of the text. -/
theorem Stage.divide_stands {before cs : List Char} {piped : Bool} {tokens : List Token}
    (scan : Token.scanFrom cs 0 piped (Text.width before) = tokens) :
    ∀ stage ∈ divide piped (Text.width before) (Text.width (before ++ cs)) tokens,
      stage.Stands (before ++ cs) := by
  have moved (part : List Char) (glued : Bool) (before : List Char) :
      Token.scanFrom part 0 glued (Text.width before) =
        (Token.scanFrom part 0 glued 0).map (Token.shift (Text.width before)) := by
    rw [← Token.scanFrom_shift, Nat.zero_add]
  induction length : tokens.length using Nat.strongRecOn generalizing before cs piped tokens with
  | ind size ih =>
      obtain ⟨front, back, rfl, noPipe, closed⟩ := exists_front tokens
      cases back with
      | nil =>
          rw [List.append_nil] at scan ⊢
          rw [divide_eq_singleton noPipe]
          intro stage member
          obtain rfl := List.mem_singleton.mp member
          refine ⟨before, cs, [], by rw [List.append_nil], by rw [Text.width_append], ?_⟩
          rw [← scan, moved]
      | cons pipe rest =>
          have found := closed pipe rfl
          obtain ⟨part, after, rfl, alone, starts, stops, behind⟩ := Token.exists_stage found scan
          rw [divide_eq_cons noPipe found]
          intro stage member
          rcases List.mem_cons.mp member with rfl | later
          · refine ⟨before, part, '|' :: after, by rw [List.append_assoc], ?_, ?_⟩
            · rw [starts]
            · rw [← alone, moved]
          · have width : Text.width (before ++ part ++ ['|']) = pipe.span.stop := by
              rw [stops, Text.width_append, Text.width_append]
              rfl
            have whole : before ++ part ++ ['|'] ++ after = before ++ (part ++ '|' :: after) := by
              simp
            have shorter : rest.length < size := by
              rw [← length, List.length_append, List.length_cons]
              omega
            have scanned : Token.scanFrom after 0 true (Text.width (before ++ part ++ ['|'])) =
                rest := by
              rw [width, stops, behind]
            have stands := ih _ shorter scanned rfl
            rw [width, whole] at stands
            exact stands stage later

theorem stages_stand (text : String) : ∀ stage ∈ stages text, stage.Stands text.toList := by
  have scan : Token.scanFrom text.toList 0 false (Text.width []) = Token.scan text := rfl
  exact Stage.divide_stands scan

end Esql
