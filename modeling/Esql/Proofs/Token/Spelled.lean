import Esql.Grammar.Names
import Esql.Proofs.Token.Blank
import Esql.Proofs.Token.Names
import Esql.Proofs.Token.Writes

/-!
# What tokens are written as

A word and a point are written as what they add to a name, and a quoted name is written longer than
that, with a backtick at each end. So the text under a column name is the name if and only if no
part of it is quoted.
-/

namespace Esql

namespace Text

/-- Neither the first nor the last character is a blank. -/
def Firm (cs : List Char) : Prop :=
  (∀ c ∈ cs.head?, isBlank c = false) ∧ ∀ c ∈ cs.getLast?, isBlank c = false

theorem trimStartChars_eq {cs : List Char} (firm : ∀ c ∈ cs.head?, isBlank c = false) :
    trimStartChars cs = cs := by
  cases cs with
  | nil => rfl
  | cons c cs => exact List.dropWhile_cons_of_neg (Bool.eq_false_iff.mp (firm c rfl))

theorem trim_eq {text : String} (firm : Firm text.toList) : trim text = text := by
  have back : trimStartChars text.toList.reverse = text.toList.reverse :=
    trimStartChars_eq (by rw [List.head?_reverse]; exact firm.2)
  rw [trim, trimChars, trimStartChars_eq firm.1, back, List.reverse_reverse, String.ofList_toList]

theorem Firm.append {front back : List Char} (first : Firm front) (second : Firm back) :
    Firm (front ++ back) := by
  refine ⟨fun c head => ?_, fun c last => ?_⟩
  · cases front with
    | nil => exact second.1 c head
    | cons d front => exact first.1 c head
  · rw [List.getLast?_append] at last
    cases behind : back.getLast? with
    | none => exact first.2 c (by rwa [behind] at last)
    | some d =>
        rw [behind] at last
        exact second.2 c (behind.trans last)

theorem firm_of_solid {cs : List Char} (solid : ∀ c ∈ cs, isBlank c = false) : Firm cs :=
  ⟨fun c head => solid c (List.mem_of_mem_head? head),
    fun c last => solid c (List.mem_of_getLast? last)⟩

end Text

namespace Lexeme

variable {glued : Bool} {c : Char} {cs : List Char} {kind : TokenKind} {more : Nat}

/-- A part of the name of a column, or a reserved word. -/
def isNaming (kind : TokenKind) : Bool :=
  Grammar.continuesColumn false kind || kind.keyword?.isSome

theorem mark_isNaming {next : Option Char} (read : mark c next = token kind more)
    (part : isNaming kind = true) : c = '.' ∧ kind = .dot ∧ more = 0 := by
  unfold mark at read
  split at read <;> cases read <;> first | exact ⟨rfl, rfl, rfl⟩ | cases part

/-- What names is read as a word, as a name in backticks or as a point. -/
theorem read_isNaming (read : Lexeme.read glued c cs = token kind more)
    (part : isNaming kind = true) :
    Text.startsName c = true ∨ (c = '\x60' ∧ quotedName cs = token kind more) ∨
      (c = '.' ∧ kind = .dot ∧ more = 0) := by
  rcases read_cases read with ⟨starts, -⟩ | ⟨-, digits⟩ | quoted | string | param | marked
  · exact .inl starts
  · unfold number at digits
    dsimp only at digits
    split at digits <;> cases digits <;> cases part
  · exact .inr (.inl quoted)
  · obtain ⟨value, terminated, kinds⟩ := quotedString_kind? cs
    rw [string] at kinds
    cases kinds
    cases part
  · cases param
    cases part
  · exact .inr (.inr (mark_isNaming marked part))

end Lexeme

/-- Tokens side by side go on to a boundary. -/
theorem Joined.ends {source : String} {start stop : Nat} {tokens : List Token}
    (joined : Joined start tokens stop) (first : Text.IsBoundary source.toList start)
    (sound : ∀ token ∈ tokens, token.Sound source) :
    start ≤ stop ∧ Text.IsBoundary source.toList stop := by
  induction joined with
  | nil start => exact ⟨Nat.le_refl _, first⟩
  | cons starts behind ih =>
      rw [List.forall_mem_cons] at sound
      obtain ⟨ordered, boundary⟩ := ih sound.1.fits.stops sound.2
      exact ⟨Nat.le_trans (starts ▸ sound.1.fits.ordered) ordered, boundary⟩

namespace Token

open Grammar

/-- What a token adds to the name of a column that it is part of. -/
def shown (kind : TokenKind) : String := if kind == .dot then "." else segment kind

/-- A part of a column name that is written as it should be. -/
structure Spelled (token : Token) : Prop where
  firm : Text.Firm token.text.toList
  bare : isQuoted token.kind = false → token.text = shown token.kind
  quoted : isQuoted token.kind = true → (shown token.kind).toList.length < token.text.toList.length

theorem firm_word {c : Char} {body : List Char} (starts : Text.startsName c = true)
    (continues : ∀ d ∈ body, Text.continuesName d = true) : Text.Firm (c :: body) := by
  refine Text.firm_of_solid (List.forall_mem_cons.mpr ⟨?_, fun d member => ?_⟩)
  · refine Bool.eq_false_iff.mpr fun blank => ?_
    rw [Text.not_startsName_of_isSeparator (by simp [Text.isSeparator, blank])] at starts
    cases starts
  · refine Bool.eq_false_iff.mpr fun blank => ?_
    have inside := continues d member
    rw [Text.not_continuesName_of_isBlank blank] at inside
    cases inside

/-- What is written as part of a column name is spelled as it should be. -/
theorem spelled_of_writes {stars : Bool} {token : Token}
    (writes : Lexeme.Writes token.kind token.text.toList)
    (part : continuesColumn stars token.kind = true) : token.Spelled := by
  obtain ⟨kind, text, span⟩ := token
  dsimp only at writes part
  generalize same : text.toList = chars at writes
  obtain rfl : text = String.ofList chars := by rw [← same, String.ofList_toList]
  have firm (firm : Text.Firm chars) : Text.Firm (String.ofList chars).toList := by
    rwa [String.toList_ofList]
  cases writes with
  | word starts continues => exact ⟨firm (firm_word starts continues), fun _ => rfl, nofun⟩
  | quoted name =>
      refine ⟨firm ⟨by rintro _ ⟨⟩; decide, ?_⟩, nofun, fun _ => ?_⟩
      · rw [← List.cons_append, List.getLast?_concat]
        rintro _ ⟨⟩
        decide
      · have longer := Text.Quoted.length_le_encode name
        simp only [shown, Grammar.segment, String.toList_ofList, List.length_cons, List.length_append]
        change (String.ofList name).toList.length < _
        rw [String.toList_ofList]
        omega
  | dot => exact ⟨firm (Text.firm_of_solid (List.forall_mem_singleton.mpr (by decide))),
      fun _ => rfl, nofun⟩
  | star => exact ⟨firm (Text.firm_of_solid (List.forall_mem_singleton.mpr (by decide))),
      fun _ => rfl, nofun⟩
  | integer | plus | minus => cases stars <;> cases part

/-- A part of a column name is written in one way if its quotes are closed. -/
theorem isWritten_of_continuesColumn {stars : Bool} {kind : TokenKind}
    (part : continuesColumn stars kind = true) (closed : isUnclosed kind = false) :
    Lexeme.isWritten kind = true := by
  cases kind with
  | word | dot | star => rfl
  | quoted name terminated => exact (Bool.not_eq_false' _).mp closed
  | _ => cases stars <;> cases part

/-! ## Runs of tokens -/

/-- What some tokens are written as, one after the other. -/
def written (tokens : List Token) : List Char := tokens.flatMap fun token => token.text.toList

/-- What some tokens add to the name of a column, one after the other. -/
def named (tokens : List Token) : List Char := tokens.flatMap fun token => (shown token.kind).toList

/-- The parts of a column name with points between them. -/
theorem toList_join_columnParts (tokens : List Token) :
    (Text.join "." (columnParts tokens)).toList = named tokens := by
  induction tokens with
  | nil => rfl
  | cons token rest ih =>
      obtain ⟨part, parts, behind⟩ := exists_columnParts rest
      rw [behind] at ih
      rw [named, List.flatMap_cons, ← named, ← ih]
      by_cases point : token.kind = .dot
      · rw [columnParts_point point, behind, shown, if_pos (beq_iff_eq.mpr point), Text.join,
          String.toList_append, String.toList_append]
        rfl
      · rw [columnParts_cons point behind, shown, if_neg fun same => point (beq_iff_eq.mp same)]
        cases parts with
        | nil => exact String.toList_append
        | cons second others =>
            rw [Text.join, Text.join]
            simp only [String.toList_append, List.append_assoc]

variable {tokens : List Token}

theorem firm_written (spelled : ∀ token ∈ tokens, token.Spelled) : Text.Firm (written tokens) := by
  induction tokens with
  | nil => exact ⟨nofun, nofun⟩
  | cons token rest ih =>
      rw [List.forall_mem_cons] at spelled
      rw [written, List.flatMap_cons]
      exact spelled.1.firm.append (ih spelled.2)

theorem written_eq_named (spelled : ∀ token ∈ tokens, token.Spelled)
    (bare : tokens.any (fun token => isQuoted token.kind) = false) :
    written tokens = named tokens := by
  have same : ∀ token ∈ tokens, token.text.toList = (shown token.kind).toList := by
    intro token member
    have plain := Bool.eq_false_iff.mpr (List.any_eq_false.mp bare token member)
    rw [(spelled token member).bare plain]
  rw [written, named, List.flatMap_def, List.flatMap_def, List.map_congr_left same]

/-- Where something is quoted, more is written than is added to the name. -/
theorem length_named_lt (spelled : ∀ token ∈ tokens, token.Spelled)
    (quoted : tokens.any (fun token => isQuoted token.kind) = true) :
    (named tokens).length < (written tokens).length := by
  have each (token : Token) (spelled : token.Spelled) :
      (shown token.kind).toList.length ≤ token.text.toList.length := by
    cases bare : isQuoted token.kind with
    | false => rw [spelled.bare bare]
    | true => exact Nat.le_of_lt (spelled.quoted bare)
  have most {tokens : List Token} (spelled : ∀ token ∈ tokens, token.Spelled) :
      (named tokens).length ≤ (written tokens).length := by
    induction tokens with
    | nil => exact Nat.le_refl _
    | cons token rest ih =>
        rw [List.forall_mem_cons] at spelled
        simp only [named, written, List.flatMap_cons, List.length_append]
        exact Nat.add_le_add (each token spelled.1) (ih spelled.2)
  induction tokens with
  | nil => cases quoted
  | cons token rest ih =>
      rw [List.forall_mem_cons] at spelled
      simp only [named, written, List.flatMap_cons, List.length_append]
      rw [List.any_cons, Bool.or_eq_true] at quoted
      rcases quoted with here | behind
      · exact Nat.add_lt_add_of_lt_of_le (spelled.1.quoted here) (most spelled.2)
      · exact Nat.add_lt_add_of_le_of_lt (each token spelled.1) (ih spelled.2 behind)

/-- Tokens side by side cover exactly what they are written as. -/
theorem slice_of_joined {source : String} {start stop : Nat} (joined : Joined start tokens stop)
    (sound : ∀ token ∈ tokens, token.Sound source) :
    (Span.slice ⟨start, stop⟩ source).toList = written tokens := by
  rw [Span.slice, String.toList_ofList]
  induction joined with
  | nil start => exact Text.sliceChars_self _ _
  | @cons start stop token rest starts behind ih =>
      rw [List.forall_mem_cons] at sound
      have fits := sound.1.fits
      have here : token.text.toList =
          Text.sliceChars source.toList token.span.start token.span.stop := by
        rw [sound.1.text_eq, Span.slice, String.toList_ofList]
      obtain ⟨ordered, boundary⟩ := behind.ends fits.stops sound.2
      rw [written, List.flatMap_cons, ← written, ← ih sound.2, here, ← starts]
      exact Text.sliceChars_append fits.starts fits.stops boundary fits.ordered ordered

end Token

end Esql
