import Esql.Proofs.Syntax.Term
import Esql.Proofs.Token.Blank
import Esql.Proofs.Token.Names

/-!
# Scanning written terms

A written term becomes tokens that spell it: each leaf is a token or a column name, and brackets,
commas and operators stand where the tree has them. The one exception is a number that starts with
its decimal point, which is no number directly behind another token.
-/

namespace Esql

/-! ## Leaves -/

namespace Token

/-- Nothing follows, or a character before which a name, a number and a string stop. -/
def Stops (tail : List Char) : Prop := ∀ c ∈ tail.head?, Text.isStop c = true

theorem stops_nil : Stops [] := nofun

theorem stops_cons {c : Char} {tail : List Char} : Stops (c :: tail) ↔ Text.isStop c = true :=
  ⟨fun stops => stops c rfl, fun stop _ same => Option.some.inj same ▸ stop⟩

/-- Blanks and a character at which names and numbers stop. -/
theorem stops_blanks {pad tail : List Char} (blank : Text.Blank pad) {c : Char}
    (stop : Text.isStop c = true) : Stops (pad ++ [c] ++ tail) := by
  cases pad with
  | nil => exact stops_cons.mpr stop
  | cons d pad =>
      refine stops_cons.mpr (Text.isStop_of_isSeparator ?_)
      rw [Text.isSeparator, blank d List.mem_cons_self]
      rfl

theorem stops_blank {tail : List Char} : Stops (' ' :: tail) :=
  stops_cons.mpr (by decide +kernel)

theorem Stops.not_continuesName {tail : List Char} (stops : Stops tail) :
    ∀ c ∈ tail.head?, Text.continuesName c = false :=
  fun c next => Text.not_continuesName_of_isStop (stops c next)

end Token

namespace Lexeme

open Token

/-- A kind of token that goes on as far as its characters do. -/
def runsOn : TokenKind → Bool
  | .integer | .decimal | .param _ => true
  | _ => false

theorem nameKind_not_runsOn (chars : List Char) : runsOn (nameKind chars) = false := by
  unfold nameKind
  split <;> rfl

theorem mark_not_runsOn {c : Char} {next : Option Char} {kind : TokenKind} {more : Nat}
    (read : mark c next = token kind more) : runsOn kind = false := by
  unfold mark at read
  split at read <;> (cases read; rfl)

theorem quotedString_not_runsOn {cs : List Char} {kind : TokenKind} {more : Nat}
    (read : quotedString cs = token kind more) : runsOn kind = false := by
  obtain ⟨value, terminated, string⟩ := quotedString_kind? cs
  rw [read] at string
  cases string
  rfl

variable {c : Char} {cs tail : List Char} {kind : TokenKind} {more : Nat} {glued : Bool}

/-- What is read up to the end of a text is also read up to where it stops. -/
theorem cut_append {α : Type} (read : List Char → α) (stops : Stops tail)
    (cut : ∀ (separator : Char) rest, Text.isStop separator = true →
      read (cs ++ separator :: rest) = read cs) : read (cs ++ tail) = read cs := by
  cases tail with
  | nil => rw [List.append_nil]
  | cons separator rest => exact cut separator rest (stops separator rfl)

/-- A number is read as one behind another token, too, if it does not start with its point. -/
theorem startsNumber_apart (starts : startsNumber false c cs = true)
    (apart : glued = true → c ≠ '.') : startsNumber glued c cs = true := by
  cases glued with
  | false => exact starts
  | true => simpa [startsNumber, apart rfl] using starts

/-- Only numbers and parameters go on as far as their characters do. -/
theorem read_runsOn (found : read false c cs = token kind more) (runs : runsOn kind = true) :
    (¬ Text.isBlank c = true ∧ Text.startsName c = false ∧ startsNumber false c cs = true ∧
        number (c :: cs) = token kind more) ∨
      c = '?' ∧ parameter cs = token kind more := by
  have noName : Text.startsName c = false := by
    refine Bool.eq_false_iff.mpr fun starts => ?_
    rw [read_name starts] at found
    rw [← Option.some.inj (congrArg kind? found), nameKind_not_runsOn] at runs
    cases runs
  unfold read at found
  rw [noName, if_neg Bool.false_ne_true] at found
  split at found
  · cases found
  rename_i noBlank
  split at found
  · cases found
  split at found
  · cases found
  split at found
  · rename_i digits
    exact .inl ⟨noBlank, noName, digits, found⟩
  split at found
  · rw [quotedName] at found
    cases congrArg kind? found
    cases runs
  split at found
  · rw [quotedString_not_runsOn found] at runs
    cases runs
  split at found
  · rename_i question
    exact .inr ⟨beq_iff_eq.mp question, found⟩
  · rw [mark_not_runsOn found] at runs
    cases runs

/-- A token that goes on is read as it is alone, before a character that stops it. -/
theorem read_append (alone : read false c cs = token kind more) (runs : runsOn kind = true)
    (stops : Stops tail) (apart : glued = true → c ≠ '.') :
    read glued c (cs ++ tail) = token kind more := by
  rcases read_runsOn alone runs with ⟨noBlank, noName, digits, found⟩ | ⟨rfl, found⟩
  · have starts : startsNumber glued c (cs ++ tail) = true := by
      rw [cut_append (startsNumber glued c) stops fun separator rest stop =>
        startsNumber_cut stop glued c]
      exact startsNumber_apart digits apart
    have cut (separator : Char) (rest : List Char) (stop : Text.isStop separator = true) :
        number (c :: cs ++ separator :: rest) = number (c :: cs) :=
      number_cut stop
    rw [read_eq_number noBlank noName starts, ← found]
    exact cut_append (fun rest => number (c :: rest)) stops cut
  · rw [← found, ← cut_append parameter stops fun separator rest stop => parameter_cut stop]
    rfl

/-- What a string is written with is read as the string. -/
theorem stringBody_escape (value tail : List Char) :
    stringBody (Leaf.escape value ++ '\x22' :: tail) =
      (value, (Leaf.escape value).length + 1, true) := by
  induction value with
  | nil => rfl
  | cons c cs ih =>
      rw [Leaf.escape]
      split
      · rename_i special
        rw [Bool.or_eq_true, beq_iff_eq, beq_iff_eq] at special
        rw [List.cons_append, List.cons_append, stringBody, ih]
        rcases special with rfl | rfl <;> rfl
      · rename_i plain
        rw [Bool.or_eq_true, beq_iff_eq, beq_iff_eq, not_or] at plain
        rw [List.cons_append, stringBody_cons plain.2 plain.1, ih]
        rfl

/-- No quote stands at the front of what a string is written with. -/
theorem head?_escape (value : List Char) : (Leaf.escape value).head? ≠ some '\x22' := by
  cases value with
  | nil => exact nofun
  | cons c cs =>
      rw [Leaf.escape]
      split
      · exact fun same => absurd (Option.some.inj same) (by decide)
      · rename_i plain
        rw [Bool.or_eq_true, beq_iff_eq, beq_iff_eq, not_or] at plain
        exact fun same => plain.1 (Option.some.inj same)

theorem quotedString_escape (value : List Char) (stops : Stops tail) :
    quotedString (Leaf.escape value ++ '\x22' :: tail) =
      token (.string (String.ofList value) true) ((Leaf.escape value).length + 1) := by
  have single : ∀ rest, Leaf.escape value ++ '\x22' :: tail ≠ '\x22' :: '\x22' :: rest := by
    intro rest same
    cases escaped : Leaf.escape value with
    | nil =>
        rw [escaped] at same
        have quote := stops '\x22' (by rw [(List.cons.inj same).2]; rfl)
        exact absurd quote (by decide)
    | cons c cs =>
        rw [escaped] at same
        exact head?_escape value (by rw [escaped, (List.cons.inj same).1]; rfl)
  rw [quotedString, stringBody_escape]
  exact single

end Lexeme

/-! ## Runs of tokens -/

namespace Token

/-- A run of tokens of these kinds. -/
def Kinds (kinds : List TokenKind) (run : List Token) : Prop := run.map (·.kind) = kinds

/-- One token of a kind, with a text. -/
def Lone (kind : TokenKind) (text : String) (run : List Token) : Prop :=
  ∃ token, run = [token] ∧ token.kind = kind ∧ token.text = text

/-- A run of one sort, and behind it a run of another. -/
def Then (first second : List Token → Prop) (run : List Token) : Prop :=
  ∃ front back, run = front ++ back ∧ first front ∧ second back

/-- A run between brackets. -/
def Within (opens closes : TokenKind) (inner : List Token → Prop) : List Token → Prop :=
  Then (Kinds [opens]) (Then inner (Kinds [closes]))

/-- A run in parentheses. -/
def Group (inner : List Token → Prop) : List Token → Prop :=
  Within .openParen .closeParen inner

theorem Kinds.exists_cons {kind : TokenKind} {kinds : List TokenKind} {run : List Token}
    (holds : Kinds (kind :: kinds) run) :
    ∃ token rest, run = token :: rest ∧ token.kind = kind ∧ Kinds kinds rest :=
  List.map_eq_cons_iff.mp holds

theorem kinds_singleton {kind : TokenKind} {run : List Token} :
    Kinds [kind] run ↔ ∃ token, run = [token] ∧ token.kind = kind :=
  List.map_eq_singleton_iff

/-- A run between brackets starts with the one and ends with the other. -/
theorem exists_within {opens closes : TokenKind} {inner : List Token → Prop} {run : List Token}
    (within : Within opens closes inner run) :
    ∃ opening body closing, run = opening :: (body ++ [closing]) ∧ opening.kind = opens ∧
      inner body ∧ closing.kind = closes := by
  obtain ⟨_, _, rfl, first, body, _, rfl, inside, last⟩ := within
  obtain ⟨opening, rfl, opens⟩ := kinds_singleton.mp first
  obtain ⟨closing, rfl, closes⟩ := kinds_singleton.mp last
  exact ⟨opening, body, closing, rfl, opens, inside, closes⟩

/-- In front of a tail, characters are scanned as a run of tokens of some sort. -/
def Scans (sort : List Token → Prop) (glued : Bool) (chars tail : List Char) : Prop :=
  ∀ offset, ∃ run after stop, sort run ∧
    scanFrom (chars ++ tail) 0 glued offset = run ++ scanFrom tail 0 after stop

section

variable {first second sort : List Token → Prop} {glued : Bool} {chars others tail : List Char}

theorem Scans.append (front : Scans first glued chars (others ++ tail))
    (back : ∀ glued, Scans second glued others tail) :
    Scans (Then first second) glued (chars ++ others) tail := by
  intro offset
  obtain ⟨run, between, middle, holds, scanned⟩ := front offset
  obtain ⟨behind, after, stop, holds', scanned'⟩ := back between middle
  refine ⟨run ++ behind, after, stop, ⟨run, behind, rfl, holds, holds'⟩, ?_⟩
  rw [List.append_assoc, scanned, scanned', List.append_assoc]

theorem Scans.mono (scans : Scans first glued chars tail) (weaker : ∀ run, first run → second run) :
    Scans second glued chars tail := by
  intro offset
  obtain ⟨run, after, stop, holds, scanned⟩ := scans offset
  exact ⟨run, after, stop, weaker run holds, scanned⟩

theorem Scans.blanks {pad : List Char} (blank : Text.Blank pad)
    (scans : Scans sort (glued && pad.isEmpty) chars tail) :
    Scans sort glued (pad ++ chars) tail := by
  cases pad with
  | nil => simpa using scans
  | cons c pad =>
      intro offset
      rw [List.isEmpty_cons, Bool.and_false] at scans
      have others : Text.Blank pad := fun d member => blank d (List.mem_cons_of_mem _ member)
      obtain ⟨run, after, stop, holds, scanned⟩ := scans (offset + c.utf8Size + Text.width pad)
      refine ⟨run, after, stop, holds, ?_⟩
      rw [List.append_assoc, List.cons_append, scanFrom_cons_blank (blank c List.mem_cons_self),
        scanFrom_leading others, scanned]

theorem Scans.blank (scans : Scans sort false chars tail) :
    Scans sort glued (' ' :: chars) tail := by
  have blank : Text.Blank [' '] := List.forall_mem_singleton.mpr (by decide)
  refine .blanks blank ?_
  rwa [List.isEmpty_cons, Bool.and_false]

theorem Scans.trailing (scans : Scans sort glued chars (' ' :: tail)) :
    Scans sort glued (chars ++ [' ']) tail := by
  intro offset
  obtain ⟨run, after, stop, holds, scanned⟩ := scans offset
  refine ⟨run, false, stop + 1, holds, ?_⟩
  rw [List.append_assoc, List.singleton_append, scanned, scanFrom_blank]

/-- The empty text has no tokens. -/
theorem scans_nil : Scans (· = []) glued [] tail :=
  fun offset => ⟨[], glued, offset, rfl, rfl⟩

/-- A lexeme that is a token is scanned as that token. -/
theorem scans_lone {c : Char} {body : List Char} {kind : TokenKind}
    (read : Lexeme.read glued c (body ++ tail) = Lexeme.token kind body.length) :
    Scans (Lone kind (String.ofList (c :: body))) glued (c :: body) tail :=
  fun offset => ⟨_, true, _, ⟨_, rfl, rfl, rfl⟩, scanFrom_cons glued offset c read List.take_left⟩

theorem Lone.kinds {kind : TokenKind} {text : String} {run : List Token}
    (lone : Lone kind text run) : Kinds [kind] run := by
  obtain ⟨token, single, found, -⟩ := lone
  exact kinds_singleton.mpr ⟨token, single, found⟩

theorem Kinds.of_then {kinds more : List TokenKind} {run : List Token}
    (both : Then (Kinds kinds) (Kinds more) run) : Kinds (kinds ++ more) run := by
  obtain ⟨front, back, rfl, first, second⟩ := both
  rw [Kinds, List.map_append, first, second]

/-- A name is scanned as one token, before a character that does not go on with it. -/
theorem scans_name {c : Char} {body : List Char} (starts : Text.startsName c = true)
    (continues : body.all Text.continuesName = true)
    (ends : ∀ d ∈ tail.head?, Text.continuesName d = false) :
    Scans (Lone (nameKind (c :: body)) (String.ofList (c :: body))) glued (c :: body) tail :=
  fun offset => ⟨_, true, _, ⟨_, rfl, rfl, rfl⟩,
    scanFrom_name starts (List.all_eq_true.mp continues) ends glued offset⟩

end

/-- A mark of one character is scanned as its token, unless a number starts with it. -/
theorem scans_mark {c : Char} {kind : TokenKind} (mark : Lexeme.mark c none = Lexeme.token kind 0)
    (alone : c ∉ ['=', '!', '<', '>', ':']) (plain : c ∉ ['/', '\x60', '\x22', '?'])
    (other : Text.isBlank c = false ∧ Text.startsName c = false) {glued : Bool} {tail : List Char}
    (noNumber : Lexeme.startsNumber glued c tail = false) : Scans (Kinds [kind]) glued [c] tail :=
  fun offset => ⟨[⟨kind, String.ofList [c], _⟩], true, _, rfl,
    scanFrom_mark mark alone plain other noNumber offset⟩

/-- A character that ends a name or a number, and is a token whatever stands around it. -/
def IsMark (c : Char) (kind : TokenKind) : Prop :=
  Text.isStop c = true ∧ ∀ glued tail, Scans (Kinds [kind]) glued [c] tail

theorem isMark {c : Char} {kind : TokenKind} (mark : Lexeme.mark c none = Lexeme.token kind 0)
    (alone : c ∉ ['=', '!', '<', '>', ':']) (plain : c ∉ ['/', '\x60', '\x22', '?'])
    (other : Text.isBlank c = false ∧ Text.startsName c = false) (stop : Text.isStop c = true) :
    IsMark c kind := by
  have point : c ≠ '.' := Text.ne_of_isStop stop (by decide)
  refine ⟨stop, fun glued tail => scans_mark mark alone plain other ?_⟩
  rw [Lexeme.startsNumber, Text.not_isDigit_of_isStop stop, beq_eq_false_iff_ne.mpr point]
  rfl

theorem isMark_openParen : IsMark '(' .openParen :=
  isMark rfl (by decide) (by decide) (by decide +kernel) (by decide +kernel)

theorem isMark_closeParen : IsMark ')' .closeParen :=
  isMark rfl (by decide) (by decide) (by decide +kernel) (by decide +kernel)

theorem isMark_openBracket : IsMark '[' .openBracket :=
  isMark rfl (by decide) (by decide) (by decide +kernel) (by decide +kernel)

theorem isMark_closeBracket : IsMark ']' .closeBracket :=
  isMark rfl (by decide) (by decide) (by decide +kernel) (by decide +kernel)

theorem isMark_comma : IsMark ',' .comma :=
  isMark rfl (by decide) (by decide) (by decide +kernel) (by decide +kernel)

/-- A text in brackets is scanned between them. Directly behind the first one it must not start
with the point of a number. -/
theorem scans_enclosed {opening closing : Char} {opens closes : TokenKind} {pad chars : List Char}
    {sort : List Token → Prop} {pointed : Bool} (left : IsMark opening opens)
    (right : IsMark closing closes) (blank : Text.Blank pad)
    (apart : pad = [] → pointed = false)
    (inside : ∀ {glued : Bool} {tail : List Char}, Stops tail → (glued = true → pointed = false) →
      Scans sort glued chars tail) (glued : Bool) (tail : List Char) :
    Scans (Within opens closes sort) glued (Term.enclosed opening closing pad chars) tail := by
  refine (left.2 glued _).append fun glued =>
    .blanks blank (.append ?_ fun glued => .blanks blank ?_)
  · refine inside (stops_blanks blank right.1) fun beside => apart ?_
    rw [Bool.and_eq_true] at beside
    exact List.isEmpty_iff.mp beside.2
  · exact right.2 _ tail

/-! ## Operators -/

end Token

/-- The tokens of an operator. -/
def Connective.kinds : Connective → List TokenKind
  | .or => [.keyword .or]
  | .and => [.keyword .and]
  | .equal => [.equal]
  | .notEqual => [.notEqual]
  | .less => [.less]
  | .lessEqual => [.lessEqual]
  | .greater => [.greater]
  | .greaterEqual => [.greaterEqual]
  | .matching => [.colon]
  | .plus => [.plus]
  | .minus => [.minus]
  | .times => [.star]
  | .divided => [.slash]
  | .modulo => [.percent]
  | .like => [.keyword .like]
  | .rlike => [.keyword .rlike]
  | .notLike => [.keyword .not, .keyword .like]
  | .notRlike => [.keyword .not, .keyword .rlike]

def Sign.kind : Sign → TokenKind
  | .minus => .minus
  | .not => .keyword .not

/-- The tokens of a test for null. -/
def Term.nullTestKinds (negated : Bool) : List TokenKind :=
  .keyword .is :: if negated then [.keyword .not, .keyword .null] else [.keyword .null]

/-- The tokens of a membership test. -/
def Term.memberKinds (negated : Bool) : List TokenKind :=
  if negated then [.keyword .not, .keyword .in] else [.keyword .in]

/-- A reserved word in lower case. -/
def Keyword.chars (keyword : Keyword) : List Char := keyword.spelling.toList.map Char.toLower

namespace Token

section

variable {glued : Bool} {tail : List Char}

/-- A lexeme of a kind is scanned as a token of that kind. -/
theorem scans_read {c : Char} {body : List Char} {kind : TokenKind}
    (read : Lexeme.read glued c (body ++ tail) = Lexeme.token kind body.length) :
    Scans (Kinds [kind]) glued (c :: body) tail :=
  (scans_lone read).mono fun _ => Lone.kinds

/-- A reserved word is scanned as such. -/
theorem scans_reserved (keyword : Keyword) (stops : Stops tail) :
    Scans (Lone (.keyword keyword) (String.ofList keyword.chars)) glued keyword.chars tail := by
  have spelled : ∃ c body, keyword.chars = c :: body ∧ Text.startsName c = true ∧
      body.all Text.continuesName = true ∧ nameKind (c :: body) = .keyword keyword := by
    cases keyword <;> exact ⟨_, _, rfl, by decide +kernel⟩
  obtain ⟨c, body, chars, starts, continues, reserved⟩ := spelled
  rw [chars, ← reserved]
  exact scans_name starts continues stops.not_continuesName

theorem scans_keyword (keyword : Keyword) (stops : Stops tail) :
    Scans (Kinds [.keyword keyword]) glued keyword.chars tail :=
  (scans_reserved keyword stops).mono fun _ => Lone.kinds

/-- Reserved words are scanned one by one, with a blank before each further one. -/
theorem scans_keyword_cons (keyword : Keyword) {kinds : List TokenKind} {chars : List Char}
    (scans : Scans (Kinds kinds) false chars tail) :
    Scans (Kinds (.keyword keyword :: kinds)) glued (keyword.chars ++ ' ' :: chars) tail :=
  ((scans_keyword keyword stops_blank).append fun _ => .blank scans).mono fun _ => Kinds.of_then

end

end Token

theorem Connective.scans (connective : Connective) (tail : List Char) :
    Token.Scans (Token.Kinds connective.kinds) false connective.name.toList (' ' :: tail) := by
  cases connective
  case or => exact Token.scans_keyword .or Token.stops_blank
  case and => exact Token.scans_keyword .and Token.stops_blank
  case like => exact Token.scans_keyword .like Token.stops_blank
  case rlike => exact Token.scans_keyword .rlike Token.stops_blank
  case notLike => exact Token.scans_keyword_cons .not (Token.scans_keyword .like Token.stops_blank)
  case notRlike =>
    exact Token.scans_keyword_cons .not (Token.scans_keyword .rlike Token.stops_blank)
  all_goals exact Token.scans_read rfl

theorem Term.scans_nullTest (negated : Bool) {tail : List Char} (stops : Token.Stops tail) :
    Token.Scans (Token.Kinds (nullTestKinds negated)) false (nullTestName negated).toList tail := by
  cases negated with
  | false => exact Token.scans_keyword_cons .is (Token.scans_keyword .null stops)
  | true =>
      exact Token.scans_keyword_cons .is
        (Token.scans_keyword_cons .not (Token.scans_keyword .null stops))

theorem Term.scans_member (negated : Bool) (tail : List Char) :
    Token.Scans (Token.Kinds (memberKinds negated)) false (memberName negated).toList
      (' ' :: tail) := by
  cases negated with
  | false => exact Token.scans_keyword .in Token.stops_blank
  | true => exact Token.scans_keyword_cons .not (Token.scans_keyword .in Token.stops_blank)

/-! ## Columns -/

/-- The tokens are what a column is written with, which stands nowhere. -/
structure Column.SpelledBy (column : Column) (run : List Token) : Prop where
  spells : ∃ first others start stop, run = first :: others ∧
    Grammar.SpellsColumn false column.parts start stop first others
  ended : column.parts.getLast? ≠ some ""
  placed : column.toExtent = .nowhere
  name : column.name = Text.join "." column.parts
  quoted : column.quoted = run.any fun token => Grammar.isQuoted token.kind

/-- A bare name as a column, which stands nowhere. -/
def BareColumn.column (name : BareColumn) : Column := ⟨.nowhere, name.name, name.parts, false⟩

/-! ## Terms -/

namespace Term

open Token

/-- The tokens of a bare column name. -/
def SpellsName (name : BareColumn) (run : List Token) : Prop :=
  ∃ first others start stop, run = first :: others ∧
    Grammar.SpellsColumn false name.parts start stop first others ∧
    first.kind.isWord = true ∧ ∀ token ∈ run, Grammar.isBare token.kind = true

theorem SpellsName.column {name : BareColumn} {run : List Token} (spells : SpellsName name run) :
    name.column.SpelledBy run := by
  obtain ⟨first, others, start, stop, rfl, column, -, bare⟩ := spells
  refine ⟨⟨first, others, start, stop, rfl, column⟩, fun last => ?_, rfl, name.join_parts.symm, ?_⟩
  · exact name.nonempty_of_mem_parts "" (List.mem_of_getLast? last) rfl
  · refine (List.any_eq_false.mpr fun token member => ?_).symm
    rw [Grammar.not_isQuoted_of_isBare (bare token member)]
    exact Bool.false_ne_true

mutual

/-- The tokens are what a term is written with. -/
def Spells : Term → List Token → Prop
  | .column name => SpellsName name
  | .literal leaf => Lone leaf.tokenKind (String.ofList leaf.chars)
  | .list items => Within .openBracket .closeBracket (SpellsAll items)
  | .call name args => Then (Lone (.word name.name) name.name) (Group (SpellsAll args))
  | .binary connective left right =>
      Then (Group (Spells left)) (Then (Kinds connective.kinds) (Group (Spells right)))
  | .unary sign operand => Then (Kinds [sign.kind]) (Group (Spells operand))
  | .nullTest negated operand => Then (Group (Spells operand)) (Kinds (nullTestKinds negated))
  | .member negated operand items =>
      Then (Group (Spells operand)) (Then (Kinds (memberKinds negated)) (Group (SpellsAll items)))
  | .cast operand target =>
      Then (Group (Spells operand)) (Then (Kinds [.doubleColon]) (Kinds [.word target.name]))

/-- The tokens are what a list of terms is written with. -/
def SpellsAll : List Term → List Token → Prop
  | [] => (· = [])
  | [only] => Spells only
  | first :: second :: rest =>
      Then (Spells first) (Then (Kinds [.comma]) (SpellsAll (second :: rest)))

end

/-- A kind of token with which a term starts. -/
def startsTerm : TokenKind → Bool
  | .comma | .closeParen | .closeBracket | .star => false
  | _ => true

/-- A run in parentheses starts as a term does. -/
theorem startsTerm_group {inner : List Token → Prop} {group : List Token}
    (bracket : Group inner group) :
    ∃ first others, group = first :: others ∧ startsTerm first.kind = true := by
  obtain ⟨opening, body, closing, rfl, opens, -, -⟩ := exists_within bracket
  exact ⟨opening, _, rfl, opens ▸ rfl⟩

/-- A term starts with a token that ends no list and is no star. -/
theorem Spells.head {term : Term} {run : List Token} (spells : term.Spells run) :
    ∃ first others, run = first :: others ∧ startsTerm first.kind = true := by
  have grouped {inner back : List Token → Prop} (both : Then (Group inner) back run) :
      ∃ first others, run = first :: others ∧ startsTerm first.kind = true := by
    obtain ⟨_, _, rfl, group, -⟩ := both
    obtain ⟨first, others, rfl, starts⟩ := startsTerm_group group
    exact ⟨first, _, rfl, starts⟩
  cases term with
  | column name =>
      obtain ⟨first, others, -, -, rfl, -, word, -⟩ := spells
      refine ⟨first, others, rfl, ?_⟩
      cases kind : first.kind <;> rw [kind] at word <;> first | rfl | cases word
  | literal leaf =>
      obtain ⟨token, rfl, kind, -⟩ := spells
      refine ⟨token, [], rfl, ?_⟩
      rw [kind]
      cases leaf with
      | boolean value => cases value <;> rfl
      | _ => rfl
  | list items =>
      obtain ⟨opening, body, closing, rfl, opens, -, -⟩ := exists_within spells
      exact ⟨opening, _, rfl, opens ▸ rfl⟩
  | call name args =>
      obtain ⟨_, _, rfl, ⟨token, rfl, kind, -⟩, -⟩ := spells
      exact ⟨token, _, rfl, kind ▸ rfl⟩
  | unary sign operand =>
      obtain ⟨_, _, rfl, single, -⟩ := spells
      obtain ⟨token, rfl, kind⟩ := kinds_singleton.mp single
      refine ⟨token, _, rfl, ?_⟩
      rw [kind]
      cases sign <;> rfl
  | binary connective left right => exact grouped spells
  | nullTest negated operand => exact grouped spells
  | member negated operand items => exact grouped spells
  | cast operand target => exact grouped spells

theorem SpellsAll.head {term : Term} {items : List Term} {run : List Token}
    (spells : SpellsAll (term :: items) run) :
    ∃ first others, run = first :: others ∧ startsTerm first.kind = true := by
  cases items with
  | nil => exact Spells.head spells
  | cons second items =>
      obtain ⟨_, _, rfl, spelled, -⟩ := spells
      obtain ⟨first, others, rfl, starts⟩ := Spells.head spelled
      exact ⟨first, _, rfl, starts⟩

end Term

section

open Token

variable {glued : Bool} {tail : List Char} (stops : Stops tail)

include stops

theorem BareColumn.scans (name : BareColumn) :
    Scans (Term.SpellsName name) glued name.chars tail := by
  intro offset
  have given : Text.pieces '.' name.name.toList ≠ [] := by
    obtain ⟨piece, others, split⟩ := Text.exists_pieces '.' name.name.toList
    rw [split]
    exact List.cons_ne_nil _ _
  obtain ⟨first, others, spells, word, bare, scanned⟩ := Grammar.exists_dotted false given
    (Text.Quoted.plain_of_not_needsQuotes name.bare) name.read stops.not_continuesName glued offset
  rw [Text.dotted_pieces] at spells scanned
  exact ⟨first :: others, true, _, ⟨first, others, _, _, rfl, spells, word, bare⟩, scanned⟩

theorem BareWord.scans (word : BareWord) :
    Scans (Lone (.word word.name) word.name) glued word.chars tail := by
  have named : nameKind (word.first :: word.others) = .word word.name := by
    rw [nameKind, word.plain]
    rfl
  rw [← named]
  exact scans_name word.starts word.continues stops.not_continuesName

theorem Spelling.scans {kind : TokenKind} (spelling : Spelling kind)
    (runs : Lexeme.runsOn kind = true) (apart : glued = true → spelling.first ≠ '.') :
    Scans (Lone kind spelling.text) glued spelling.chars tail :=
  scans_lone (Lexeme.read_append spelling.alone runs stops apart)

theorem Leaf.scans (leaf : Leaf)
    (apart : glued = true → (Term.literal leaf).startsWithPoint = false) :
    Scans (Lone leaf.tokenKind (String.ofList leaf.chars)) glued leaf.chars tail := by
  have other {first : Char} {others : List Char} (chars : leaf.chars = first :: others) :
      glued = true → first ≠ '.' := by
    rintro beside rfl
    have noPoint := apart beside
    rw [Term.startsWithPoint, chars] at noPoint
    cases noPoint
  cases leaf with
  | integer digits => exact digits.scans stops rfl (other rfl)
  | decimal digits => exact digits.scans stops rfl (other rfl)
  | param name mark => exact mark.scans stops rfl (other rfl)
  | string value =>
      have body := Lexeme.quotedString_escape value.toList stops
      rw [String.ofList_toList] at body
      refine scans_lone ?_
      rw [List.append_assoc, List.length_append]
      exact body
  | boolean value =>
      cases value with
      | false => exact scans_reserved .false stops
      | true => exact scans_reserved .true stops
  | null => exact scans_reserved .null stops

end

theorem Sign.scans (sign : Sign) (glued : Bool) (tail : List Char) :
    Token.Scans (Token.Kinds [sign.kind]) glued sign.chars tail := by
  cases sign with
  | minus => exact Token.scans_mark rfl (by decide) (by decide) (by decide +kernel) rfl
  | not => exact (Token.scans_keyword .not Token.stops_blank).trailing

/-- The doubled colon of a cast. -/
theorem Token.scans_doubleColon (glued : Bool) (tail : List Char) :
    Scans (Kinds [.doubleColon]) glued [':', ':'] tail :=
  scans_read rfl

namespace Term

open Token

variable {pad : List Char}

theorem scans_group {sort : List Token → Prop} {chars : List Char} {pointed : Bool}
    (blank : Text.Blank pad) (apart : pad = [] → pointed = false)
    (inside : ∀ {glued : Bool} {tail : List Char}, Stops tail → (glued = true → pointed = false) →
      Scans sort glued chars tail) (glued : Bool) (tail : List Char) :
    Scans (Group sort) glued (enclosed '(' ')' pad chars) tail :=
  scans_enclosed isMark_openParen isMark_closeParen blank apart inside glued tail

mutual

/-- A written term is scanned as tokens that spell it. -/
theorem scans (blank : Text.Blank pad) : ∀ term : Term, (pad = [] → term.isFreeOfPoints = true) →
    ∀ {glued : Bool} {tail : List Char}, Stops tail →
      (glued = true → term.startsWithPoint = false) →
      Scans term.Spells glued (term.chars pad) tail
  | .column name, _, _, _, stops, _ => name.scans stops
  | .literal leaf, _, _, _, stops, apart => leaf.scans stops apart
  | .list items, free, glued, tail, _, _ => by
      simp only [isFreeOfPoints, Bool.and_eq_true, Bool.not_eq_true'] at free
      exact scans_enclosed isMark_openBracket isMark_closeBracket blank
        (fun tight => (free tight).2) (scansAll blank items fun tight => (free tight).1) glued tail
  | .call name args, free, glued, tail, _, _ => by
      simp only [isFreeOfPoints, Bool.and_eq_true, Bool.not_eq_true'] at free
      have group := scans_group blank (fun tight => (free tight).2)
        (scansAll blank args fun tight => (free tight).1)
      exact (name.scans (stops_cons.mpr isMark_openParen.1)).append fun glued => group glued tail
  | .binary connective left right, free, glued, tail, _, _ => by
      simp only [isFreeOfPoints, Bool.and_eq_true, Bool.not_eq_true'] at free
      have first := scans_group blank (fun tight => (free tight).1.1.2)
        (scans blank left fun tight => (free tight).1.1.1)
      have second := scans_group blank (fun tight => (free tight).2)
        (scans blank right fun tight => (free tight).1.2)
      exact (first glued _).append fun _ =>
        .blank ((connective.scans _).append fun _ => .blank (second false tail))
  | .unary sign operand, free, glued, tail, _, _ => by
      simp only [isFreeOfPoints, Bool.and_eq_true, Bool.not_eq_true'] at free
      have group := scans_group blank (fun tight => (free tight).2)
        (scans blank operand fun tight => (free tight).1)
      exact (sign.scans glued _).append fun glued => group glued tail
  | .nullTest negated operand, free, glued, tail, stops, _ => by
      simp only [isFreeOfPoints, Bool.and_eq_true, Bool.not_eq_true'] at free
      have group := scans_group blank (fun tight => (free tight).2)
        (scans blank operand fun tight => (free tight).1)
      exact (group glued _).append fun _ => .blank (scans_nullTest negated stops)
  | .member negated operand items, free, glued, tail, _, _ => by
      simp only [isFreeOfPoints, Bool.and_eq_true, Bool.not_eq_true'] at free
      have first := scans_group blank (fun tight => (free tight).1.1.2)
        (scans blank operand fun tight => (free tight).1.1.1)
      have second := scans_group blank (fun tight => (free tight).2)
        (scansAll blank items fun tight => (free tight).1.2)
      exact (first glued _).append fun _ =>
        .blank ((scans_member negated _).append fun _ => .blank (second false tail))
  | .cast operand target, free, glued, tail, stops, _ => by
      simp only [isFreeOfPoints, Bool.and_eq_true, Bool.not_eq_true'] at free
      have group := scans_group blank (fun tight => (free tight).2)
        (scans blank operand fun tight => (free tight).1)
      have name (glued : Bool) : Scans (Kinds [.word target.name]) glued target.chars tail :=
        (target.scans stops).mono fun _ => Lone.kinds
      exact (group glued _).append fun glued => (scans_doubleColon glued _).append name

theorem scansAll (blank : Text.Blank pad) :
    ∀ items : List Term, (pad = [] → areFreeOfPoints items = true) →
    ∀ {glued : Bool} {tail : List Char}, Stops tail →
      (glued = true → items.head?.any startsWithPoint = false) →
      Scans (SpellsAll items) glued (listed pad items) tail
  | [], _, _, _, _, _ => scans_nil
  | [only], free, glued, tail, stops, apart => by
      simp only [areFreeOfPoints, Bool.and_true] at free
      exact scans blank only free stops apart
  | first :: second :: rest, free, glued, tail, stops, apart => by
      have both (tight : pad = []) := (Bool.and_eq_true _ _).mp (free tight)
      have others : Scans (SpellsAll (second :: rest)) false (listed pad (second :: rest)) tail :=
        scansAll blank (second :: rest) (fun tight => (both tight).2) stops Bool.noConfusion
      refine .append (scans blank first (fun tight => (both tight).1)
        (stops_cons.mpr isMark_comma.1) apart) fun glued => ?_
      exact (isMark_comma.2 glued _).append fun _ => .blank others

end

end Term

end Esql
