import Esql.Grammar.Names
import Esql.Proofs.Text.Bare
import Esql.Proofs.Token.Stage

/-!
# Scanning written names

A name that is written bare becomes words and points side by side, as far as its stretches are read;
a quoted name becomes one token. What stands behind the name is scanned as if it stood alone.
-/

namespace Esql

open Text.Quoted

/-- Each token begins where the one before it ends. -/
inductive Joined : Nat → List Token → Nat → Prop where
  | nil (start : Nat) : Joined start [] start
  | cons {start stop : Nat} {token : Token} {rest : List Token} (starts : token.span.start = start)
      (behind : Joined token.span.stop rest stop) : Joined start (token :: rest) stop

theorem Joined.append {start middle stop : Nat} {front back : List Token}
    (first : Joined start front middle) (second : Joined middle back stop) :
    Joined start (front ++ back) stop := by
  induction first with
  | nil => exact second
  | cons starts _ ih => exact .cons starts (ih second)

/-- What stands behind a written name in a list of names: nothing, or a comma. -/
def Delimits (tail : List Char) : Prop := ∀ c ∈ tail.head?, c = ','

/-- No reserved word begins with an at sign. -/
theorem Keyword.ofWord?_at (cs : List Char) : ofWord? (String.ofList ('@' :: cs)) = none := by
  have first : (Text.lower (String.ofList ('@' :: cs))).toList.head? = some '@' := by
    rw [Text.lower, String.toList_ofList, String.toList_ofList]
    rfl
  rw [ofWord?, ofLower?.eq_def]
  split <;> first | rfl | (rename_i same; rw [same] at first; exact absurd first (by decide))

namespace Grammar

theorem columnParts_cons {token : Token} {rest : List Token} {part : String} {parts : List String}
    (plain : token.kind ≠ .dot) (behind : columnParts rest = part :: parts) :
    columnParts (token :: rest) = (segment token.kind ++ part) :: parts := by
  rw [columnParts, behind]
  dsimp only
  rw [if_neg fun point => plain (beq_iff_eq.mp point)]

/-- Tokens side by side that go on a stretch of a column name. -/
structure Spells (written : List Char) (start : Nat) (run : List Token) : Prop where
  joined : Joined start run (start + Text.width written)
  words : ∀ token ∈ run, token.kind.isWord = true
  parts : ∀ {others part parts}, columnParts others = part :: parts →
    columnParts (run ++ others) = (String.ofList written ++ part) :: parts

theorem Spells.append {front back : List Char} {start : Nat} {run others : List Token}
    (first : Spells front start run) (second : Spells back (start + Text.width front) others) :
    Spells (front ++ back) start (run ++ others) where
  joined := by
    rw [Text.width_append, ← Nat.add_assoc]
    exact first.joined.append second.joined
  words := List.forall_mem_append.mpr ⟨first.words, second.words⟩
  parts behind := by
    rw [List.append_assoc, first.parts (second.parts behind), String.ofList_append,
      String.append_assoc]

/-- A word spells its own characters. -/
theorem spells_word (chars : List Char) (start : Nat) :
    Spells chars start [⟨.word (String.ofList chars), String.ofList chars,
      ⟨start, start + Text.width chars⟩⟩] where
  joined := .cons rfl (.nil _)
  words := List.forall_mem_singleton.mpr rfl
  parts behind := columnParts_cons TokenKind.noConfusion behind

/-- A stretch without points that is read becomes words. -/
theorem exists_words {first : Char} {rest tail : List Char} (starts : Text.startsName first = true)
    (plain : Keyword.ofWord? (String.ofList (first :: rest.takeWhile Text.continuesName)) = none)
    (inside : ∀ c ∈ rest, Text.continuesName c = true ∨ c = '@')
    (ends : ∀ c ∈ tail.head?, Text.continuesName c = false) (glued : Bool) (offset : Nat) :
    ∃ word words, Spells (first :: rest) offset (word :: words) ∧
      Token.scanFrom (first :: (rest ++ tail)) 0 glued offset =
        word :: (words ++ Token.scanFrom tail 0 true (offset + Text.width (first :: rest))) := by
  induction length : rest.length using Nat.strongRecOn generalizing first rest glued offset with
  | ind size ih =>
      have whole := List.takeWhile_append_dropWhile (p := Text.continuesName) (l := rest)
      have continues : ∀ c ∈ rest.takeWhile Text.continuesName, Text.continuesName c = true :=
        List.all_eq_true.mp List.all_takeWhile
      have stops := List.head?_dropWhile_not Text.continuesName rest
      generalize rest.takeWhile Text.continuesName = body at *
      generalize rest.dropWhile Text.continuesName = left at *
      subst whole
      cases left with
      | nil =>
          rw [List.append_nil]
          refine ⟨_, [], spells_word _ _, ?_⟩
          rw [Token.scanFrom_name starts continues ends, Token.nameKind, plain]
          rfl
      | cons c left =>
          obtain rfl : c = '@' := (inside c (by simp)).resolve_left (by rw [stops]; decide)
          have further : ∀ d ∈ ('@' :: (left ++ tail)).head?, Text.continuesName d = false :=
            fun d same => Option.some.inj same ▸ stops
          obtain ⟨word, words, spells, scanned⟩ := ih left.length
            (by rw [← length, List.length_append, List.length_cons]; omega)
            (by decide +kernel) (Keyword.ofWord?_at _)
            (fun d member => inside d (by simp [member])) true
            (offset + Text.width (first :: body)) rfl
          refine ⟨_, word :: words, (spells_word (first :: body) offset).append spells, ?_⟩
          rw [List.append_assoc, List.cons_append, Token.scanFrom_name starts continues further,
            Token.nameKind, plain, scanned, Nat.add_assoc, ← Text.width_append]
          rfl

/-- No mark goes on with a name. -/
theorem mark_eq_other {c : Char} (continues : Text.continuesName c = true) (next : Option Char) :
    Lexeme.mark c next = .token (.other c) 0 := by
  unfold Lexeme.mark
  split <;> first | rfl | exact absurd continues (by decide)

/-- What stands where a stretch of a name begins starts a column name only if it is read. -/
theorem exists_read {c : Char} (inside : Text.continuesName c = true ∨ c = '@') (glued : Bool)
    (cs : List Char) : ∃ kind more, Lexeme.read glued c cs = .token kind more ∧ kind ≠ .dot ∧
      startsColumn true kind = (Text.startsName c &&
        (Keyword.ofWord? (String.ofList (c :: cs.takeWhile Text.continuesName))).isNone) := by
  cases starts : Text.startsName c with
  | true =>
      refine ⟨_, _, Token.read_name starts glued cs, ?_, ?_⟩
      · rw [Token.nameKind]
        split <;> exact TokenKind.noConfusion
      · rw [Token.nameKind, Bool.true_and]
        cases Keyword.ofWord? (String.ofList (c :: cs.takeWhile Text.continuesName)) <;> rfl
  | false =>
      have continues : Text.continuesName c = true := inside.resolve_right fun same => by
        rw [same] at starts
        exact absurd starts (by decide)
      have blank : Text.isBlank c = false := by
        refine Bool.eq_false_iff.mpr fun blank => ?_
        rw [Text.not_continuesName_of_isBlank blank] at continues
        contradiction
      have differs (d : Char) (outside : Text.continuesName d = false) : c ≠ d := by
        rintro rfl
        rw [continues] at outside
        contradiction
      have slash := differs '/' (by decide)
      have tick := differs '\x60' (by decide)
      have quote := differs '\x22' (by decide)
      have question := differs '?' (by decide)
      cases number : Lexeme.startsNumber glued c cs with
      | true =>
          have read : Lexeme.read glued c cs = Lexeme.number (c :: cs) := by
            simp [Lexeme.read, blank, slash, starts, number]
          refine ⟨_, _, read, ?_, ?_⟩
          · split <;> exact TokenKind.noConfusion
          · split <;> rfl
      | false =>
          refine ⟨.other c, 0, ?_, TokenKind.noConfusion, rfl⟩
          simp [Lexeme.read, blank, slash, starts, number, tick, quote, question,
            mark_eq_other continues]

/-- A stretch that is not read starts no column name. -/
theorem columnRun_eq_nil {segment tail : List Char} (plain : Plain segment)
    (unread : isReadable segment = false) (ends : ∀ c ∈ tail.head?, Text.continuesName c = false)
    (glued : Bool) (offset : Nat) :
    columnRun true (Token.scanFrom (segment ++ tail) 0 glued offset) = [] := by
  cases segment with
  | nil => exact absurd rfl plain.nonempty
  | cons c rest =>
      obtain ⟨kind, more, read, -, starts⟩ :=
        exists_read (plain.inside c (.head _)) glued (rest ++ tail)
      rw [isReadable] at unread
      rw [Token.takeWhile_append_stop ends, unread] at starts
      rw [List.cons_append, Token.scanFrom, read]
      exact if_neg (Bool.eq_false_iff.mp starts)

/-- A run of tokens is read on through tokens that stand side by side. -/
theorem exists_runFrom_append {member : TokenKind → Bool} {previous : Token} {run : List Token}
    {stop : Nat} (joined : Joined previous.span.stop run stop)
    (members : ∀ token ∈ run, member token.kind = true) (rest : List Token) :
    ∃ last, last.span.stop = stop ∧
      runFrom member previous (run ++ rest) = run ++ runFrom member last rest := by
  induction run generalizing previous with
  | nil =>
      cases joined
      exact ⟨previous, rfl, rfl⟩
  | cons token run ih =>
      rw [List.forall_mem_cons] at members
      cases joined with
      | cons starts behind =>
          obtain ⟨last, stops, runs⟩ := ih behind members.2
          have adjoins : previous.adjoins token = true := beq_iff_eq.mpr starts.symm
          refine ⟨last, stops, ?_⟩
          rw [List.cons_append, runFrom, adjoins, members.1, runs]
          rfl

/-- Tokens side by side that are read as a column name with these parts. -/
structure SpellsColumn (stars : Bool) (parts : List String) (start stop : Nat) (first : Token)
    (others : List Token) : Prop where
  joined : Joined start (first :: others) stop
  starts : startsColumn stars first.kind = true
  continues : ∀ token ∈ first :: others, continuesColumn stars token.kind = true
  closed : ∀ token ∈ first :: others, isUnclosed token.kind = false
  parts : columnParts (first :: others) = parts

theorem SpellsColumn.columnRun {stars : Bool} {parts : List String} {start stop : Nat}
    {first : Token} {others rest : List Token}
    (spells : SpellsColumn stars parts start stop first others)
    (ends : ∀ next ∈ rest.head?, continuesColumn stars next.kind = false) :
    columnRun stars (first :: (others ++ rest)) = first :: others := by
  cases spells.joined with
  | cons starts behind =>
      obtain ⟨last, -, runs⟩ :=
        exists_runFrom_append behind (List.forall_mem_cons.mp spells.continues).2 rest
      have nothing : runFrom (continuesColumn stars) last rest = [] := by
        cases rest with
        | nil => rfl
        | cons next rest =>
            rw [runFrom, ends next rfl, Bool.and_false]
            rfl
      rw [Grammar.columnRun, if_pos spells.starts, runs, nothing, List.append_nil]

theorem exists_columnParts (tokens : List Token) :
    ∃ part parts, columnParts tokens = part :: parts := by
  induction tokens with
  | nil => exact ⟨_, _, rfl⟩
  | cons token rest ih =>
      obtain ⟨part, parts, behind⟩ := ih
      rw [columnParts, behind]
      dsimp only
      split <;> exact ⟨_, _, rfl⟩

theorem columnParts_point {point : Token} (found : point.kind = .dot) (rest : List Token) :
    columnParts (point :: rest) = "" :: columnParts rest := by
  obtain ⟨part, parts, behind⟩ := exists_columnParts rest
  rw [columnParts, behind]
  exact if_pos (beq_iff_eq.mpr found)

theorem not_continuesName_of_delimits {tail : List Char} (ends : Delimits tail) :
    ∀ c ∈ tail.head?, Text.continuesName c = false :=
  fun c next => ends c next ▸ by decide

/-- A readable stretch spells itself in words, of which there is at least one. -/
theorem exists_segment {segment tail : List Char} (plain : Plain segment)
    (read : isReadable segment = true) (ends : ∀ c ∈ tail.head?, Text.continuesName c = false)
    (glued : Bool) (offset : Nat) :
    ∃ word words, Spells segment offset (word :: words) ∧
      Token.scanFrom (segment ++ tail) 0 glued offset =
        word :: (words ++ Token.scanFrom tail 0 true (offset + Text.width segment)) := by
  cases segment with
  | nil => exact absurd rfl plain.nonempty
  | cons first rest =>
      obtain ⟨starts, reserved⟩ := (Bool.and_eq_true _ _).mp read
      exact exists_words starts (Option.isNone_iff_eq_none.mp reserved)
        (fun c member => plain.inside c (.tail _ member)) ends glued offset

/-- A kind of token of which a column name without quotes is made. -/
def isBare (kind : TokenKind) : Bool := kind.isWord || kind == .dot

section

variable {stars : Bool} {kind : TokenKind}

theorem startsColumn_of_isWord (word : kind.isWord = true) : startsColumn stars kind = true := by
  cases kind with
  | word name => rfl
  | _ => cases word

theorem continuesColumn_of_isBare (bare : isBare kind = true) :
    continuesColumn stars kind = true := by
  cases kind with
  | word name => rfl
  | dot => rfl
  | _ => cases bare

theorem not_isQuoted_of_isBare (bare : isBare kind = true) : isQuoted kind = false := by
  cases kind with
  | quoted name terminated => cases bare
  | _ => rfl

theorem not_isUnclosed_of_isBare (bare : isBare kind = true) : isUnclosed kind = false := by
  cases kind with
  | quoted name terminated => cases bare
  | _ => rfl

end

theorem Spells.bare {written : List Char} {start : Nat} {run : List Token}
    (spells : Spells written start run) : ∀ token ∈ run, isBare token.kind = true := by
  intro token member
  rw [isBare, spells.words token member]
  rfl

/-- Readable stretches with points between them are read as a column name. -/
theorem exists_dotted (stars : Bool) {segments : List (List Char)} (given : segments ≠ [])
    (plain : ∀ segment ∈ segments, Plain segment) (read : segments.all isReadable = true)
    {tail : List Char} (ends : ∀ c ∈ tail.head?, Text.continuesName c = false) (glued : Bool)
    (offset : Nat) :
    ∃ first others, SpellsColumn stars (segments.map String.ofList) offset
        (offset + Text.width (Text.dotted segments)) first others ∧
      first.kind.isWord = true ∧ (∀ token ∈ first :: others, isBare token.kind = true) ∧
      Token.scanFrom (Text.dotted segments ++ tail) 0 glued offset =
        first :: (others ++
          Token.scanFrom tail 0 true (offset + Text.width (Text.dotted segments))) := by
  induction segments generalizing glued offset with
  | nil => contradiction
  | cons segment segments ih =>
      rw [List.forall_mem_cons] at plain
      rw [List.all_cons, Bool.and_eq_true] at read
      cases segments with
      | nil =>
          obtain ⟨word, words, spells, scanned⟩ := exists_segment plain.1 read.1 ends glued offset
          have starts := spells.words word (.head _)
          refine ⟨word, words, ⟨spells.joined, startsColumn_of_isWord starts, ?_, ?_, ?_⟩, starts,
            spells.bare, scanned⟩
          · exact fun token member => continuesColumn_of_isBare (spells.bare token member)
          · exact fun token member => not_isUnclosed_of_isBare (spells.bare token member)
          · have parts := spells.parts (rfl : columnParts [] = "" :: [])
            rwa [List.append_nil, String.append_empty] at parts
      | cons second rest =>
          obtain ⟨first, others, behind, -, bare, later⟩ := ih (List.cons_ne_nil _ _) plain.2 read.2
            true (offset + Text.width segment + 1)
          have point : ∀ c ∈ ('.' :: (Text.dotted (second :: rest) ++ tail)).head?,
              Text.continuesName c = false := fun c next => Option.some.inj next ▸ by decide
          obtain ⟨word, words, spells, scanned⟩ := exists_segment plain.1 read.1 point glued offset
          have width : offset + Text.width (Text.dotted (segment :: second :: rest)) =
              offset + Text.width segment + 1 + Text.width (Text.dotted (second :: rest)) := by
            rw [Text.dotted, Text.width_append, Text.width_cons, Nat.add_assoc, Nat.add_assoc]
            rfl
          rw [width]
          have starts := spells.words word (.head _)
          let point : Token :=
            ⟨.dot, ".", ⟨offset + Text.width segment, offset + Text.width segment + 1⟩⟩
          have all : ∀ token ∈ word :: (words ++ point :: first :: others),
              isBare token.kind = true := by
            rw [← List.cons_append, List.forall_mem_append]
            exact ⟨spells.bare, List.forall_mem_cons.mpr ⟨rfl, bare⟩⟩
          refine ⟨word, words ++ point :: first :: others,
            ⟨spells.joined.append (.cons rfl behind.joined), startsColumn_of_isWord starts, ?_, ?_,
              ?_⟩, starts, all, ?_⟩
          · exact fun token member => continuesColumn_of_isBare (all token member)
          · exact fun token member => not_isUnclosed_of_isBare (all token member)
          · rw [← List.cons_append, spells.parts (columnParts_point rfl _), String.append_empty,
              behind.parts]
            rfl
          · rw [Text.dotted, List.append_assoc, List.cons_append, scanned, Token.scanFrom_point,
              later]
            simp [point]

/-- What is read behind a stretch and a point goes on behind the stretch. -/
theorem Spells.columnParts_columnRun {written : List Char} {start : Nat} {word : Token}
    {words : List Token} (spells : Spells written start (word :: words)) {point : Token}
    (found : point.kind = .dot) (adjoins : point.span.start = start + Text.width written)
    (rest : List Token) :
    columnParts (columnRun true (word :: (words ++ point :: rest))) =
      String.ofList written :: columnParts (runFrom (continuesColumn true) point rest) := by
  have words' := List.forall_mem_cons.mp spells.bare
  have starts := spells.words word (.head _)
  cases spells.joined with
  | cons _ joined =>
      obtain ⟨last, stops, runs⟩ := exists_runFrom_append joined
        (fun token member => continuesColumn_of_isBare (words'.2 token member)) (point :: rest)
      have beside : last.adjoins point = true := beq_iff_eq.mpr (stops.trans adjoins.symm)
      have goesOn : continuesColumn true point.kind = true := by
        rw [found]
        rfl
      rw [columnRun, if_pos (startsColumn_of_isWord starts), runs, runFrom, beside, goesOn,
        ← List.cons_append]
      change columnParts (word :: words ++ point :: _) = _
      rw [spells.parts (columnParts_point found _), String.append_empty]

/-- Directly behind a token, a column name goes on where one would start. -/
theorem runFrom_eq_columnRun {segments : List (List Char)} {segment tail : List Char}
    (plain : Plain segment) {previous : Token} (glued : Bool) :
    runFrom (continuesColumn true) previous (Token.scanFrom
        (Text.dotted (segment :: segments) ++ tail) 0 glued previous.span.stop) =
      columnRun true (Token.scanFrom
        (Text.dotted (segment :: segments) ++ tail) 0 glued previous.span.stop) := by
  obtain ⟨c, rest, rfl⟩ := List.exists_cons_of_ne_nil plain.nonempty
  obtain ⟨more, whole⟩ : ∃ more, Text.dotted ((c :: rest) :: segments) ++ tail = c :: more := by
    cases segments <;> exact ⟨_, rfl⟩
  obtain ⟨kind, length, read, noPoint, -⟩ := exists_read (plain.inside c (.head _)) glued more
  have same : continuesColumn true kind = startsColumn true kind := by
    rw [continuesColumn, startsColumn, beq_eq_false_iff_ne.mpr noPoint, Bool.or_false]
  rw [whole, Token.scanFrom, read]
  change (if (previous.span.stop == previous.span.stop) && continuesColumn true kind
    then _ else _) =
    if startsColumn true kind then _ else _
  rw [same, beq_self_eq_true, Bool.true_and]

/-- Of stretches that are not all read, the column name that is read ends with a point, or there is
none. -/
theorem getLast?_columnParts_of_unread {segments : List (List Char)}
    (plain : ∀ segment ∈ segments, Plain segment) (unread : segments.all isReadable = false)
    {tail : List Char} (ends : Delimits tail) (glued : Bool) (offset : Nat) :
    (columnParts (columnRun true
      (Token.scanFrom (Text.dotted segments ++ tail) 0 glued offset))).getLast? = some "" := by
  induction segments generalizing glued offset with
  | nil => contradiction
  | cons segment segments ih =>
      rw [List.forall_mem_cons] at plain
      rw [List.all_cons, Bool.and_eq_false_iff] at unread
      cases segments with
      | nil =>
          have here := unread.resolve_right Bool.noConfusion
          rw [Text.dotted, columnRun_eq_nil plain.1 here (not_continuesName_of_delimits ends)]
          rfl
      | cons second rest =>
          have point : ∀ c ∈ ('.' :: (Text.dotted (second :: rest) ++ tail)).head?,
              Text.continuesName c = false := fun c next => Option.some.inj next ▸ by decide
          rw [Text.dotted, List.append_assoc, List.cons_append]
          cases read : isReadable segment with
          | false =>
              rw [columnRun_eq_nil plain.1 read point]
              rfl
          | true =>
              obtain ⟨word, words, spells, scanned⟩ :=
                exists_segment plain.1 read point glued offset
              have later := ih plain.2 (unread.resolve_left (by rw [read]; exact Bool.noConfusion))
                true (offset + Text.width segment + 1)
              rw [scanned, Token.scanFrom_point, spells.columnParts_columnRun rfl rfl]
              have second := (List.forall_mem_cons.mp plain.2).1
              rw [runFrom_eq_columnRun second]
              obtain ⟨part, parts, behind⟩ := exists_columnParts (columnRun true (Token.scanFrom
                (Text.dotted (_ :: rest) ++ tail) 0 true (offset + Text.width segment + 1)))
              rw [behind] at later ⊢
              exact later

/-! ## Written names -/

/-- A quoted name is read to the backtick that closes it. -/
theorem quotedBody_encode (name : List Char) {tail : List Char}
    (closed : tail.head? ≠ some '\x60') :
    Lexeme.quotedBody (encode name ++ '\x60' :: tail) = (name, (encode name).length + 1, true) := by
  induction name with
  | nil =>
      cases tail with
      | nil => rfl
      | cons c cs =>
          have other : c ≠ '\x60' := by simpa using closed
          simp [encode, Lexeme.quotedBody, other]
  | cons c cs ih =>
      by_cases tick : c = '\x60'
      · subst tick
        simp [encode, Lexeme.quotedBody, ih]
      · rw [encode, if_neg fun same => tick (beq_iff_eq.mp same), List.cons_append,
          Lexeme.quotedBody_cons tick, ih]
        rfl

theorem scanFrom_quoted (name : List Char) {tail : List Char} (closed : tail.head? ≠ some '\x60')
    (glued : Bool) (offset : Nat) :
    Token.scanFrom ('\x60' :: (encode name ++ ['\x60'] ++ tail)) 0 glued offset =
      ⟨.quoted (String.ofList name) true, String.ofList ('\x60' :: (encode name ++ ['\x60'])),
        ⟨offset, offset + Text.width ('\x60' :: (encode name ++ ['\x60']))⟩⟩ ::
        Token.scanFrom tail 0 true
          (offset + Text.width ('\x60' :: (encode name ++ ['\x60']))) := by
  have body : encode name ++ ['\x60'] ++ tail = encode name ++ '\x60' :: tail := by simp
  have read : Lexeme.read glued '\x60' (encode name ++ ['\x60'] ++ tail) =
      .token (.quoted (String.ofList name) true) ((encode name).length + 1) := by
    have blank : Text.isBlank '\x60' = false := by decide +kernel
    have noName : Text.startsName '\x60' = false := by decide +kernel
    have noNumber (rest : List Char) : Lexeme.startsNumber glued '\x60' rest = false := rfl
    rw [body]
    simp [Lexeme.read, blank, noName, noNumber, Lexeme.quotedName, quotedBody_encode name closed]
  have taken : (encode name ++ ['\x60'] ++ tail).take ((encode name).length + 1) =
      encode name ++ ['\x60'] := List.take_left' (by simp)
  exact Token.scanFrom_cons glued offset '\x60' read taken

/-- A quoted name is read as a column by itself. -/
theorem spellsColumn_quoted (stars : Bool) (name text : String) (span : Span) :
    SpellsColumn stars [name] span.start span.stop ⟨.quoted name true, text, span⟩ [] where
  joined := .cons rfl (.nil _)
  starts := rfl
  continues := List.forall_mem_singleton.mpr rfl
  closed := List.forall_mem_singleton.mpr rfl
  parts := by
    change [name ++ ""] = [name]
    rw [String.append_empty]

/-- What is written for a name that is read back is read as a column of that name. -/
theorem exists_written {name : String} (nonempty : name ≠ "") (back : readsBack name = true)
    {tail : List Char} (ends : Delimits tail) (glued : Bool) (offset : Nat) :
    ∃ parts stop first others, SpellsColumn true parts offset stop first others ∧
      Text.join "." parts = name ∧ parts.getLast? ≠ some "" ∧
      Token.scanFrom ((write name).toList ++ tail) 0 glued offset =
        first :: (others ++ Token.scanFrom tail 0 true stop) := by
  rw [readsBack, Bool.or_eq_true] at back
  cases quoted : needsQuotes name with
  | true =>
      rw [write, if_pos quoted, String.toList_ofList]
      have closed : tail.head? ≠ some '\x60' := fun tick => absurd (ends _ tick) (by decide)
      have scanned := scanFrom_quoted name.toList closed glued offset
      rw [String.ofList_toList] at scanned
      exact ⟨[name], _, _, [], spellsColumn_quoted true name _ ⟨_, _⟩, rfl,
        fun same => nonempty (Option.some.inj same), scanned⟩
  | false =>
      have plain := plain_of_not_needsQuotes quoted
      have read := back.resolve_left (by rw [quoted]; exact Bool.noConfusion)
      obtain ⟨piece, others, split⟩ := Text.exists_pieces '.' name.toList
      have given : Text.pieces '.' name.toList ≠ [] := by rw [split]; exact List.cons_ne_nil _ _
      obtain ⟨first, others, spells, -, -, scanned⟩ := exists_dotted true given plain read
        (not_continuesName_of_delimits ends) glued offset
      rw [Text.dotted_pieces] at spells scanned
      rw [write, quoted, if_neg Bool.false_ne_true]
      refine ⟨_, _, first, others, spells, ?_, ?_, scanned⟩
      · rw [Text.join_dotted, Text.dotted_pieces, String.ofList_toList]
      · rw [List.getLast?_map]
        intro last
        obtain ⟨segment, found, empty⟩ := Option.map_eq_some_iff.mp last
        refine (plain segment (List.mem_of_getLast? found)).nonempty ?_
        rw [← String.toList_ofList (l := segment), empty]
        rfl

/-- Of what is written for any other name, no column is read, or one that ends with a point. -/
theorem getLast?_columnParts_written {name : String} (lost : readsBack name = false)
    {tail : List Char} (ends : Delimits tail) (glued : Bool) (offset : Nat) :
    (columnParts (columnRun true
      (Token.scanFrom ((write name).toList ++ tail) 0 glued offset))).getLast? = some "" := by
  rw [readsBack, Bool.or_eq_false_iff] at lost
  obtain ⟨bare, unread⟩ := lost
  have plain := plain_of_not_needsQuotes bare
  have unread := getLast?_columnParts_of_unread plain unread ends glued offset
  rw [Text.dotted_pieces] at unread
  rwa [write, bare, if_neg Bool.false_ne_true]

end Grammar

end Esql
