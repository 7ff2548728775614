import Esql.Proofs.Token.Spelled
import Esql.Proofs.Token.Tiling

/-!
# A word behind the last pipe of a text

Behind a text whose last token is a pipe stand only blanks and comments. A blank and a word added
to it leave the tokens of the text as they are, and the tokens of the word follow them, unless the
text leaves a comment open that takes the word in.
-/

namespace Esql.Lexeme

variable {glued : Bool} {c : Char} {front rest : List Char}

/-! ## Lexemes before a pipe

What ends before a pipe ends there whatever stands behind the pipe.
-/

theorem quotedBody_ends_iff :
    (quotedBody (front ++ '|' :: rest)).2.1 ≤ front.length ↔ (quotedBody front).2.2 = true := by
  fun_induction quotedBody front with
  | case1 => simp [quotedBody]
  | case2 front value length terminated inner ih =>
      simpa [quotedBody, inner] using ih
  | case3 front once =>
      cases front with
      | nil => simp [quotedBody]
      | cons c front =>
          have other : c ≠ '\x60' := by
            rintro rfl
            exact once front rfl
          simp [quotedBody, other]
  | case4 c front _ plain value length terminated inner ih =>
      rw [List.cons_append, quotedBody_cons plain]
      simpa [inner] using ih

theorem stringBody_ends_iff :
    (stringBody (front ++ '|' :: rest)).2.1 ≤ front.length ↔ (stringBody front).2.2 = true := by
  fun_induction stringBody front with
  | case1 => simp [stringBody]
  | case2 => simp [stringBody]
  | case3 c front value length terminated inner ih =>
      simpa [stringBody, inner] using ih
  | case4 front => simp [stringBody]
  | case5 c front noEnd noPair plain value length terminated inner ih =>
      rw [List.cons_append, stringBody_cons (ne_backslash noEnd noPair) plain]
      simpa [inner] using ih

theorem lineComment_ends_iff :
    lineComment (front ++ '|' :: rest) ≤ front.length ↔ '\n' ∈ front := by
  induction front with
  | nil => simp [lineComment_cons]
  | cons c front ih =>
      rw [List.cons_append, lineComment_cons, List.mem_cons]
      by_cases newline : c = '\n'
      · simp [newline]
      · rw [if_neg newline, List.length_cons, Nat.add_le_add_iff_right, ih]
        simp [Ne.symm newline]

theorem throughMark_ends_iff (mark : List Char) :
    throughMark mark (front ++ '|' :: rest) ≤ front.length ↔
      (Text.splitAtFirst? mark front).isSome = true := by
  unfold throughMark
  constructor
  · intro ends
    cases found : Text.splitAtFirst? mark (front ++ '|' :: rest) with
    | none =>
        simp only [found, List.length_append, List.length_cons] at ends
        omega
    | some parts =>
        rw [found] at ends
        obtain ⟨left, inside⟩ := splitAtFirst?_cut found ends
        rw [inside]
        rfl
  · intro found
    obtain ⟨parts, inside⟩ := Option.isSome_iff_exists.mp found
    have lengths := congrArg List.length (Text.splitAtFirst?_append inside)
    rw [splitAtFirst?_append_right inside]
    simp only [List.length_append] at lengths ⊢
    omega

/-- A string that ends before a pipe ends there in triple quotes, too. -/
theorem quotedString_ends (ends : (quotedString (front ++ '|' :: rest)).more ≤ front.length)
    (others : List Char) : (quotedString (front ++ '|' :: others)).more ≤ front.length := by
  by_cases triple : ∃ tail, front = '\x22' :: '\x22' :: tail
  · obtain ⟨tail, rfl⟩ := triple
    have raw (rest : List Char) :
        (quotedString ('\x22' :: '\x22' :: tail ++ '|' :: rest)).more ≤ tail.length + 2 ↔
          throughMark tripleQuote (tail ++ '|' :: rest) ≤ tail.length := by
      change (rawString (tail ++ '|' :: rest)).more ≤ _ ↔ _
      unfold rawString throughMark
      split <;> simp [token, tripleQuote] <;> omega
    exact (raw others).mpr ((throughMark_ends_iff _).mpr ((throughMark_ends_iff _).mp
      ((raw rest).mp ends)))
  · have longer (rest : List Char) :
        ∀ tail, front ++ '|' :: rest ≠ '\x22' :: '\x22' :: tail := by
      intro tail same
      rcases front with _ | ⟨c, _ | ⟨d, front⟩⟩
      · cases same
      · cases same
      · simp only [List.cons_append, List.cons.injEq] at same
        exact triple ⟨front, by rw [same.1, same.2.1]⟩
    rw [quotedString_single (longer _)] at ends ⊢
    exact stringBody_ends_iff.mpr (stringBody_ends_iff.mp ends)

/-- What is no comment ends before a pipe whatever stands behind the pipe. -/
theorem read_plain_ends
    (noLine : (c == '/' && (front ++ '|' :: rest).head? == some '/') = false)
    (noBlock : (c == '/' && (front ++ '|' :: rest).head? == some '*') = false)
    (ends : (read glued c (front ++ '|' :: rest)).more ≤ front.length) (others : List Char) :
    (read glued c (front ++ '|' :: others)).more ≤ front.length := by
  have separates : Text.isSeparator '|' = true := rfl
  have stops := Text.isStop_of_isSeparator separates
  have next : (front ++ '|' :: others).head? = (front ++ '|' :: rest).head? := by
    cases front <;> rfl
  unfold read at ends ⊢
  rw [next]
  simp only [noLine, noBlock, startsNumber_cut stops, name_cut c stops, parameter_cut stops,
    Bool.false_eq_true, if_false] at ends ⊢
  split
  · exact Nat.zero_le _
  rename_i notBlank
  rw [if_neg notBlank] at ends
  split
  · rename_i name
    rwa [if_pos name] at ends
  rename_i notName
  rw [if_neg notName] at ends
  split
  · rename_i digits
    rw [if_pos digits] at ends
    have whole (rest : List Char) : number (c :: front ++ '|' :: rest) = number (c :: front) :=
      number_cut stops
    rw [← List.cons_append, whole] at ends ⊢
    exact ends
  rename_i notDigits
  rw [if_neg notDigits] at ends
  split
  · rename_i ticked
    rw [if_pos ticked] at ends
    exact quotedBody_ends_iff.mpr (quotedBody_ends_iff.mp ends)
  rename_i notTicked
  rw [if_neg notTicked] at ends
  split
  · rename_i quoted
    rw [if_pos quoted] at ends
    exact quotedString_ends ends others
  rename_i notQuoted
  rw [if_neg notQuoted] at ends
  split
  · rename_i question
    rwa [if_pos question] at ends
  · rename_i notQuestion
    rwa [if_neg notQuestion] at ends

/-- What ends before a pipe is the same whatever stands behind the pipe. -/
theorem read_before_pipe (ends : (read glued c (front ++ '|' :: rest)).more ≤ front.length)
    (others : List Char) :
    read glued c (front ++ '|' :: others) = read glued c (front ++ '|' :: rest) := by
  have separates : Text.isSeparator '|' = true := rfl
  suffices same : (read glued c (front ++ '|' :: others)).more ≤ front.length by
    rw [read_cut separates ends, read_cut separates same]
  by_cases slash : c = '/'
  · subst slash
    cases front with
    | nil => exact read_plain_ends rfl rfl ends others
    | cons d front =>
        by_cases line : d = '/'
        · subst line
          rw [List.cons_append, read_lineComment, List.length_cons, skip, Nat.add_comm,
            Nat.add_le_add_iff_right] at ends ⊢
          exact lineComment_ends_iff.mpr (lineComment_ends_iff.mp ends)
        by_cases block : d = '*'
        · subst block
          rw [List.cons_append, read_blockComment, List.length_cons, skip, Nat.add_comm,
            Nat.add_le_add_iff_right] at ends ⊢
          exact (throughMark_ends_iff _).mpr ((throughMark_ends_iff _).mp ends)
        · exact read_plain_ends (by simp [line]) (by simp [block]) ends others
  · exact read_plain_ends (by simp [slash]) (by simp [slash]) ends others

/-! ## Comments that a text leaves open -/

variable {line body back : List Char}

theorem lineComment_closed (within : '\n' ∉ line) (rest : List Char) :
    lineComment (line ++ '\n' :: rest) = line.length + 1 := by
  induction line with
  | nil => simp [lineComment_cons]
  | cons c line ih =>
      rw [List.mem_cons, not_or] at within
      rw [List.cons_append, lineComment_cons, if_neg (Ne.symm within.1), ih within.2,
        List.length_cons]

theorem lineComment_open (within : '\n' ∉ line) : lineComment line = line.length := by
  rcases lineComment_cases line with ⟨_, _, rfl, _, _⟩ | ⟨_, taken⟩
  · simp at within
  · exact taken

/-- The mark that closes a comment. -/
abbrev commentEnd : List Char := ['*', '/']

/-- No comment closes before its text does. -/
theorem not_closes {c : Char} {next : List Char} (within : ¬ commentEnd <+: c :: body)
    (apart : next.head? ≠ some '/') : commentEnd.isPrefixOf (c :: (body ++ next)) = false := by
  refine Bool.eq_false_iff.mpr fun starts => ?_
  obtain ⟨rest, same⟩ := List.isPrefixOf_iff_prefix.mp starts
  cases body with
  | nil =>
      rw [List.nil_append] at same
      obtain ⟨-, tail⟩ := List.cons.inj same
      exact apart (by rw [← tail]; rfl)
  | cons d body =>
      obtain ⟨rfl, tail⟩ := List.cons.inj same
      obtain ⟨rfl, -⟩ := List.cons.inj tail
      exact within ⟨body, rfl⟩

theorem throughMark_closed (within : ¬ commentEnd <:+: body) (rest : List Char) :
    throughMark commentEnd (body ++ '*' :: '/' :: rest) = body.length + 2 := by
  have found : Text.splitAtFirst? commentEnd (body ++ '*' :: '/' :: rest) = some (body, rest) := by
    have found := Text.splitAtFirst?_behind (by decide) within rest
    rwa [List.append_assoc] at found
  rw [throughMark, found]
  rfl

theorem throughMark_open (within : ¬ commentEnd <:+: body) (plain : '*' ∉ back) :
    throughMark commentEnd (body ++ ' ' :: back) = (body ++ ' ' :: back).length := by
  suffices missing : Text.splitAtFirst? commentEnd (body ++ ' ' :: back) = none by
    rw [throughMark, missing]
  induction body with
  | nil =>
      cases found : Text.splitAtFirst? commentEnd ([] ++ ' ' :: back) with
      | none => rfl
      | some parts =>
          have member : '*' ∈ parts.1 ++ commentEnd ++ parts.2 := by simp
          rw [← Text.splitAtFirst?_append found] at member
          simp [plain] at member
  | cons c body ih =>
      rw [List.infix_cons_iff, not_or] at within
      rw [List.cons_append, Text.splitAtFirst?, not_closes within.1 (by simp), ih within.2]
      rfl

end Esql.Lexeme

namespace Esql.Token

open Lexeme

section

variable {line body rest : List Char} (glued : Bool) (offset : Nat)

theorem scanFrom_skip {c : Char} (read : Lexeme.read glued c (body ++ rest) = skip body.length) :
    scanFrom (c :: (body ++ rest)) 0 glued offset =
      scanFrom rest 0 false (offset + Text.width (c :: body)) :=
  scanFrom_cons glued offset c read List.take_left

theorem scanFrom_line (within : '\n' ∉ line) :
    scanFrom ('/' :: '/' :: (line ++ '\n' :: rest)) 0 glued offset =
      scanFrom rest 0 false (offset + Text.width ('/' :: '/' :: (line ++ ['\n']))) := by
  have read : Lexeme.read glued '/' ('/' :: (line ++ ['\n']) ++ rest) =
      skip ('/' :: (line ++ ['\n'])).length := by
    rw [List.cons_append, List.append_assoc, List.singleton_append, read_lineComment,
      lineComment_closed within]
    simp [Nat.add_comm]
  have passed := scanFrom_skip glued offset read
  simpa using passed

theorem scanFrom_openLine (within : '\n' ∉ line) :
    scanFrom ('/' :: '/' :: line) 0 glued offset = [] := by
  have read : Lexeme.read glued '/' ('/' :: line ++ []) = skip ('/' :: line).length := by
    rw [List.append_nil, read_lineComment, lineComment_open within, List.length_cons, Nat.add_comm]
  have passed := scanFrom_skip glued offset read
  rwa [List.append_nil, scanFrom_nil] at passed

theorem scanFrom_block (within : ¬ commentEnd <:+: body) :
    scanFrom ('/' :: '*' :: (body ++ '*' :: '/' :: rest)) 0 glued offset =
      scanFrom rest 0 false (offset + Text.width ('/' :: '*' :: (body ++ commentEnd))) := by
  have read : Lexeme.read glued '/' ('*' :: (body ++ commentEnd) ++ rest) =
      skip ('*' :: (body ++ commentEnd)).length := by
    rw [List.cons_append, List.append_assoc, read_blockComment]
    change skip (1 + throughMark commentEnd (body ++ '*' :: '/' :: rest)) = _
    rw [throughMark_closed within]
    simp [Nat.add_comm]
  have passed := scanFrom_skip glued offset read
  simpa using passed

theorem scanFrom_openBlock {back : List Char} (within : ¬ commentEnd <:+: body)
    (plain : '*' ∉ back) :
    scanFrom ('/' :: '*' :: (body ++ ' ' :: back)) 0 glued offset = [] := by
  have read : Lexeme.read glued '/' ('*' :: (body ++ ' ' :: back) ++ []) =
      skip ('*' :: (body ++ ' ' :: back)).length := by
    rw [List.append_nil, read_blockComment]
    change skip (1 + throughMark commentEnd (body ++ ' ' :: back)) = _
    rw [throughMark_open within plain, List.length_cons, Nat.add_comm]
  have passed := scanFrom_skip glued offset read
  rwa [List.append_nil, scanFrom_nil] at passed

end

/-- A blank and what comes behind it are read behind the gap. -/
def Passed (gap : List Char) : Prop :=
  ∀ back glued offset, scanFrom (gap ++ ' ' :: back) 0 glued offset =
    scanFrom back 0 false (offset + Text.width gap + 1)

/-- The gap takes in a blank and all behind it that does not end a comment. -/
def TakesIn (gap : List Char) : Prop :=
  ∀ back, '\n' ∉ back → '*' ∉ back → ∀ glued offset,
    scanFrom (gap ++ ' ' :: back) 0 glued offset = []

/-- What is passed over in front of a gap changes nothing. -/
theorem passed_or_takesIn {front gap : List Char}
    (first : ∀ back glued offset, scanFrom (front ++ back) 0 glued offset =
      scanFrom back 0 false (offset + Text.width front))
    (cases : Passed gap ∨ TakesIn gap) : Passed (front ++ gap) ∨ TakesIn (front ++ gap) := by
  refine cases.imp (fun passed back glued offset => ?_) fun taken back line star glued offset => ?_
  · rw [List.append_assoc, first, passed, Text.width_append, Nat.add_assoc offset]
  · rw [List.append_assoc, first, taken back line star]

/-- What stands behind the last token of a text is passed over or ends in an open comment. -/
theorem Void.passed_or_takesIn {gap rest : List Char} (void : Void gap rest) (ended : rest = []) :
    Passed gap ∨ TakesIn gap := by
  induction void with
  | nil => exact .inl fun back glued offset => scanFrom_blank glued offset back
  | @blank c gap _ blank _ ih =>
      have first : ∀ back glued offset, scanFrom ([c] ++ back) 0 glued offset =
          scanFrom back 0 false (offset + Text.width [c]) :=
        fun back glued offset => scanFrom_cons_blank blank back glued offset
      exact Token.passed_or_takesIn first (ih ended)
  | @line line gap _ within _ ih =>
      have first : ∀ back glued offset,
          scanFrom ('/' :: '/' :: (line ++ ['\n']) ++ back) 0 glued offset =
            scanFrom back 0 false (offset + Text.width ('/' :: '/' :: (line ++ ['\n']))) := by
        intro back glued offset
        rw [← scanFrom_line glued offset within]
        simp
      simpa using Token.passed_or_takesIn first (ih ended)
  | lastLine within =>
      refine .inr fun back line star glued offset => scanFrom_openLine glued offset ?_
      simp [within, line]
  | @block body gap _ within _ ih =>
      have first : ∀ back glued offset,
          scanFrom ('/' :: '*' :: (body ++ commentEnd) ++ back) 0 glued offset =
            scanFrom back 0 false (offset + Text.width ('/' :: '*' :: (body ++ commentEnd))) := by
        intro back glued offset
        rw [← scanFrom_block glued offset within]
        simp
      simpa using Token.passed_or_takesIn first (ih ended)
  | openBlock within =>
      exact .inr fun back line star glued offset => scanFrom_openBlock glued offset within star

/-- What is read before a pipe is read before it whatever stands behind the pipe. -/
theorem Scanned.before_pipe {glued after : Bool} {offset : Nat} {front rest : List Char}
    {tokens : List Token} (run : Scanned glued offset front ('|' :: rest) tokens after)
    (others : List Char) : Scanned glued offset front ('|' :: others) tokens after := by
  generalize behind : '|' :: rest = whole at run
  induction run with
  | nil => exact .nil
  | @cons glued after offset c body front _ lexeme tokens read taken tail ih =>
      subst behind
      obtain ⟨short, ends⟩ := take_append_eq taken
      have most := ends (List.cons_ne_nil _ _)
      rw [← List.append_assoc] at read
      have same := read_before_pipe (by rwa [read]) others
      refine .cons (by rw [← List.append_assoc, same, read]) ?_ (ih rfl)
      rw [← List.append_assoc, List.take_append_of_le_length most, short]

/-- A text whose last token is a pipe, up to that pipe and behind it. -/
theorem exists_pipe_end {text : String} {front : List Token} {pipe : Token}
    (tokens : scan text = front ++ [pipe]) (found : pipe.kind = .pipe) :
    ∃ before gap after, text.toList = before ++ '|' :: gap ∧
      Scanned false 0 before ('|' :: gap) front after ∧ Void gap [] ∧
      pipe = ⟨.pipe, "|", ⟨Text.width before, Text.width before + 1⟩⟩ := by
  obtain ⟨chars, rest, middle, whole, run, behind, -⟩ := exists_scanned_append tokens
  obtain ⟨skipped, c, gap, after, rfl, passed, read, -⟩ := exists_scanned_gap behind
  obtain rfl : c = '|' := by
    rcases Lexeme.read_kind? after c gap with ⟨none, -⟩ | ⟨kind, some, only⟩
    · rw [none] at read
      cases read
    · rw [some] at read
      exact only ((Option.some.inj read).trans found)
  have both := run.append passed
  rw [List.append_nil] at both
  rw [passed.scanFrom_eq, List.nil_append, scanFrom_pipe, Nat.zero_add, ← Text.width_append]
    at behind
  obtain ⟨same, nothing⟩ := List.cons.inj behind
  refine ⟨chars ++ skipped, gap, after, ?_, both, ?_, same.symm⟩
  · rw [whole, List.append_assoc]
  · obtain ⟨void, rest, glued, rfl, isVoid, scanned, starts⟩ := exists_void gap true _
    rw [nothing] at scanned
    cases rest with
    | nil => rwa [List.append_nil]
    | cons d rest =>
        obtain ⟨kind, some⟩ := Option.ne_none_iff_exists'.mp (starts d rest rfl)
        rw [scanFrom, some] at scanned
        cases scanned

/-- The text leaves a comment open: a pipe that is put behind it is no token. -/
def Commented (text : String) : Prop := scan (text ++ " " ++ "|") = scan text

instance (text : String) : Decidable (Commented text) :=
  inferInstanceAs (Decidable (scan (text ++ " " ++ "|") = scan text))

section

variable {text : String} (ends : (scan text).getLast?.map (·.kind) = some .pipe)

include ends

/-- What is written behind a blank follows the tokens of the text, or is none of them. -/
theorem scan_behind_pipe :
    (∀ word, scan (text ++ " " ++ word) =
        scan text ++ (scan word).map (shift (Text.byteLength text + 1))) ∨
      ∀ word : String, '\n' ∉ word.toList → '*' ∉ word.toList →
        scan (text ++ " " ++ word) = scan text := by
  obtain ⟨pipe, last, found⟩ := Option.map_eq_some_iff.mp ends
  obtain ⟨front, tokens⟩ := List.getLast?_eq_some_iff.mp last
  obtain ⟨before, gap, after, whole, run, void, rfl⟩ := exists_pipe_end tokens found
  have added (word : String) : (text ++ " " ++ word).toList =
      before ++ '|' :: (gap ++ ' ' :: word.toList) := by
    simp [whole]
  have length : Text.byteLength text = Text.width before + 1 + Text.width gap := by
    rw [Text.byteLength, whole, Text.width_append, Text.width_cons, Nat.add_assoc]
    rfl
  have read (word : String) : scan (text ++ " " ++ word) =
      scan text ++ scanFrom (gap ++ ' ' :: word.toList) 0 true (Text.width before + 1) := by
    rw [scan, added, (run.before_pipe _).scanFrom_eq, scanFrom_pipe, tokens, Nat.zero_add,
      List.append_assoc]
    rfl
  refine (void.passed_or_takesIn rfl).imp (fun passed word => ?_) fun taken word line star => ?_
  · have moved := scanFrom_shift word.toList 0 false 0 (Text.byteLength text + 1)
    rw [Nat.zero_add] at moved
    rw [read, passed, ← length, moved]
    rfl
  · rw [read, taken _ line star, List.append_nil]

theorem scan_typed (outside : ¬ Commented text) (word : String) :
    scan (text ++ " " ++ word) =
      scan text ++ (scan word).map (shift (Text.byteLength text + 1)) := by
  rcases scan_behind_pipe ends with typed | taken
  · exact typed word
  · exact absurd (taken "|" (by decide) (by decide)) outside

theorem scan_commented (inside : Commented text) {word : String} (line : '\n' ∉ word.toList)
    (star : '*' ∉ word.toList) : scan (text ++ " " ++ word) = scan text := by
  rcases scan_behind_pipe ends with typed | taken
  · have one := congrArg List.length (inside.symm.trans (typed "|"))
    have pipe : (scan "|").length = 1 := by decide
    simp [pipe] at one
  · exact taken word line star

end

/-- A bare name or a reserved word is made of characters of names. -/
theorem not_mem_of_single {word : String} {token : Token} (single : scan word = [token])
    (whole : token.text = word) (named : (token.kind.isName || token.kind.keyword?.isSome) = true)
    (bare : Grammar.isQuoted token.kind = false) {d : Char} (starts : Text.startsName d = false)
    (continues : Text.continuesName d = false) : d ∉ word.toList := by
  have member : token ∈ scan word := single ▸ List.mem_cons_self
  obtain ⟨glued, c, rest, more, read, written⟩ := exists_read_of_mem_scanFrom member
  have naming : Lexeme.isNaming token.kind = true := by
    rcases Bool.or_eq_true_iff.mp named with name | reserved
    · simp [Lexeme.isNaming, Grammar.continuesColumn, name]
    · simp [Lexeme.isNaming, reserved]
  rw [whole] at written
  subst written
  rcases Lexeme.read_isNaming read naming with first | ⟨-, quoted⟩ | ⟨-, point, -⟩
  · rw [read_name first] at read
    obtain rfl := (Lexeme.mk.inj read).2
    have taken := (List.prefix_iff_eq_take.mp
      (List.takeWhile_prefix Text.continuesName (l := rest))).symm
    rw [taken, String.toList_ofList, List.mem_cons]
    rintro (rfl | inside)
    · rw [first] at starts
      cases starts
    · rw [List.all_eq_true.mp List.all_takeWhile d inside] at continues
      cases continues
  · rw [← Option.some.inj (Lexeme.mk.inj quoted).1] at bare
    cases bare
  · rw [point] at named
    cases named

end Esql.Token
