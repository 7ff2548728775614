import Esql.Keyword
import Esql.Proofs.Text.Separator
import Esql.Token.Scan
import Mathlib.Data.List.TakeWhile

/-!
# Source names as they are written

A source name without quotes ends before a blank and before some marks. Two marks depend on what
stands beside them: a slash may open a comment, and an equals sign belongs to the name only as the
second character of a comparison. In quotes, a backslash stays only before a character that it does
not escape.
-/

namespace Esql.Text.Source

variable {c : Char} {cs front : List Char} {pending : Bool}

/-- A character that no source name holds without quotes. -/
def ends (c : Char) : Bool :=
  isBlank c || ['|', ',', '(', ')', '[', ']', '?', '\x22', '\x60'].contains c

/-- A slash with this text behind it opens a comment. -/
def opensComment (rest : List Char) : Bool := rest.head?.any fun next => next == '/' || next == '*'

/-- No character ends a source name here, no comment is opened, and each equals sign goes on a
comparison. `pending` says that one would go on the character before. -/
def isBareFrom : (pending : Bool) → List Char → Bool
  | _, [] => true
  | pending, c :: rest =>
      if c == '=' then
        if pending then isBareFrom false rest
        else rest.head? == some '=' && isBareFrom true rest
      else
        !ends c && !(c == '/' && opensComment rest) &&
          isBareFrom (c == '!' || c == '<' || c == '>') rest

/-- A source name may begin like this: not with METADATA, and it is neither ON nor WITH alone. -/
def opensBare (cs : List Char) : Bool :=
  Keyword.ofWord? (String.ofList (cs.takeWhile continuesName)) != some .metadata &&
    !([some .on, some .with].contains (Keyword.ofWord? (String.ofList cs)))

/-- The name is read as one source without quotes around it. -/
def isBareName (name : String) : Bool := isBareFrom false name.toList && opensBare name.toList

/-- The name has only characters that are written without quotes. -/
def isUnquoted (name : String) : Bool :=
  name.toList.all fun c => isAlphanumeric c || ['-', '_', '.', '*', ':'].contains c

/-- Each backslash stands before a character that it does not escape. -/
def keepsBackslashes : List Char → Bool
  | [] => true
  | ['\\'] => false
  | '\\' :: c :: rest => Lexeme.escaped c == ['\\', c] && keepsBackslashes rest
  | _ :: rest => keepsBackslashes rest

/-- A character that neither ends a source name nor depends on those beside it. -/
def isPlain (c : Char) : Bool := !ends c && !(['/', '=', '!', '<', '>'].contains c)

theorem isBareFrom_of_ends (ending : ends c = true) (rest : List Char) :
    isBareFrom pending (c :: rest) = false := by
  have other : c ≠ '=' := by
    rintro rfl
    exact absurd ending (by decide)
  simp [isBareFrom, other, ending]

theorem isBareFrom_cons (plain : isPlain c = true) (rest : List Char) :
    isBareFrom pending (c :: rest) = isBareFrom false rest := by
  simp only [isPlain, Bool.and_eq_true, Bool.not_eq_true', List.contains_eq_mem,
    decide_eq_false_iff_not, List.mem_cons, List.not_mem_nil, or_false, not_or] at plain
  obtain ⟨inside, slash, equals, bang, less, greater⟩ := plain
  simp [isBareFrom, inside, beq_eq_false_iff_ne.mpr slash, equals, beq_eq_false_iff_ne.mpr bang,
    beq_eq_false_iff_ne.mpr less, beq_eq_false_iff_ne.mpr greater]

theorem isBareFrom_drop {count : Nat} (plain : ∀ c ∈ cs.take count, isPlain c = true) :
    isBareFrom false cs = isBareFrom false (cs.drop count) := by
  induction count generalizing cs with
  | zero => rfl
  | succ count ih =>
      cases cs with
      | nil => rfl
      | cons c cs =>
          rw [List.take_succ_cons, List.forall_mem_cons] at plain
          rw [isBareFrom_cons plain.1, ih plain.2, List.drop_succ_cons]

/-- An equals sign is all that a pending character makes a difference to. -/
theorem isBareFrom_pending (pending : Bool) (other : cs.head? ≠ some '=') :
    isBareFrom pending cs = isBareFrom false cs := by
  cases cs with
  | nil => rfl
  | cons c cs =>
      have differs : ¬ (c == '=') = true := fun same => other (congrArg some (beq_iff_eq.mp same))
      rw [isBareFrom, isBareFrom, if_neg differs, if_neg differs]

/-- A comparison of two characters belongs to a bare name. -/
theorem isBareFrom_pair (first : c ∈ ['=', '!', '<', '>']) (second : cs.head? = some '=') :
    1 ≤ cs.length ∧ isBareFrom false (c :: cs) = isBareFrom false (cs.drop 1) := by
  obtain ⟨rest, rfl⟩ := List.head?_eq_some_iff.mp second
  simp only [List.mem_cons, List.not_mem_nil, or_false] at first
  refine ⟨Nat.succ_pos _, ?_⟩
  rcases first with rfl | rfl | rfl | rfl <;> rfl

/-- So does the first character of one alone, if it is no equals sign. -/
theorem isBareFrom_alone (first : c ∈ ['!', '<', '>']) (second : cs.head? ≠ some '=') :
    isBareFrom false (c :: cs) = isBareFrom false cs := by
  rw [← isBareFrom_pending true second]
  simp only [List.mem_cons, List.not_mem_nil, or_false] at first
  rcases first with rfl | rfl | rfl <;> rfl

theorem isBareFrom_slash (plain : opensComment cs = false) :
    isBareFrom false ('/' :: cs) = isBareFrom false cs := by
  have inside : ends '/' = false := by decide
  simp [isBareFrom, inside, plain]

theorem isBareFrom_comment (opens : opensComment cs = true) :
    isBareFrom false ('/' :: cs) = false := by
  simp [isBareFrom, opens]

/-- An equals sign alone ends a bare name. -/
theorem isBareFrom_assign (second : cs.head? ≠ some '=') :
    isBareFrom false ('=' :: cs) = false := by
  simp [isBareFrom, second]

theorem isBareFrom_of_all (plain : ∀ c ∈ cs, isPlain c = true) : isBareFrom false cs = true := by
  rw [isBareFrom_drop (fun c member => plain c (List.mem_of_mem_take member) :
    ∀ c ∈ cs.take cs.length, isPlain c = true), List.drop_length]
  rfl

/-- A character is plain if it is no blank and not one of the marks that are not. -/
theorem isPlain_of_not_mem (blank : isBlank c = false)
    (other : c ∉ ['|', ',', '(', ')', '[', ']', '?', '\x22', '\x60', '/', '=', '!', '<', '>']) :
    isPlain c = true := by
  simp only [List.mem_cons, List.not_mem_nil, or_false, not_or] at other
  simp [isPlain, ends, blank, other]

theorem isPlain_of_continuesName (continues : continuesName c = true) : isPlain c = true := by
  refine isPlain_of_not_mem ?_ fun member => ?_
  · refine Bool.eq_false_iff.mpr fun blank => ?_
    rw [not_continuesName_of_isBlank blank] at continues
    cases continues
  · have outside : ['|', ',', '(', ')', '[', ']', '?', '\x22', '\x60', '/', '=', '!', '<', '>'].all
        (!continuesName ·) = true := by decide
    have stops := List.all_eq_true.mp outside c member
    rw [continues] at stops
    cases stops

/-- An at sign starts a name and goes on with none. -/
theorem continuesName_of_startsName (starts : startsName c = true) :
    continuesName c = true ∨ c = '@' := by
  rcases Bool.or_eq_true_iff.mp starts with name | sign
  · left
    rcases Bool.or_eq_true_iff.mp name with letter | underscore
    · rw [continuesName, isAlphanumeric_of_isAlphabetic letter, Bool.true_or]
    · rw [continuesName, underscore, Bool.or_true]
  · exact .inr (beq_iff_eq.mp sign)

theorem isPlain_of_startsName (starts : startsName c = true) : isPlain c = true := by
  rcases continuesName_of_startsName starts with continues | rfl
  · exact isPlain_of_continuesName continues
  · decide

theorem isPlain_of_isPlainSourceChar
    (plain : (isAlphanumeric c || ['-', '_', '.', '*', ':'].contains c) = true) :
    isPlain c = true := by
  rcases Bool.or_eq_true_iff.mp plain with letter | mark
  · exact isPlain_of_continuesName (by rw [continuesName, letter, Bool.true_or])
  · have all : ['-', '_', '.', '*', ':'].all isPlain = true := by decide
    exact List.all_eq_true.mp all c (List.contains_iff_mem.mp mark)

theorem isBareName_of_isUnquoted {name : String} (unquoted : isUnquoted name = true) :
    isBareName name = opensBare name.toList := by
  have plain : ∀ c ∈ name.toList, isPlain c = true := fun c member =>
    isPlain_of_isPlainSourceChar (List.all_eq_true.mp unquoted c member)
  rw [isBareName, isBareFrom_of_all plain, Bool.true_and]

/-! ## Backslashes -/

theorem keepsBackslashes_escape (c : Char) (rest : List Char) :
    keepsBackslashes ('\\' :: c :: rest) =
      (Lexeme.escaped c == ['\\', c] && keepsBackslashes rest) := rfl

theorem keepsBackslashes_cons (other : c ≠ '\\') (rest : List Char) :
    keepsBackslashes (c :: rest) = keepsBackslashes rest := by
  rw [keepsBackslashes]
  · exact fun same => absurd same other
  · exact fun _ _ same => absurd same other

/-- A character that is escaped is one character, and any other stays with its backslash. -/
theorem escaped_cases (c : Char) :
    (∃ d, Lexeme.escaped c = [d] ∧ (Lexeme.escaped c == ['\\', c]) = false) ∨
      (Lexeme.escaped c = ['\\', c] ∧ c ≠ '\\' ∧ c ≠ '\x22') := by
  unfold Lexeme.escaped
  split
  · exact .inl ⟨_, rfl, rfl⟩
  · exact .inl ⟨_, rfl, rfl⟩
  · exact .inl ⟨_, rfl, rfl⟩
  · exact .inl ⟨_, rfl, rfl⟩
  · exact .inl ⟨_, rfl, rfl⟩
  · rename_i noQuote noBackslash
    exact .inr ⟨rfl, noBackslash, noQuote⟩

/-! ## Reserved words -/

/-- A reserved word is made of letters. -/
theorem isAlpha_of_ofWord? {word : String} {keyword : Keyword}
    (found : Keyword.ofWord? word = some keyword) : ∀ c ∈ word.toList, c.isAlpha = true := by
  have lowered : (lower word).toList.all Char.isAlpha = true := by
    rw [Keyword.ofWord?, Keyword.ofLower?.eq_def] at found
    split at found <;> first | (rename_i same; rw [same]; decide) | cases found
  intro c member
  have letter := List.all_eq_true.mp lowered c.toLower (by
    rw [lower, String.toList_ofList]
    exact List.mem_map_of_mem member)
  unfold Char.toLower at letter
  split at letter
  · rename_i upper
    have isUpper : c.isUpper = true := decide_eq_true upper
    exact Bool.or_eq_true_iff.mpr (.inl isUpper)
  · exact letter

theorem isAlphabetic_of_isAlpha (letter : c.isAlpha = true) : isAlphabetic c = true := by
  have code := alphanum_code (c := c) (by rw [Char.isAlphanum, letter, Bool.true_or])
  have small : c.toNat < 128 := by omega
  rw [isAlphabetic, if_pos small]
  exact letter

theorem startsName_of_isAlpha (letter : c.isAlpha = true) : startsName c = true := by
  rw [startsName, isAlphabetic_of_isAlpha letter]
  rfl

theorem continuesName_of_isAlpha (letter : c.isAlpha = true) : continuesName c = true := by
  rw [continuesName, isAlphanumeric_of_isAlphabetic (isAlphabetic_of_isAlpha letter)]
  rfl

/-- A word with a reserved spelling goes on to its end. -/
theorem takeWhile_of_ofWord? {keyword : Keyword}
    (found : Keyword.ofWord? (String.ofList cs) = some keyword) :
    cs.takeWhile continuesName = cs := by
  have letters := isAlpha_of_ofWord? found
  rw [String.toList_ofList] at letters
  exact List.takeWhile_eq_self_iff.mpr fun c member => continuesName_of_isAlpha (letters c member)

/-- What starts no name is not reserved, as far as it goes on like a name. -/
theorem ofWord?_takeWhile_eq_none (other : startsName c = false) :
    Keyword.ofWord? (String.ofList ((c :: cs).takeWhile continuesName)) = none := by
  cases continues : continuesName c with
  | false =>
      rw [List.takeWhile_cons_of_neg (Bool.eq_false_iff.mp continues)]
      decide
  | true =>
      rw [List.takeWhile_cons_of_pos continues]
      refine Option.eq_none_iff_forall_ne_some.mpr fun keyword found => ?_
      have letter := isAlpha_of_ofWord? found c (by
        rw [String.toList_ofList]
        exact .head _)
      rw [startsName_of_isAlpha letter] at other
      cases other

/-- Which reserved word a text is, is a matter of the word that it starts with. -/
theorem ofWord?_eq (cs : List Char) :
    Keyword.ofWord? (String.ofList cs) =
      if cs.takeWhile continuesName = cs then
        Keyword.ofWord? (String.ofList (cs.takeWhile continuesName))
      else none := by
  split
  · rename_i same
    rw [same]
  · rename_i differs
    refine Option.eq_none_iff_forall_ne_some.mpr fun keyword found => ?_
    exact differs (takeWhile_of_ofWord? found)

end Esql.Text.Source
