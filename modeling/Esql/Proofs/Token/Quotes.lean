import Esql.Proofs.Token.Sources

/-!
# Scanning source names in quotes

A name that is written between quotes, its own quotes escaped or left as they are, is read back as
one string. The value is the name exactly if its backslashes are kept and no quote ends it early.
-/

namespace Esql

open Text.Source Grammar

namespace Lexeme

variable {cs : List Char} {write : Char → List Char}

theorem stringBody_backslash (c : Char) (cs : List Char) :
    stringBody ('\\' :: c :: cs) =
      (escaped c ++ (stringBody cs).1, (stringBody cs).2.1 + 2, (stringBody cs).2.2) := rfl

section

variable (plain : ∀ c, c ≠ '\x22' → write c = [c])

include plain

/-- A string in which only quotes are escaped gives back what was written if its backslashes are
kept. -/
theorem stringBody_written (quotes : '\x22' ∈ cs → write '\x22' = ['\\', '\x22'])
    (kept : keepsBackslashes cs = true) (rest : List Char) :
    stringBody (cs.flatMap write ++ '\x22' :: rest) =
      (cs, (cs.flatMap write).length + 1, true) := by
  induction cs using keepsBackslashes.induct with
  | case1 => rfl
  | case2 => cases kept
  | case3 c others ih =>
      rw [keepsBackslashes_escape, Bool.and_eq_true, beq_iff_eq] at kept
      have noQuote : c ≠ '\x22' := by
        rintro rfl
        exact absurd kept.1 (by decide)
      have inner := ih (fun member => quotes (.tail _ (.tail _ member))) kept.2
      rw [List.flatMap_cons, List.flatMap_cons, plain _ (by decide), plain c noQuote]
      change stringBody ('\\' :: c :: (others.flatMap write ++ '\x22' :: rest)) = _
      rw [stringBody_backslash, inner, kept.1]
      rfl
  | case4 c others notLast notFirst ih =>
      have other := ne_backslash notLast notFirst
      rw [keepsBackslashes_cons other] at kept
      have inner := ih (fun member => quotes (.tail _ member)) kept
      rw [List.flatMap_cons]
      by_cases quote : c = '\x22'
      · subst quote
        rw [quotes (.head _)]
        change stringBody ('\\' :: '\x22' :: (others.flatMap write ++ '\x22' :: rest)) = _
        rw [stringBody_backslash, inner]
        rfl
      · rw [plain c quote]
        change stringBody (c :: (others.flatMap write ++ '\x22' :: rest)) = _
        rw [stringBody_cons other quote, inner]
        rfl

/-- A closed one never gives back more than was written, and less if a backslash is not kept. -/
theorem length_stringBody (quotes : '\x22' ∈ cs → write '\x22' = ['\\', '\x22'])
    (closed : (stringBody (cs.flatMap write ++ ['\x22'])).2.2 = true) :
    (stringBody (cs.flatMap write ++ ['\x22'])).1.length ≤ cs.length ∧
      (keepsBackslashes cs = false →
        (stringBody (cs.flatMap write ++ ['\x22'])).1.length < cs.length) := by
  induction cs using keepsBackslashes.induct with
  | case1 => exact ⟨Nat.le_refl _, nofun⟩
  | case2 =>
      rw [List.flatMap_cons, plain _ (by decide)] at closed
      cases closed
  | case3 c others ih =>
      rw [List.flatMap_cons, List.flatMap_cons, plain '\\' (by decide)] at closed ⊢
      by_cases quote : c = '\x22'
      · -- The backslash escapes the one that is written for the quote, which then ends the string.
        subst quote
        rw [quotes (.tail _ (.head _))]
        exact ⟨Nat.succ_pos _, fun _ => Nat.succ_lt_succ (Nat.succ_pos _)⟩
      · simp only [plain c quote, List.cons_append, List.nil_append, stringBody_backslash]
          at closed ⊢
        have inner := ih (fun member => quotes (.tail _ (.tail _ member))) closed
        have short := length_escaped_le c
        simp only [List.length_append, List.length_cons]
        refine ⟨by omega, fun lost => ?_⟩
        rw [keepsBackslashes_escape] at lost
        rcases escaped_cases c with ⟨d, one, -⟩ | ⟨two, -⟩
        · rw [one, List.length_singleton]
          omega
        · rw [two, beq_self_eq_true, Bool.true_and] at lost
          have fewer := inner.2 lost
          omega
  | case4 c others notLast notFirst ih =>
      have other := ne_backslash notLast notFirst
      rw [keepsBackslashes_cons other]
      rw [List.flatMap_cons] at closed ⊢
      have inner := ih fun member => quotes (.tail _ member)
      by_cases quote : c = '\x22'
      · subst quote
        simp only [quotes (.head _), List.cons_append, List.nil_append, stringBody_backslash]
          at closed ⊢
        exact ⟨Nat.succ_le_succ (inner closed).1,
          fun lost => Nat.succ_lt_succ ((inner closed).2 lost)⟩
      · simp only [plain c quote, List.cons_append, List.nil_append,
          stringBody_cons other quote] at closed ⊢
        exact ⟨Nat.succ_le_succ (inner closed).1,
          fun lost => Nat.succ_lt_succ ((inner closed).2 lost)⟩

/-- What is written between quotes does not begin with two more of them. -/
theorem not_triple (quotes : '\x22' ∈ cs → write '\x22' = ['\\', '\x22']) (nonempty : cs ≠ [])
    (rest : List Char) : cs.flatMap write ++ ['\x22'] ≠ '\x22' :: '\x22' :: rest := by
  cases cs with
  | nil => contradiction
  | cons c others =>
      intro same
      rw [List.flatMap_cons] at same
      by_cases quote : c = '\x22'
      · subst quote
        rw [quotes (.head _)] at same
        exact absurd (List.cons.inj same).1 (by decide)
      · rw [plain c quote] at same
        exact quote (List.cons.inj same).1

end

/-- A quote inside is not given back. -/
theorem length_lt_of_quote (inside : '\x22' ∈ cs)
    (closed : (stringBody (cs ++ ['\x22'])).2.2 = true) :
    (stringBody (cs ++ ['\x22'])).1.length < cs.length := by
  induction cs using keepsBackslashes.induct with
  | case1 => cases inside
  | case2 => exact absurd inside (by decide)
  | case3 c others ih =>
      simp only [List.cons_append, stringBody_backslash] at closed ⊢
      have behind := stringBody_closed _ closed
      simp only [List.length_append, List.length_cons, List.length_nil] at behind ⊢
      by_cases quote : c = '\x22'
      · subst quote
        have one : (escaped '\x22').length = 1 := rfl
        omega
      · have member : '\x22' ∈ others := by
          rcases List.mem_cons.mp inside with first | later
          · exact absurd first (by decide)
          · exact (List.mem_cons.mp later).resolve_left (Ne.symm quote)
        have fewer := ih member closed
        have short := length_escaped_le c
        omega
  | case4 c others notLast notFirst ih =>
      by_cases quote : c = '\x22'
      · subst quote
        exact Nat.succ_pos _
      · have other := ne_backslash notLast notFirst
        simp only [List.cons_append, stringBody_cons other quote] at closed ⊢
        exact Nat.succ_lt_succ
          (ih ((List.mem_cons.mp inside).resolve_left (Ne.symm quote)) closed)

/-- A name with a quote inside is not the value of the string that it is put into. -/
theorem length_lt_of_quotedString {more : Nat} {value : String} (inside : '\x22' ∈ cs)
    (read : quotedString (cs ++ ['\x22']) = token (.string value true) more) :
    value.toList.length < cs.length := by
  by_cases triple : ∃ rest, cs ++ ['\x22'] = '\x22' :: '\x22' :: rest
  · obtain ⟨rest, same⟩ := triple
    have total := congrArg List.length same
    rw [same] at read
    change rawString rest = _ at read
    unfold rawString at read
    split at read
    · rename_i before after found
      cases read
      have whole := congrArg List.length (Text.splitAtFirst?_append found)
      have quotes : tripleQuote.length = 3 := rfl
      simp only [List.length_append, List.length_cons, List.length_nil] at whole total
      rw [String.toList_ofList]
      omega
    · cases read
  · rw [quotedString_single fun rest same => triple ⟨rest, same⟩] at read
    obtain ⟨kinds, -⟩ := Lexeme.mk.inj read
    obtain ⟨rfl, closed⟩ := TokenKind.string.inj (Option.some.inj kinds)
    rw [String.toList_ofList]
    exact length_lt_of_quote inside closed

end Lexeme

namespace Token

variable {cs : List Char} {write : Char → List Char}

/-- A text that begins with a quote is a source with the value of the string. -/
theorem sourceRun?_quote {body : List Char} {value : String} {terminated : Bool} {more : Nat}
    (read : Lexeme.quotedString body = .token (.string value terminated) more) (glued : Bool)
    (offset : Nat) :
    sourceRun? (scanFrom ('\x22' :: body) 0 glued offset) = some (value, 1, !terminated) := by
  rw [scanFrom_token ((Lexeme.read_quote glued body).trans read)]
  rfl

section

variable {name : String} (plain : ∀ c, c ≠ '\x22' → write c = [c])
  (quotes : '\x22' ∈ name.toList → write '\x22' = ['\\', '\x22']) (nonempty : name ≠ "")

include plain quotes nonempty

theorem quotedString_name :
    Lexeme.quotedString (name.toList.flatMap write ++ ['\x22']) =
      .token (.string (String.ofList (Lexeme.stringBody (name.toList.flatMap write ++ ['\x22'])).1)
          (Lexeme.stringBody (name.toList.flatMap write ++ ['\x22'])).2.2)
        (Lexeme.stringBody (name.toList.flatMap write ++ ['\x22'])).2.1 :=
  Lexeme.quotedString_single
    (Lexeme.not_triple plain quotes (mt String.toList_eq_nil_iff.mp nonempty))

/-- A name in quotes is read as one source, to its end, if its backslashes are kept. -/
theorem sourceRun?_of_keepsBackslashes (kept : keepsBackslashes name.toList = true)
    (glued : Bool) (offset : Nat) :
    sourceRun? (scanFrom ('\x22' :: (name.toList.flatMap write ++ ['\x22'])) 0 glued offset) =
        some (name, 1, false) ∧
      (scanFrom ('\x22' :: (name.toList.flatMap write ++ ['\x22'])) 0 glued offset).length =
        1 := by
  have read := quotedString_name plain quotes nonempty
  rw [Lexeme.stringBody_written plain quotes kept [], String.ofList_toList] at read
  refine ⟨sourceRun?_quote read glued offset, ?_⟩
  have all : (name.toList.flatMap write ++ ['\x22']).drop
      ((name.toList.flatMap write).length + 1) = [] :=
    List.drop_eq_nil_of_le (by rw [List.length_append]; rfl)
  rw [scanFrom_token ((Lexeme.read_quote glued _).trans read), all, scanFrom_nil]
  rfl

/-- No other name is. -/
theorem keepsBackslashes_of_sourceRun? {glued : Bool} {offset count : Nat}
    (run : sourceRun?
        (scanFrom ('\x22' :: (name.toList.flatMap write ++ ['\x22'])) 0 glued offset) =
      some (name, count, false)) : keepsBackslashes name.toList = true := by
  rw [sourceRun?_quote (quotedString_name plain quotes nonempty)] at run
  obtain ⟨same, -, closed⟩ := Prod.mk.inj (Option.some.inj run) |>.imp_right Prod.mk.inj
  rw [Bool.not_eq_false'] at closed
  by_contra lost
  have fewer := (Lexeme.length_stringBody plain quotes closed).2 (Bool.eq_false_iff.mpr lost)
  have whole := congrArg (·.toList.length) same
  rw [String.toList_ofList] at whole
  exact absurd whole (Nat.ne_of_lt fewer)

end

end Token

end Esql
