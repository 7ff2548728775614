import Esql.Proofs.Grammar.Passage

/-!
# Tokens on one level

An expression that is complete closes every parenthesis and every bracket that it opens, and its
commas stand inside them. So what stands between the parentheses of a call divides into levels: the
commas on the level of the call separate its arguments, those in brackets separate the items of
lists, and those in further parentheses belong to other calls.

What is read of an expression can end with parentheses left open, as an interval in parentheses
counts as complete even if they are not closed. Then more parentheses are opened than closed, which
is never made up for by what is read later. Among tokens that open more than they close there is an
innermost parenthesis that stays open.
-/

namespace Esql.Grammar

/-- A kind of token that divides expressions into levels or separates them. -/
def isDelimiter : TokenKind → Bool
  | .comma | .openParen | .closeParen | .openBracket | .closeBracket => true
  | _ => false

/-- Tokens that close what they open. So many commas stand outside parentheses and brackets, and so
many in brackets but outside parentheses. -/
inductive Level : List Token → (separators : Nat) → (inLists : Nat) → Prop
  | nil : Level [] 0 0
  | plain {token : Token} {rest : List Token} {separators inLists : Nat}
      (other : isDelimiter token.kind = false) (later : Level rest separators inLists) :
      Level (token :: rest) separators inLists
  | comma {token : Token} {rest : List Token} {separators inLists : Nat}
      (found : token.kind = .comma) (later : Level rest separators inLists) :
      Level (token :: rest) (separators + 1) inLists
  | parens {opening close : Token} {inner rest : List Token}
      {inside deeper separators inLists : Nat} (opens : opening.kind = .openParen)
      (enclosed : Level inner inside deeper) (closes : close.kind = .closeParen)
      (later : Level rest separators inLists) :
      Level (opening :: (inner ++ close :: rest)) separators inLists
  | brackets {opening close : Token} {inner rest : List Token}
      {inside deeper separators inLists : Nat} (opens : opening.kind = .openBracket)
      (enclosed : Level inner inside deeper) (closes : close.kind = .closeBracket)
      (later : Level rest separators inLists) :
      Level (opening :: (inner ++ close :: rest)) separators (inside + deeper + inLists)

namespace Level

variable {front back : List Token} {first second earlier later : Nat}

theorem append (before : Level front first earlier) (behind : Level back second later) :
    Level (front ++ back) (first + second) (earlier + later) := by
  induction before with
  | nil => rwa [Nat.zero_add, Nat.zero_add]
  | plain other rest ih => exact .plain other ih
  | comma found rest ih =>
      rw [Nat.add_right_comm]
      exact .comma found ih
  | parens opens enclosed closes rest inside ih =>
      rw [List.cons_append, List.append_assoc]
      exact .parens opens enclosed closes ih
  | brackets opens enclosed closes rest inside ih =>
      rw [List.cons_append, List.append_assoc, Nat.add_assoc]
      exact .brackets opens enclosed closes ih

theorem of_plain {tokens : List Token} (plain : ∀ token ∈ tokens, isDelimiter token.kind = false) :
    Level tokens 0 0 := by
  induction tokens with
  | nil => exact .nil
  | cons token rest ih =>
      rw [List.forall_mem_cons] at plain
      exact .plain plain.1 (ih plain.2)

end Level

/-! ## What may leave parentheses open -/

/-- Tokens that close no more parentheses than they open. If they open no more than they close, they
close all that they open, and so many commas are outside parentheses and brackets. -/
structure Settled (tokens : List Token) (separators : Nat) : Prop where
  excess_le : excess tokens ≤ 0
  level : excess tokens = 0 → ∃ inLists, Level tokens separators inLists

theorem closing_of_plain {kind : TokenKind} (plain : isDelimiter kind = false) :
    closing kind = 0 := by
  cases kind <;> first | rfl | cases plain

theorem excess_of_plain {tokens : List Token}
    (plain : ∀ token ∈ tokens, isDelimiter token.kind = false) : excess tokens = 0 := by
  induction tokens with
  | nil => rfl
  | cons token rest ih =>
      rw [List.forall_mem_cons] at plain
      rw [excess_cons, closing_of_plain plain.1, ih plain.2]
      rfl

namespace Settled

variable {front back : List Token} {first second : Nat}

theorem of_plain {tokens : List Token} (plain : ∀ token ∈ tokens, isDelimiter token.kind = false) :
    Settled tokens 0 :=
  ⟨Int.le_of_eq (excess_of_plain plain), fun _ => ⟨0, .of_plain plain⟩⟩

theorem nil : Settled [] 0 := of_plain (List.forall_mem_nil _)

theorem append (before : Settled front first) (behind : Settled back second) :
    Settled (front ++ back) (first + second) := by
  have left := before.excess_le
  have right := behind.excess_le
  refine ⟨?_, fun even => ?_⟩
  · rw [excess_append]
    omega
  · rw [excess_append] at even
    obtain ⟨earlier, here⟩ := before.level (by omega)
    obtain ⟨later, there⟩ := behind.level (by omega)
    exact ⟨earlier + later, here.append there⟩

theorem comma {token : Token} (found : token.kind = .comma) : Settled [token] 1 := by
  have even : excess [token] = 0 := by
    rw [excess_cons, found]
    rfl
  exact ⟨Int.le_of_eq even, fun _ => ⟨0, .comma found .nil⟩⟩

/-- Parentheses that are closed leave open what is open inside them. -/
theorem parens {opening close : Token} (opens : opening.kind = .openParen)
    (enclosed : Settled front first) (closes : close.kind = .closeParen) :
    Settled (opening :: (front ++ [close])) 0 := by
  have even : excess (opening :: (front ++ [close])) = excess front := by
    rw [excess_cons, excess_append, excess_cons, excess_nil, opens, closes]
    simp only [closing]
    omega
  refine ⟨even ▸ enclosed.excess_le, fun none => ?_⟩
  obtain ⟨deeper, inner⟩ := enclosed.level (even ▸ none)
  exact ⟨0, .parens opens inner closes .nil⟩

theorem brackets {opening close : Token} (opens : opening.kind = .openBracket)
    (enclosed : Settled front first) (closes : close.kind = .closeBracket) :
    Settled (opening :: (front ++ [close])) 0 := by
  have even : excess (opening :: (front ++ [close])) = excess front := by
    rw [excess_cons, excess_append, excess_cons, excess_nil, opens, closes]
    simp only [closing]
    omega
  refine ⟨even ▸ enclosed.excess_le, fun none => ?_⟩
  obtain ⟨deeper, inner⟩ := enclosed.level (even ▸ none)
  exact ⟨_, .brackets opens inner closes .nil⟩

/-- A parenthesis that is not closed stays open. -/
theorem unclosed {opening : Token} (opens : opening.kind = .openParen)
    (behind : Settled front first) : Settled (opening :: front) 0 := by
  have right := behind.excess_le
  have odd : excess (opening :: front) = -1 + excess front := by
    rw [excess_cons, opens]
    rfl
  exact ⟨by omega, fun even => by omega⟩

end Settled

/-! ## The innermost open parenthesis -/

/-- Tokens that close each parenthesis that they open, with so many commas outside of these. -/
inductive Balanced : List Token → (commas : Nat) → Prop
  | nil : Balanced [] 0
  | plain {token : Token} {rest : List Token} {commas : Nat} (flat : closing token.kind = 0)
      (other : token.kind ≠ .comma) (later : Balanced rest commas) : Balanced (token :: rest) commas
  | comma {token : Token} {rest : List Token} {commas : Nat} (found : token.kind = .comma)
      (later : Balanced rest commas) : Balanced (token :: rest) (commas + 1)
  | parens {opening close : Token} {inner rest : List Token} {inside commas : Nat}
      (opens : opening.kind = .openParen) (enclosed : Balanced inner inside)
      (closes : close.kind = .closeParen) (later : Balanced rest commas) :
      Balanced (opening :: (inner ++ close :: rest)) commas

namespace Balanced

variable {front back : List Token} {first second : Nat}

theorem append (before : Balanced front first) (behind : Balanced back second) :
    Balanced (front ++ back) (first + second) := by
  induction before with
  | nil => rwa [Nat.zero_add]
  | plain flat other rest ih => exact .plain flat other ih
  | comma found rest ih =>
      rw [Nat.add_right_comm]
      exact .comma found ih
  | parens opens enclosed closes rest inside ih =>
      rw [List.cons_append, List.append_assoc]
      exact .parens opens enclosed closes ih

/-- A token that is no parenthesis is one that is closed, whatever it is. -/
theorem single {token : Token} (flat : closing token.kind = 0) :
    ∃ commas, Balanced [token] commas := by
  by_cases mark : token.kind = .comma
  · exact ⟨1, .comma mark .nil⟩
  · exact ⟨0, .plain flat mark .nil⟩

theorem excess_eq (balanced : Balanced front first) : excess front = 0 := by
  induction balanced with
  | nil => rfl
  | plain flat other rest ih => rw [excess_cons, flat, ih, Int.add_zero]
  | comma found rest ih =>
      rw [excess_cons, found, ih]
      rfl
  | parens opens enclosed closes rest inside ih =>
      rw [excess_cons, excess_append, excess_cons, inside, ih, opens, closes]
      rfl

end Balanced

/-- To parentheses, brackets are tokens like others. -/
theorem Level.balanced {tokens : List Token} {separators inLists : Nat}
    (level : Level tokens separators inLists) : Balanced tokens (separators + inLists) := by
  induction level with
  | nil => exact .nil
  | plain other later ih =>
      refine .plain (closing_of_plain other) (fun mark => ?_) ih
      rw [mark] at other
      cases other
  | comma found later ih =>
      rw [Nat.add_right_comm]
      exact .comma found ih
  | parens opens enclosed closes later inside ih => exact .parens opens inside closes ih
  | @brackets opening close inner rest inside deeper separators inLists opens enclosed closes later
      ihInner ih =>
      have left : Balanced (close :: rest) (separators + inLists) := by
        refine .plain ?_ (by rw [closes]; exact nofun) ih
        rw [closes]
        rfl
      rw [Nat.add_left_comm]
      refine .plain ?_ (by rw [opens]; exact nofun) (ihInner.append left)
      rw [opens]
      rfl

/-- Tokens that leave no parenthesis open. They may close some that they do not open. -/
inductive Shut : List Token → Prop
  | balanced {tokens : List Token} {commas : Nat} (balanced : Balanced tokens commas) : Shut tokens
  | close {front back : List Token} {close : Token} {commas : Nat} (before : Balanced front commas)
      (closes : close.kind = .closeParen) (behind : Shut back) : Shut (front ++ close :: back)

namespace Shut

variable {front back : List Token} {commas : Nat}

theorem prepend (before : Balanced front commas) (shut : Shut back) : Shut (front ++ back) := by
  cases shut with
  | balanced balanced => exact .balanced (before.append balanced)
  | close inner closes behind =>
      rw [← List.append_assoc]
      exact .close (before.append inner) closes behind

theorem excess_nonneg (shut : Shut back) : 0 ≤ excess back := by
  induction shut with
  | balanced balanced => exact Int.le_of_eq balanced.excess_eq.symm
  | close before closes behind ih =>
      rw [excess_append, excess_cons, before.excess_eq, closes]
      simp only [closing]
      omega

end Shut

/-- Some parenthesis stays open, and behind the innermost one all others are closed, or none stays
open. -/
theorem exists_opening_or_shut (tokens : List Token) :
    (∃ front opening inside commas, tokens = front ++ opening :: inside ∧
      opening.kind = .openParen ∧ Balanced inside commas) ∨ Shut tokens := by
  induction tokens with
  | nil => exact .inr (.balanced .nil)
  | cons token rest ih =>
      obtain ⟨front, opening, inside, commas, rfl, opens⟩ | shut := ih
      · exact .inl ⟨token :: front, opening, inside, commas, rfl, opens⟩
      cases mark : token.kind with
      | closeParen => exact .inr (.close .nil mark shut)
      | openParen =>
          cases shut with
          | balanced balanced => exact .inl ⟨[], token, rest, _, rfl, mark, balanced⟩
          | @close inner back close commas before closes behind =>
              have closed : Balanced (token :: (inner ++ [close])) 0 :=
                .parens mark before closes .nil
              have whole : token :: (inner ++ close :: back) =
                  (token :: (inner ++ [close])) ++ back := by simp
              rw [whole]
              exact .inr (behind.prepend closed)
      | _ =>
          have flat : closing token.kind = 0 := by
            rw [mark]
            rfl
          obtain ⟨_, single⟩ := Balanced.single flat
          exact .inr (shut.prepend single)

/-- Among tokens that open more parentheses than they close, one is the innermost that stays
open. -/
theorem exists_opening {tokens : List Token} (more : excess tokens < 0) :
    ∃ front opening inside commas, tokens = front ++ opening :: inside ∧
      opening.kind = .openParen ∧ Balanced inside commas :=
  (exists_opening_or_shut tokens).resolve_right fun shut =>
    absurd shut.excess_nonneg (Int.not_le.mpr more)

/-! ## Items of a listing -/

/-- The tokens end with one that ends an item. -/
def EndsItem (tokens : List Token) : Prop :=
  ∃ last, tokens.getLast? = some last ∧ last.kind ≠ .comma ∧ last.kind ≠ .openParen

theorem EndsItem.append {front back : List Token} (ends : EndsItem back) :
    EndsItem (front ++ back) := by
  obtain ⟨last, final, other⟩ := ends
  refine ⟨last, ?_, other⟩
  rw [List.getLast?_append, final]
  rfl

/-- The tokens of an item: they end it, and none of their commas is outside parentheses and
brackets. -/
structure IsItem (tokens : List Token) : Prop where
  ends : EndsItem tokens
  settled : Settled tokens 0

theorem ends_of_plain {token : Token} (plain : isDelimiter token.kind = false) :
    token.kind ≠ .comma ∧ token.kind ≠ .openParen := by
  refine ⟨fun same => ?_, fun same => ?_⟩ <;> rw [same] at plain <;> cases plain

namespace IsItem

variable {front back : List Token} {opening close : Token} {separators : Nat}

theorem of_plain (some : front ≠ []) (plain : ∀ token ∈ front, isDelimiter token.kind = false) :
    IsItem front := by
  have final := List.getLast?_eq_some_getLast some
  exact ⟨⟨_, final, ends_of_plain (plain _ (List.mem_of_getLast? final))⟩, .of_plain plain⟩

theorem append (before : Settled front 0) (item : IsItem back) : IsItem (front ++ back) :=
  ⟨item.ends.append, before.append item.settled⟩

theorem parens (opens : opening.kind = .openParen) (enclosed : Settled front separators)
    (closes : close.kind = .closeParen) : IsItem (opening :: (front ++ [close])) := by
  refine ⟨⟨close, ?_, ?_⟩, .parens opens enclosed closes⟩
  · rw [← List.cons_append, List.getLast?_concat]
  · rw [closes]
    exact ⟨TokenKind.noConfusion, TokenKind.noConfusion⟩

theorem brackets (opens : opening.kind = .openBracket) (enclosed : Settled front separators)
    (closes : close.kind = .closeBracket) : IsItem (opening :: (front ++ [close])) := by
  refine ⟨⟨close, ?_, ?_⟩, .brackets opens enclosed closes⟩
  · rw [← List.cons_append, List.getLast?_concat]
  · rw [closes]
    exact ⟨TokenKind.noConfusion, TokenKind.noConfusion⟩

theorem unclosed (opens : opening.kind = .openParen) (item : IsItem back) :
    IsItem (opening :: back) := by
  have ends : EndsItem ([opening] ++ back) := item.ends.append
  exact ⟨ends, item.settled.unclosed opens⟩

end IsItem

/-- The tokens of a listing behind its opening token, if nothing closes it and all items that were
read are complete. Either the listing broke off behind an item, or an item is missing behind a comma
or at the start, with some parentheses opened for it. -/
inductive Unclosed (count : Nat) (tokens : List Token) : Prop
  | behindItem (ends : EndsItem tokens)
  | missing {front opened : List Token} (whole : tokens = front ++ opened)
      (settled : Settled front count) (behind : ∀ last ∈ front.getLast?, last.kind = .comma)
      (opens : ∀ token ∈ opened, token.kind = .openParen)

theorem Settled.behind {item rest : List Token} {comma : Token} {separators : Nat}
    (here : IsItem item) (mark : comma.kind = .comma) (later : Settled rest separators) :
    Settled (item ++ comma :: rest) (separators + 1) := by
  have both := here.settled.append ((Settled.comma mark).append later)
  rwa [Nat.zero_add, Nat.add_comm] at both

/-- One more item and a comma stand before the rest of a listing. -/
theorem Unclosed.behind {item rest : List Token} {comma : Token} {count : Nat}
    (here : IsItem item) (mark : comma.kind = .comma) (later : Unclosed count rest) :
    Unclosed (count + 1) (item ++ comma :: rest) := by
  cases later with
  | behindItem ends =>
      rw [← List.singleton_append, ← List.append_assoc]
      exact .behindItem ends.append
  | @missing front opened whole settled behind opens =>
      subst whole
      rw [← List.cons_append, ← List.append_assoc]
      refine .missing rfl (settled.behind here mark) (fun last final => ?_) opens
      rw [List.getLast?_append, List.getLast?_cons, Option.some_or] at final
      cases found : front.getLast? with
      | none =>
          rw [found] at final
          cases final
          exact mark
      | some token =>
          rw [found] at final
          cases final
          exact behind token found

theorem excess_neg_of_opens {tokens : List Token} (opens : ∀ token ∈ tokens, token.kind = .openParen)
    (some : tokens ≠ []) : excess tokens < 0 := by
  induction tokens with
  | nil => exact absurd rfl some
  | cons token rest ih =>
      rw [List.forall_mem_cons] at opens
      rw [excess_cons, opens.1]
      cases rest with
      | nil => decide
      | cons next rest =>
          have later := ih opens.2 (List.cons_ne_nil _ _)
          simp only [closing]
          omega

namespace Unclosed

variable {tokens : List Token} {count : Nat} (unclosed : Unclosed count tokens)
  (missing : ¬ EndsItem tokens)

include unclosed missing

/-- Where an item is missing, no more parentheses are closed than are opened. -/
theorem excess_le : excess tokens ≤ 0 := by
  cases unclosed with
  | behindItem ends => exact absurd ends missing
  | @missing front opened whole settled behind opens =>
      subst whole
      rw [excess_append]
      have left := settled.excess_le
      cases opened with
      | nil => rwa [excess_nil, Int.add_zero]
      | cons token rest =>
          have right := excess_neg_of_opens opens (List.cons_ne_nil _ _)
          omega

/-- Where an item is missing and no parenthesis is open, all items are on one level. -/
theorem level (even : excess tokens = 0) : ∃ inLists, Level tokens count inLists := by
  cases unclosed with
  | behindItem ends => exact absurd ends missing
  | @missing front opened whole settled behind opens =>
      subst whole
      rw [excess_append] at even
      have left := settled.excess_le
      cases opened with
      | nil =>
          rw [List.append_nil]
          exact settled.level (by simpa using even)
      | cons token rest =>
          have right := excess_neg_of_opens opens (List.cons_ne_nil _ _)
          omega

/-- Where an item is missing behind a parenthesis that was opened for it, another parenthesis or a
comma stands before that one. -/
theorem exists_previous {opening last : Token} (opens : opening.kind = .openParen)
    (ends : tokens.getLast? = some last) (group : last.kind = .openParen) :
    ∃ front previous, opening :: tokens = front ++ [previous, last] ∧
      (previous.kind = .openParen ∨ previous.kind = .comma) := by
  cases unclosed with
  | behindItem ends => exact absurd ends missing
  | @missing front opened whole settled behind all =>
      subst whole
      obtain rfl | ⟨others, final, rfl⟩ := List.eq_nil_or_concat opened
      · rw [List.append_nil] at ends
        have comma := behind last ends
        rw [group] at comma
        cases comma
      rw [List.concat_eq_append] at ends all ⊢
      rw [← List.append_assoc, List.getLast?_concat] at ends
      cases ends
      have before : ∀ previous ∈ (opening :: (front ++ others)).getLast?,
          previous.kind = .openParen ∨ previous.kind = .comma := by
        intro previous found
        rw [← List.singleton_append, List.getLast?_append, List.getLast?_append] at found
        rcases Option.or_eq_some_iff.mp found with inner | ⟨-, first⟩
        · rcases Option.or_eq_some_iff.mp inner with deeper | ⟨-, comma⟩
          · exact .inl (all previous (List.mem_append_left _ (List.mem_of_getLast? deeper)))
          · exact .inr (behind previous comma)
        · cases first
          exact .inl opens
      obtain ⟨previous, found⟩ : ∃ previous, (opening :: (front ++ others)).getLast? =
          some previous := ⟨_, List.getLast?_cons⟩
      obtain ⟨inner, whole⟩ := List.getLast?_eq_some_iff.mp found
      refine ⟨inner, previous, ?_, before previous found⟩
      rw [← List.append_assoc, ← List.cons_append, whole, List.append_assoc]
      rfl

end Unclosed

end Esql.Grammar
