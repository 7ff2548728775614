import Esql.Grammar.Reading
import Esql.Proofs.Token.Scanned

/-!
# What a rule passes over

A rule only ever reads from the front of the tokens and only ever adds errors. Between two pipes it
does more: it reads no pipe, and it closes no more parentheses than it opens, except the one that
a listing ends with. Both facts are relations between the states before and after, which compose
as rules do.
-/

namespace Esql.Grammar

/-- What a rule returns and the state that it leaves satisfy a condition. -/
def Ensures {α : Type} (rule : Rule α) (s : Reading) (post : α → Reading → Prop) : Prop :=
  post (rule.run s).1 (rule.run s).2

namespace Ensures

variable {α β : Type} {rule : Rule α} {next : α → Rule β} {s : Reading}
  {middle : α → Reading → Prop} {post : β → Reading → Prop}

theorem bind (first : Ensures rule s middle)
    (second : ∀ x u, middle x u → Ensures (next x) u post) : Ensures (rule >>= next) s post :=
  second _ _ first

theorem mono {weaker : α → Reading → Prop} (ensured : Ensures rule s middle)
    (implies : ∀ x t, middle x t → weaker x t) : Ensures rule s weaker :=
  implies _ _ ensured

theorem and {also : α → Reading → Prop} (first : Ensures rule s middle)
    (second : Ensures rule s also) : Ensures rule s fun x t => middle x t ∧ also x t :=
  ⟨first, second⟩

end Ensures

section

variable {α β γ : Type} {s : Reading} {post : β → Reading → Prop}

@[simp]
theorem ensures_pure (x : β) : Ensures (pure x) s post ↔ post x s := Iff.rfl

@[simp]
theorem ensures_pure_bind (x : α) (next : α → Rule β) :
    Ensures (pure x >>= next) s post ↔ Ensures (next x) s post := Iff.rfl

@[simp]
theorem ensures_bind_assoc (rule : Rule α) (middle : α → Rule γ) (next : γ → Rule β) :
    Ensures (rule >>= middle >>= next) s post ↔
      Ensures (rule >>= fun x => middle x >>= next) s post := Iff.rfl

@[simp]
theorem ensures_get (next : Reading → Rule β) :
    Ensures (get >>= next) s post ↔ Ensures (next s) s post := Iff.rfl

@[simp]
theorem ensures_tokens (next : List Token → Rule β) :
    Ensures (tokens >>= next) s post ↔ Ensures (next s.rest) s post := Iff.rfl

@[simp]
theorem ensures_advance (next : Unit → Rule β) :
    Ensures (advance >>= next) s post ↔ Ensures (next ()) s.advance post := Iff.rfl

@[simp]
theorem ensures_skip (count : Nat) (next : Unit → Rule β) :
    Ensures (skip count >>= next) s post ↔ Ensures (next ()) (s.skip count) post := Iff.rfl

@[simp]
theorem ensures_record (fault : SyntaxFault) (span : Span) (next : Unit → Rule β) :
    Ensures (record fault span >>= next) s post ↔
      Ensures (next ()) (s.record ⟨fault, span⟩) post := Iff.rfl

@[simp]
theorem ensures_expected (what : Expectation) (next : Unit → Rule β) :
    Ensures (expected what >>= next) s post ↔
      Ensures (next ()) (s.record (s.missing what)) post := Iff.rfl

@[simp]
theorem ensures_extent (start : Nat) (incomplete : Bool) (next : Extent → Rule β) :
    Ensures (extent start incomplete >>= next) s post ↔
      Ensures (next (s.extent start incomplete)) s post := Iff.rfl

theorem exists_cons_of_head? {tokens : List Token} {member : Token → Bool}
    (first : tokens.head?.any member = true) :
    ∃ token rest, tokens = token :: rest ∧ member token = true := by
  cases tokens with
  | nil => cases first
  | cons token rest => exact ⟨token, rest, rfl, first⟩

theorem Reading.exists_of_isAt {s : Reading} {kind : TokenKind} (front : s.isAt kind = true) :
    ∃ token rest, s.rest = token :: rest ∧ token.kind = kind := by
  obtain ⟨token, rest, tokens, same⟩ := exists_cons_of_head? front
  exact ⟨token, rest, tokens, beq_iff_eq.mp same⟩

theorem run_accept (kind : TokenKind) (s : Reading) :
    (accept kind).run s = if s.isAt kind then (true, s.advance) else (false, s) := by
  change ((if s.isAt kind then do advance; pure true else pure false : Rule Bool).run s) = _
  split <;> rfl

theorem run_accept? (kind : TokenKind) (s : Reading) :
    (accept? kind).run s = if s.isAt kind then (s.rest.head?, s.advance) else (none, s) := by
  obtain ⟨source, rest, lastStop, errors⟩ := s
  cases rest with
  | nil => rfl
  | cons token rest =>
      change ((if token.kind == kind then do advance; pure (some token) else pure none :
          Rule (Option Token)).run ⟨source, token :: rest, lastStop, errors⟩) =
        if token.kind == kind then _ else _
      split <;> rfl

theorem ensures_accept {kind : TokenKind} {next : Bool → Rule β}
    (found : ∀ token rest, s.rest = token :: rest → token.kind = kind →
      Ensures (next true) s.advance post)
    (absent : Ensures (next false) s post) : Ensures (accept kind >>= next) s post := by
  unfold accept
  simp only [ensures_bind_assoc, ensures_get]
  split
  · rename_i front
    obtain ⟨token, rest, tokens, same⟩ := Reading.exists_of_isAt front
    exact found token rest tokens same
  · exact absent

theorem ensures_accept? {kind : TokenKind} {next : Option Token → Rule β}
    (found : ∀ token rest, s.rest = token :: rest → token.kind = kind →
      Ensures (next (some token)) s.advance post)
    (absent : Ensures (next none) s post) : Ensures (accept? kind >>= next) s post := by
  unfold accept?
  simp only [ensures_bind_assoc, ensures_tokens]
  split
  · rename_i token rest tokens
    split
    · rename_i same
      exact found token rest tokens (beq_iff_eq.mp same)
    · exact absent
  · exact absent

end

/-- What a kind of token adds to the parentheses closed, less those opened. -/
def closing : TokenKind → Int
  | .openParen => -1
  | .closeParen => 1
  | _ => 0

/-- How many more parentheses some tokens close than they open. -/
def excess : List Token → Int
  | [] => 0
  | token :: rest => closing token.kind + excess rest

@[simp]
theorem excess_nil : excess [] = 0 := rfl

@[simp]
theorem excess_cons (token : Token) (rest : List Token) :
    excess (token :: rest) = closing token.kind + excess rest := rfl

@[simp]
theorem excess_append (front back : List Token) :
    excess (front ++ back) = excess front + excess back := by
  induction front with
  | nil => simp
  | cons token front ih => simp [ih, Int.add_assoc]

/-- A kind of token that is neither a pipe nor a parenthesis. -/
def IsPlain (kind : TokenKind) : Prop := kind ≠ .pipe ∧ closing kind = 0

/-- One state follows another after these tokens have been read. -/
structure Leads (s : Reading) (read : List Token) (t : Reading) : Prop where
  source : t.source = s.source
  rest : s.rest = read ++ t.rest
  stop : t.lastStop = Token.stopAfter s.lastStop read
  errors : s.errors.length ≤ t.errors.length

theorem Reading.advance_rest {s : Reading} {token : Token} {rest : List Token}
    (front : s.rest = token :: rest) : s.advance.rest = rest := by
  unfold Reading.advance
  rw [front]

@[simp]
theorem Reading.errors_advance (s : Reading) : s.advance.errors = s.errors := by
  unfold Reading.advance
  split <;> rfl

theorem Reading.lastStop_advance {s : Reading} {token : Token} {rest : List Token}
    (front : s.rest = token :: rest) : s.advance.lastStop = token.span.stop := by
  unfold Reading.advance
  rw [front]

theorem Reading.rest_skip (s : Reading) (count : Nat) :
    (s.skip count).rest = s.rest.drop count := by
  induction count generalizing s with
  | zero => rfl
  | succ count ih =>
      rw [Reading.skip, ih]
      cases front : s.rest with
      | nil => rw [advance, front, front, List.drop_nil, List.drop_nil]
      | cons token rest => rw [advance_rest front, List.drop_succ_cons]

@[simp]
theorem Reading.errors_skip (s : Reading) (count : Nat) : (s.skip count).errors = s.errors := by
  induction count generalizing s with
  | zero => rfl
  | succ count ih => rw [Reading.skip, ih, errors_advance]

@[simp]
theorem Reading.errors_record (s : Reading) (error : SyntaxError) :
    (s.record error).errors.length = s.errors.length + 1 := by
  simp [Reading.record]

namespace Leads

variable {s u t : Reading} {first second : List Token}

theorem refl (s : Reading) : Leads s [] s := ⟨rfl, rfl, rfl, Nat.le_refl _⟩

theorem trans (front : Leads s first u) (back : Leads u second t) :
    Leads s (first ++ second) t := by
  refine ⟨back.source.trans front.source, ?_, ?_, Nat.le_trans front.errors back.errors⟩
  · rw [front.rest, back.rest, List.append_assoc]
  · rw [back.stop, front.stop, Token.stopAfter_append]

theorem record (s : Reading) (error : SyntaxError) : Leads s [] (s.record error) :=
  ⟨rfl, rfl, rfl, by simp⟩

theorem advance {token : Token} {rest : List Token} (front : s.rest = token :: rest) :
    Leads s [token] s.advance := by
  unfold Reading.advance
  rw [front]
  exact ⟨rfl, front, rfl, Nat.le_refl _⟩

end Leads

/-- Passing over a number of tokens reads as many as there are. -/
theorem leads_skip (s : Reading) (count : Nat) : Leads s (s.rest.take count) (s.skip count) := by
  induction count generalizing s with
  | zero => exact .refl s
  | succ count ih =>
      rw [Reading.skip]
      cases front : s.rest with
      | nil =>
          have same : s.advance = s := by
            unfold Reading.advance
            rw [front]
          have inner := ih s
          rw [same]
          rwa [front, List.take_nil] at inner
      | cons token rest =>
          have inner := ih s.advance
          rw [Reading.advance_rest front] at inner
          exact (Leads.advance front).trans inner

/-- A state follows another, whatever has been read in between. -/
def Follows (s t : Reading) : Prop := ∃ read, Leads s read t

namespace Follows

variable {s u t : Reading}

theorem refl (s : Reading) : Follows s s := ⟨[], .refl s⟩

theorem trans (front : Follows s u) (back : Follows u t) : Follows s t := by
  obtain ⟨first, front⟩ := front
  obtain ⟨second, back⟩ := back
  exact ⟨_, front.trans back⟩

theorem source (follows : Follows s t) : t.source = s.source := by
  obtain ⟨read, leads⟩ := follows
  exact leads.source

theorem errors (follows : Follows s t) : s.errors.length ≤ t.errors.length := by
  obtain ⟨read, leads⟩ := follows
  exact leads.errors

theorem length_le (follows : Follows s t) : t.rest.length ≤ s.rest.length := by
  obtain ⟨read, leads⟩ := follows
  rw [leads.rest, List.length_append]
  exact Nat.le_add_left _ _

end Follows

/-- A state follows another within one stage: no pipe is read, and at most `debt` more parentheses
are closed than are opened. -/
def Passage (debt : Int) (s t : Reading) : Prop :=
  ∃ read, Leads s read t ∧ (∀ token ∈ read, token.kind ≠ .pipe) ∧ excess read ≤ debt

namespace Passage

variable {s u t : Reading} {debt more : Int}

theorem follows (passage : Passage debt s t) : Follows s t := by
  obtain ⟨read, leads, _⟩ := passage
  exact ⟨read, leads⟩

theorem refl (s : Reading) : Passage 0 s s :=
  ⟨[], .refl s, List.forall_mem_nil _, Int.le_refl 0⟩

theorem trans (front : Passage debt s u) (back : Passage more u t) :
    Passage (debt + more) s t := by
  obtain ⟨first, firstLeads, firstPlain, firstExcess⟩ := front
  obtain ⟨second, secondLeads, secondPlain, secondExcess⟩ := back
  refine ⟨first ++ second, firstLeads.trans secondLeads, ?_, ?_⟩
  · intro token member
    rcases List.mem_append.mp member with inFirst | inSecond
    · exact firstPlain token inFirst
    · exact secondPlain token inSecond
  · rw [excess_append]
    exact Int.add_le_add firstExcess secondExcess

theorem weaken (passage : Passage debt s t) (bound : debt ≤ more) : Passage more s t := by
  obtain ⟨read, leads, plain, excess⟩ := passage
  exact ⟨read, leads, plain, Int.le_trans excess bound⟩

theorem record (s : Reading) (error : SyntaxError) : Passage 0 s (s.record error) :=
  ⟨[], .record s error, List.forall_mem_nil _, Int.le_refl 0⟩

theorem advance {token : Token} {rest : List Token} {kind : TokenKind}
    (front : s.rest = token :: rest) (found : token.kind = kind) (plain : kind ≠ .pipe) :
    Passage (closing kind) s s.advance := by
  subst found
  refine ⟨[token], .advance front, ?_, ?_⟩
  · intro other member
    rwa [List.mem_singleton.mp member]
  · exact Int.le_of_eq (by rw [excess_cons, excess_nil, Int.add_zero])

/-- Passing over tokens none of which is a pipe or a parenthesis. -/
theorem skip {read rest : List Token} (front : s.rest = read ++ rest)
    (plain : ∀ token ∈ read, IsPlain token.kind) :
    Passage 0 s (s.skip read.length) := by
  have leads := leads_skip s read.length
  rw [front, List.take_left'] at leads
  · refine ⟨read, leads, fun token member => (plain token member).1, ?_⟩
    clear front leads
    induction read with
    | nil => exact Int.le_refl 0
    | cons token read ih =>
        rw [excess_cons, (plain token List.mem_cons_self).2, Int.zero_add]
        exact ih fun other member => plain other (List.mem_cons_of_mem _ member)
  · rfl

end Passage

theorem accept_passage {kind : TokenKind} (plain : IsPlain kind) (s : Reading) :
    Ensures (accept kind) s fun _ t => Passage 0 s t := by
  have read : Ensures (accept kind >>= pure) s fun _ t => Passage 0 s t := by
    refine ensures_accept ?_ (.refl s)
    intro token rest front found
    exact (Passage.advance front found plain.1).weaken (Int.le_of_eq plain.2)
  exact read

end Esql.Grammar
