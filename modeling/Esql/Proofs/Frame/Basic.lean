import Esql.Proofs.Grammar.Outcome
import Esql.Proofs.Syntax.Relocate

/-!
# Reading within a larger text

The tokens of a stage can be read by themselves or within the tokens of a longer text, where a pipe
follows them if anything does. A rule that does not go past the stage does the same in both, up to
the place of the stage: it takes the same steps and returns the same trees, moved.
-/

namespace Esql.Grammar

/-- What surrounds the tokens of a stage in a larger text: the text, how far into it the stage
begins, the tokens behind the stage, and the errors recorded before it. -/
structure Frame where
  source : String
  offset : Nat
  beyond : List Token
  prior : List SyntaxError
  closed : ∀ token ∈ beyond.head?, token.kind = .pipe

namespace Frame

variable (φ : Frame)

/-- Where trees of the stage stand in the larger text. -/
def move : Relocation := .into φ.source φ.offset

/-- The error of not finding something behind the stage. -/
def missing (what : Expectation) : SyntaxError :=
  match φ.beyond with
  | token :: _ => ⟨.expected what (some token.text), token.span⟩
  | [] => ⟨.expected what none, .point (Text.byteLength φ.source)⟩

/-- An error of the stage as it is recorded in the larger text. -/
def error (error : SyntaxError) : SyntaxError :=
  match error.fault with
  | .expected what none => φ.missing what
  | fault => ⟨fault, error.span.shift φ.offset⟩

def token (token : Token) : Token := token.shift φ.offset

/-- A state within the stage as a state within the larger text. -/
def embed (s : Reading) : Reading where
  source := φ.source
  rest := s.rest.map φ.token ++ φ.beyond
  lastStop := s.lastStop + φ.offset
  errors := φ.prior ++ s.errors.map φ.error

@[simp]
theorem token_kind (token : Token) : (φ.token token).kind = token.kind := rfl

@[simp]
theorem token_lower (token : Token) : (φ.token token).lower = token.lower := rfl

@[simp]
theorem token_isWord (token : Token) (word : String) :
    (φ.token token).isWord word = token.isWord word := rfl

@[simp]
theorem token_start (token : Token) :
    (φ.token token).span.start = token.span.start + φ.offset := rfl

@[simp]
theorem token_stop (token : Token) : (φ.token token).span.stop = token.span.stop + φ.offset := rfl

theorem embed_rest_cons {s : Reading} {token : Token} {rest : List Token}
    (front : s.rest = token :: rest) :
    (φ.embed s).rest = φ.token token :: (rest.map φ.token ++ φ.beyond) := by
  rw [embed, front]
  rfl

theorem embed_rest_nil {s : Reading} (ended : s.rest = []) : (φ.embed s).rest = φ.beyond := by
  rw [embed, ended]
  rfl

/-- Nothing stands behind the stage, or a pipe does. -/
theorem beyond_cases :
    φ.beyond = [] ∨ ∃ pipe rest, φ.beyond = pipe :: rest ∧ pipe.kind = .pipe := by
  cases front : φ.beyond with
  | nil => exact .inl rfl
  | cons pipe rest => exact .inr ⟨pipe, rest, rfl, φ.closed pipe (by rw [front]; rfl)⟩

/-- A kind of token that does not stand at the front of the stage does not stand behind it. -/
theorem isAt_embed (s : Reading) {kind : TokenKind} (noPipe : kind ≠ .pipe) :
    (φ.embed s).isAt kind = s.isAt kind := by
  unfold Reading.isAt embed
  cases front : s.rest with
  | cons token rest => rfl
  | nil =>
      rcases φ.beyond_cases with none | ⟨pipe, rest, some, found⟩
      · rw [none]
        rfl
      · rw [some]
        simp [found, noPipe.symm]

theorem isAt_embed_cons {s : Reading} {token : Token} {rest : List Token}
    (front : s.rest = token :: rest) (kind : TokenKind) :
    (φ.embed s).isAt kind = s.isAt kind := by
  unfold Reading.isAt embed
  rw [front]
  rfl

theorem isAtBoundary_embed (s : Reading) (nested : Bool) :
    (φ.embed s).isAtBoundary nested = s.isAtBoundary nested := by
  unfold Reading.isAtBoundary Reading.isAtEnd
  rw [φ.isAt_embed s TokenKind.noConfusion]
  unfold Reading.isAt embed
  cases front : s.rest with
  | cons token rest => rfl
  | nil =>
      rcases φ.beyond_cases with none | ⟨pipe, rest, some, found⟩
      · rw [none]
        rfl
      · rw [some]
        simp [found]

theorem advance_embed {s : Reading} {token : Token} {rest : List Token}
    (front : s.rest = token :: rest) : (φ.embed s).advance = φ.embed s.advance := by
  unfold Reading.advance embed
  rw [front]
  rfl

theorem skip_embed {s : Reading} {count : Nat} (enough : count ≤ s.rest.length) :
    (φ.embed s).skip count = φ.embed (s.skip count) := by
  induction count generalizing s with
  | zero => rfl
  | succ count ih =>
      cases front : s.rest with
      | nil =>
          rw [front] at enough
          cases enough
      | cons token rest =>
          have left : count ≤ s.advance.rest.length := by
            rw [Reading.advance_rest front]
            rw [front] at enough
            exact Nat.le_of_succ_le_succ enough
          rw [Reading.skip, Reading.skip, φ.advance_embed front, ih left]

theorem record_embed (s : Reading) (error : SyntaxError) :
    (φ.embed s).record (φ.error error) = φ.embed (s.record error) := by
  simp [embed, Reading.record]

theorem missing_embed (s : Reading) (what : Expectation) :
    (φ.embed s).missing what = φ.error (s.missing what) := by
  unfold Reading.missing
  cases front : s.rest with
  | cons token rest =>
      simp only [embed, front]
      rfl
  | nil =>
      simp only [embed, front, List.map_nil, List.nil_append]
      rfl

theorem nextStart_embed {s : Reading} {token : Token} {rest : List Token}
    (front : s.rest = token :: rest) : (φ.embed s).nextStart = s.nextStart + φ.offset := by
  unfold Reading.nextStart embed
  rw [front]
  rfl

end Frame

/-- The place of some tokens within a text that has more of them behind. -/
def Frame.inPlace (s : Reading) (back : List Token)
    (closed : ∀ token ∈ back.head?, token.kind = .pipe) : Frame :=
  ⟨s.source, 0, back, s.errors, closed⟩

theorem Frame.token_inPlace (s : Reading) (back : List Token)
    (closed : ∀ token ∈ back.head?, token.kind = .pipe) (tokens : List Token) :
    tokens.map (inPlace s back closed).token = tokens :=
  List.map_id tokens

theorem Frame.embed_inPlace {s : Reading} {front back : List Token}
    (closed : ∀ token ∈ back.head?, token.kind = .pipe) (rest : s.rest = front ++ back)
    (source : String) : (inPlace s back closed).embed ⟨source, front, s.lastStop, []⟩ = s := by
  have tokens : front.map (inPlace s back closed).token ++ back = s.rest := by
    rw [token_inPlace, rest]
  change Reading.mk s.source (front.map (inPlace s back closed).token ++ back) s.lastStop
    (s.errors ++ []) = s
  rw [tokens, List.append_nil]

/-- A rule on a larger text does what a rule does on the stage, up to the place of the stage. -/
def Mirrors {α β : Type} (φ : Frame) (f : α → β) (large : Rule β) (small : Rule α) (s : Reading) :
    Prop :=
  large.run (φ.embed s) = (f (small.run s).1, φ.embed (small.run s).2)

namespace Mirrors

variable {α β γ δ : Type} {φ : Frame} {f : α → β} {g : γ → δ} {large : Rule β} {small : Rule α}
  {largeNext : β → Rule δ} {smallNext : α → Rule γ} {s : Reading} {post : α → Reading → Prop}

theorem bind (first : Mirrors φ f large small s) (known : Ensures small s post)
    (second : ∀ x t, post x t → Mirrors φ g (largeNext (f x)) (smallNext x) t) :
    Mirrors φ g (large >>= largeNext) (small >>= smallNext) s := by
  have later := second _ _ known
  unfold Mirrors at first later ⊢
  rw [StateT.run_bind, StateT.run_bind, first]
  exact later

theorem seq (first : Mirrors φ f large small s)
    (second : ∀ x t, Mirrors φ g (largeNext (f x)) (smallNext x) t) :
    Mirrors φ g (large >>= largeNext) (small >>= smallNext) s := by
  have known : Ensures small s fun _ _ => True := trivial
  exact first.bind known fun x t _ => second x t

theorem pure {x : α} {y : β} (same : y = f x) : Mirrors φ f (pure y) (pure x) s := by
  rw [same]
  rfl

end Mirrors

section

variable {α β : Type} {φ : Frame} {f : α → β} {s : Reading}

@[simp]
theorem mirrors_get (large : Reading → Rule β) (small : Reading → Rule α) :
    Mirrors φ f (get >>= large) (get >>= small) s ↔
      Mirrors φ f (large (φ.embed s)) (small s) s := Iff.rfl

@[simp]
theorem mirrors_tokens (large : List Token → Rule β) (small : List Token → Rule α) :
    Mirrors φ f (tokens >>= large) (tokens >>= small) s ↔
      Mirrors φ f (large (s.rest.map φ.token ++ φ.beyond)) (small s.rest) s := Iff.rfl

@[simp]
theorem mirrors_expected (what : Expectation) (large : Unit → Rule β) (small : Unit → Rule α) :
    Mirrors φ f (expected what >>= large) (expected what >>= small) s ↔
      Mirrors φ f (large ()) (small ()) (s.record (s.missing what)) := by
  have same : (φ.embed s).record ((φ.embed s).missing what) =
      φ.embed (s.record (s.missing what)) := by
    rw [φ.missing_embed, φ.record_embed]
  unfold Mirrors
  rw [← same]
  rfl

@[simp]
theorem mirrors_extent (start : Nat) (incomplete : Bool) (large : Extent → Rule β)
    (small : Extent → Rule α) :
    Mirrors φ f (extent (start + φ.offset) incomplete >>= large) (extent start incomplete >>= small)
        s ↔
      Mirrors φ f (large (φ.move.extent (s.extent start incomplete)))
        (small (s.extent start incomplete)) s := Iff.rfl

theorem mirrors_advance {token : Token} {rest : List Token} (front : s.rest = token :: rest)
    (large : Unit → Rule β) (small : Unit → Rule α) :
    Mirrors φ f (advance >>= large) (advance >>= small) s ↔
      Mirrors φ f (large ()) (small ()) s.advance := by
  unfold Mirrors
  rw [← φ.advance_embed front]
  rfl

theorem mirrors_skip {count : Nat} (enough : count ≤ s.rest.length) (large : Unit → Rule β)
    (small : Unit → Rule α) :
    Mirrors φ f (skip count >>= large) (skip count >>= small) s ↔
      Mirrors φ f (large ()) (small ()) (s.skip count) := by
  unfold Mirrors
  rw [← φ.skip_embed enough]
  rfl

theorem mirrors_record {fault : SyntaxFault} {span moved : Span}
    (same : φ.error ⟨fault, span⟩ = ⟨fault, moved⟩) (large : Unit → Rule β)
    (small : Unit → Rule α) :
    Mirrors φ f (record fault moved >>= large) (record fault span >>= small) s ↔
      Mirrors φ f (large ()) (small ()) (s.record ⟨fault, span⟩) := by
  unfold Mirrors
  rw [← φ.record_embed, same]
  rfl

/-- A kind of token that stands at the front of both states or of neither is accepted alike. -/
theorem mirrors_accept_of_isAt {kind : TokenKind} (same : (φ.embed s).isAt kind = s.isAt kind)
    {large : Bool → Rule β} {small : Bool → Rule α}
    (found : ∀ token rest, s.rest = token :: rest → token.kind = kind →
      Mirrors φ f (large true) (small true) s.advance)
    (absent : s.isAt kind = false → Mirrors φ f (large false) (small false) s) :
    Mirrors φ f (accept kind >>= large) (accept kind >>= small) s := by
  unfold Mirrors
  rw [StateT.run_bind, StateT.run_bind, run_accept, run_accept, same]
  cases front : s.isAt kind with
  | true =>
      obtain ⟨token, rest, tokens, kind'⟩ := Reading.exists_of_isAt front
      rw [φ.advance_embed tokens]
      exact found token rest tokens kind'
  | false => exact absent front

theorem mirrors_accept {kind : TokenKind} (noPipe : kind ≠ .pipe) {large : Bool → Rule β}
    {small : Bool → Rule α}
    (found : ∀ token rest, s.rest = token :: rest → token.kind = kind →
      Mirrors φ f (large true) (small true) s.advance)
    (absent : Mirrors φ f (large false) (small false) s) :
    Mirrors φ f (accept kind >>= large) (accept kind >>= small) s :=
  mirrors_accept_of_isAt (φ.isAt_embed s noPipe) found fun _ => absent

theorem accept_mirrors_of_isAt {kind : TokenKind}
    (same : (φ.embed s).isAt kind = s.isAt kind) : Mirrors φ id (accept kind) (accept kind) s := by
  have read : Mirrors φ id (accept kind >>= pure) (accept kind >>= pure) s :=
    mirrors_accept_of_isAt same (fun _ _ _ _ => .pure rfl) fun _ => .pure rfl
  exact read

theorem accept_mirrors (φ : Frame) {kind : TokenKind} (noPipe : kind ≠ .pipe) (s : Reading) :
    Mirrors φ id (accept kind) (accept kind) s :=
  accept_mirrors_of_isAt (φ.isAt_embed s noPipe)

theorem mirrors_accept?_of_isAt {kind : TokenKind} (same : (φ.embed s).isAt kind = s.isAt kind)
    {large : Option Token → Rule β} {small : Option Token → Rule α}
    (found : ∀ token rest, s.rest = token :: rest → token.kind = kind →
      Mirrors φ f (large (some (φ.token token))) (small (some token)) s.advance)
    (absent : Mirrors φ f (large none) (small none) s) :
    Mirrors φ f (accept? kind >>= large) (accept? kind >>= small) s := by
  unfold Mirrors
  rw [StateT.run_bind, StateT.run_bind, run_accept?, run_accept?, same]
  split
  · rename_i front
    obtain ⟨token, rest, tokens, kind'⟩ := Reading.exists_of_isAt front
    have first : (φ.embed s).rest.head? = some (φ.token token) := by
      simp only [Frame.embed, tokens]
      rfl
    rw [φ.advance_embed tokens, first, tokens]
    exact found token rest tokens kind'
  · exact absent

theorem mirrors_accept? {kind : TokenKind} (noPipe : kind ≠ .pipe)
    {large : Option Token → Rule β} {small : Option Token → Rule α}
    (found : ∀ token rest, s.rest = token :: rest → token.kind = kind →
      Mirrors φ f (large (some (φ.token token))) (small (some token)) s.advance)
    (absent : Mirrors φ f (large none) (small none) s) :
    Mirrors φ f (accept? kind >>= large) (accept? kind >>= small) s :=
  mirrors_accept?_of_isAt (φ.isAt_embed s noPipe) found absent

end

end Esql.Grammar
