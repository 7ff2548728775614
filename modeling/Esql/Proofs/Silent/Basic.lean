import Esql.Proofs.Candid.Expression

/-!
# Rules that tell what they record

A rule that records an error says so in what it returns: there is nothing, or it is marked as
incomplete. There is one exception. An interval cannot be marked, so nothing tells that an interval
in parentheses is not closed.
-/

namespace Esql.Grammar

/-- The tokens of an interval in any number of parentheses, some of which may not be closed. -/
inductive IsInterval : List Token → Prop
  | bare {number unit : Token} (integer : number.kind = .integer)
      (word : unit.kind.isWord = true) : IsInterval [number, unit]
  | closed {opening close : Token} {run : List Token} (opens : opening.kind = .openParen)
      (closes : close.kind = .closeParen) (inner : IsInterval run) :
      IsInterval (opening :: (run ++ [close]))
  | unclosed {opening : Token} {run : List Token} (opens : opening.kind = .openParen)
      (inner : IsInterval run) : IsInterval (opening :: run)

/-- The error that an interval in parentheses is not closed, recorded between two states. -/
inductive LeftOpen (s t : Reading) : SyntaxError → Prop
  | intro {front run : List Token} {opening : Token} {u : Reading}
      (opens : opening.kind = .openParen) (interval : IsInterval run)
      (read : Leads s (front ++ opening :: run) u) (missing : u.isAt .closeParen = false)
      (later : Follows u t) : LeftOpen s t (u.missing .closeParen)

namespace LeftOpen

variable {s u t : Reading} {error : SyntaxError}

theorem before (found : LeftOpen s u error) (later : Follows u t) : LeftOpen s t error := by
  obtain ⟨opens, interval, read, missing, further⟩ := found
  exact .intro opens interval read missing (further.trans later)

theorem after (earlier : Follows s u) (found : LeftOpen u t error) : LeftOpen s t error := by
  obtain ⟨tokens, leads⟩ := earlier
  obtain ⟨opens, interval, read, missing, later⟩ := found
  have whole := leads.trans read
  rw [← List.append_assoc] at whole
  exact .intro opens interval whole missing later

end LeftOpen

/-- Between two states nothing is recorded but that intervals in parentheses are not closed. -/
structure Silent (s t : Reading) : Prop where
  follows : Follows s t
  told : ∃ told, t.errors = s.errors ++ told ∧ ∀ error ∈ told, LeftOpen s t error

namespace Silent

variable {s u t : Reading}

theorem of_errors (follows : Follows s t) (same : t.errors = s.errors) : Silent s t :=
  ⟨follows, [], by rw [same, List.append_nil], List.forall_mem_nil _⟩

theorem refl (s : Reading) : Silent s s := of_errors (.refl s) rfl

theorem skip (s : Reading) (count : Nat) : Silent s (s.skip count) :=
  of_errors (follows_skip s count) (s.errors_skip count)

theorem advance (s : Reading) : Silent s s.advance := skip s 1

theorem trans (front : Silent s u) (back : Silent u t) : Silent s t := by
  obtain ⟨first, recorded, firstOpen⟩ := front.told
  obtain ⟨second, further, secondOpen⟩ := back.told
  refine ⟨front.follows.trans back.follows, first ++ second, ?_, ?_⟩
  · rw [further, recorded, List.append_assoc]
  · intro error member
    rcases List.mem_append.mp member with inFirst | inSecond
    · exact (firstOpen error inFirst).before back.follows
    · exact .after front.follows (secondOpen error inSecond)

/-- An interval is read behind an opening parenthesis that is not closed. -/
theorem leftOpen {opening : Token} {run : List Token} (silent : Silent s t)
    (opens : opening.kind = .openParen) (interval : IsInterval run)
    (read : Leads s (opening :: run) t) (missing : t.isAt .closeParen = false) :
    Silent s (t.record (t.missing .closeParen)) := by
  obtain ⟨told, recorded, opened⟩ := silent.told
  have further : Follows t (t.record (t.missing .closeParen)) := ⟨_, .record t _⟩
  have whole : Leads s ([] ++ opening :: run) t := read
  refine ⟨silent.follows.trans further, told ++ [t.missing .closeParen], ?_, ?_⟩
  · rw [← List.append_assoc, ← recorded]
    rfl
  · intro error member
    rcases List.mem_append.mp member with earlier | last
    · exact (opened error earlier).before further
    · rw [List.mem_singleton.mp last]
      exact .intro opens interval whole missing further

end Silent

/-- Unless something is said to have failed, nothing was recorded but open intervals. -/
def Told (failed : Bool) (s t : Reading) : Prop := s.Ready → failed = false → Silent s t

namespace Told

variable {s u t : Reading} {failed : Bool}

theorem of_failed (fails : failed = true) : Told failed s t := by
  rw [fails]
  exact fun _ => nofun

theorem of_silent (silent : Silent s t) : Told failed s t := fun _ _ => silent

theorem weaken (told : Told false s t) : Told failed s t := fun ready _ => told ready rfl

theorem append (front : Told false s u) (back : Told failed u t) : Told failed s t := by
  intro ready succeeded
  have first := front ready rfl
  exact first.trans (back (first.follows.ready ready) succeeded)

theorem behind (front : Silent s u) (back : Told failed u t) : Told failed s t :=
  append (of_silent front) back

end Told

/-- A rule that says by its result whether it failed; if it did not, it recorded nothing but open
intervals. -/
def Tells {α : Type} (rule : Rule α) (failed : α → Bool) : Prop :=
  ∀ s, Ensures rule s fun x t => Told (failed x) s t

namespace Tells

variable {α β : Type} {rule : Rule α} {next : α → Rule β} {failed : α → Bool} {halted : β → Bool}

theorem pure (x : α) : Tells (pure x) failed := fun s => .of_silent (.refl s)

/-- A rule that always says that it failed. -/
theorem of_failed (always : Yields rule fun x => failed x = true) : Tells rule failed := by
  intro s
  exact .of_failed (always s)

/-- A rule goes on where the first one did not fail, and otherwise says that it failed. -/
theorem bind (first : Tells rule failed) (second : ∀ x, failed x = false → Tells (next x) halted)
    (broken : ∀ x, failed x = true → Yields (next x) fun y => halted y = true) :
    Tells (rule >>= next) halted := by
  intro s
  refine (first s).bind ?_
  intro x u front
  cases told : failed x with
  | true => exact Told.of_failed (broken x told u)
  | false =>
      rw [told] at front
      exact (second x told u).mono fun _ _ back => front.append back

/-- The first rule records nothing. -/
theorem after (first : Tells rule fun _ => false) (second : ∀ x, Tells (next x) halted) :
    Tells (rule >>= next) halted :=
  first.bind (fun x _ => second x) nofun

/-- A rule goes on behind a part that is there and complete, and says that it failed otherwise. -/
theorem bind_part {incomplete : α → Bool} {rule : Rule (Option α)} {next : Option α → Rule β}
    (first : Tells rule (·.all incomplete))
    (whole : ∀ x, incomplete x = false → Tells (next (some x)) halted)
    (absent : Yields (next none) fun y => halted y = true)
    (marked : ∀ x, incomplete x = true → Yields (next (some x)) fun y => halted y = true) :
    Tells (rule >>= next) halted := by
  refine first.bind ?_ ?_
  · intro x? complete
    cases x? with
    | none => cases complete
    | some x => exact whole x complete
  · intro x? broken
    cases x? with
    | none => exact absent
    | some x => exact marked x broken

theorem get {next : Reading → Rule β} (second : ∀ s, Tells (next s) halted) :
    Tells (MonadState.get >>= next) halted :=
  fun s => second s s

theorem tokens {next : List Token → Rule β} (second : ∀ tokens, Tells (next tokens) halted) :
    Tells (tokens >>= next) halted :=
  fun s => second s.rest s

theorem extent {next : Extent → Rule β} {start : Nat} {incomplete : Bool}
    (second : ∀ extent, extent.incomplete = incomplete → Tells (next extent) halted) :
    Tells (extent start incomplete >>= next) halted :=
  fun s => second _ rfl s

theorem skip (count : Nat) : Tells (skip count) fun _ => false := fun s =>
  .of_silent (.skip s count)

theorem advance : Tells advance fun _ => false := skip 1

theorem accept (kind : TokenKind) : Tells (accept kind) fun _ => false := by
  refine .get fun s => ?_
  split
  · exact advance.after fun _ => .pure true
  · exact .pure false

theorem accept? (kind : TokenKind) : Tells (accept? kind) fun _ => false := by
  refine .tokens fun rest => ?_
  split
  · split
    · exact advance.after fun _ => .pure _
    · exact .pure none
  · exact .pure none

end Tells

/-- A rule for a sequence records nothing when it reads the whole sequence. -/
abbrev TellsParts {α : Type} (rule : Rule (Parts α)) : Prop := Tells rule fun read => !read.complete

section

variable {α : Type}

theorem tells_halt (what : Expectation) : TellsParts (halt what : Rule (Parts α)) :=
  .of_failed (.after fun _ => .pure rfl)

theorem tells_andThen {first second : Rule (Parts α)} (here : TellsParts first)
    (there : TellsParts second) : TellsParts (andThen first second) := by
  refine here.bind ?_ ?_
  · intro read complete
    rw [if_pos (by simpa using complete)]
    exact there.bind (fun others _ => .pure _) fun others broken => .pure broken
  · intro read broken
    rw [if_neg (by simpa using broken)]
    exact .pure broken

theorem tells_separated {item : Rule (Parts α)} (here : TellsParts item) :
    TellsParts (separated item) := by
  refine .tokens fun tokens => ?_
  generalize tokens.length + 1 = bound
  induction bound with
  | zero => exact tells_halt .expression
  | succ bound ih =>
      refine tells_andThen here (.after (.accept .comma) fun comma => ?_)
      split
      · exact ih
      · exact .pure Parts.none

end

/-! ## Names -/

/-- A name that is not closed, or a point without a name behind it, is marked. -/
theorem tells_column? (stars : Bool) : Tells (column? stars) (·.any (·.incomplete)) := by
  refine .tokens fun tokens => ?_
  split
  · exact .pure none
  · refine .after (.skip _) fun _ => .extent fun extent told => ?_
    split
    · rename_i unclosed
      exact .of_failed (.after fun _ => .pure (by simp [told, unclosed]))
    split
    · rename_i dangling
      exact .of_failed (.after fun _ => .pure (by simp [told, dangling]))
    · exact .pure _

theorem tells_requiredColumn (stars : Bool) :
    Tells (requiredColumn stars) (·.all (·.incomplete)) := by
  refine (tells_column? stars).bind ?_ ?_
  · intro column? _
    cases column? with
    | some column => exact .pure _
    | none => exact .of_failed (.after fun _ => .pure rfl)
  · intro column? broken
    cases column? with
    | some column => exact .pure broken
    | none => cases broken

theorem tells_columnOperand (stars : Bool) : TellsParts (columnOperand stars) :=
  (tells_requiredColumn stars).bind_part (fun _ _ => .pure _) (.pure rfl) fun column marked =>
    .pure (by simp [Parts.one, marked])

theorem tells_source? (kind : SourceKind) : Tells (source? kind) (·.any (·.incomplete)) := by
  refine .get fun s => .tokens fun tokens => ?_
  split
  · exact .pure none
  · rename_i name length incomplete _
    refine .after (.skip _) fun _ => .extent fun extent told => ?_
    cases incomplete with
    | true => exact .of_failed (Yields.after fun _ => .pure told)
    | false => exact Tells.pure _

end Esql.Grammar
