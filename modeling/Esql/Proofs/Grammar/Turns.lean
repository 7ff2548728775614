import Esql.Proofs.Frame.Arguments
import Esql.Proofs.Grammar.Forward

/-!
# Turns of a loop

A sequence is read in turns: each turn reads one member and goes on or leaves. Whatever the tokens
are, a turn that goes on has read at least one of them, so the turns come to an end. The bounds of
the rules are there to make this plain to see; under every bound that covers the tokens left, a rule
does the same, and a loop takes the same turns.
-/

namespace Esql.Grammar

/-- What a turn comes to: the loop goes on from a state, or it leaves with a result. -/
inductive Turn (σ α : Type) where
  | again (state : σ)
  | leave (result : α)

/-- At least one token is read on the way from one state to another. -/
def Advances (s t : Reading) : Prop := ∃ token read, Leads s (token :: read) t

namespace Advances

variable {s u t : Reading}

theorem follows (advances : Advances s t) : Follows s t := by
  obtain ⟨token, read, leads⟩ := advances
  exact ⟨_, leads⟩

theorem advance {token : Token} {rest : List Token} (front : s.rest = token :: rest) :
    Advances s s.advance :=
  ⟨token, [], .advance front⟩

theorem trans (front : Advances s u) (back : Follows u t) : Advances s t := by
  obtain ⟨token, first, front⟩ := front
  obtain ⟨second, back⟩ := back
  exact ⟨token, _, front.trans back⟩

theorem length_lt (advances : Advances s t) : t.rest.length + 1 ≤ s.rest.length := by
  obtain ⟨token, read, leads⟩ := advances
  rw [leads.rest, List.length_append, List.length_cons]
  omega

/-- Tokens that are there are passed over. -/
theorem skip {count : Nat} (enough : count + 1 ≤ s.rest.length) :
    Advances s (s.skip (count + 1)) := by
  obtain ⟨token, rest, front⟩ : ∃ token rest, s.rest = token :: rest := by
    refine List.exists_cons_of_ne_nil ?_
    intro none
    rw [none] at enough
    cases enough
  have leads := leads_skip s (count + 1)
  rw [front, List.take_succ_cons] at leads
  exact ⟨token, _, leads⟩

end Advances

theorem Follows.advances {s u t : Reading} (front : Follows s u) (back : Advances u t) :
    Advances s t := by
  obtain ⟨first, front⟩ := front
  obtain ⟨token, second, back⟩ := back
  have both := front.trans back
  cases first with
  | nil => exact ⟨token, second, both⟩
  | cons other first => exact ⟨other, _, both⟩

/-- A turn goes on behind at least one token more, or it leaves. -/
def Turn.Moves {σ α : Type} (s : Reading) : Turn σ α → Reading → Prop
  | .again _, t => Advances s t
  | .leave _, t => Follows s t

theorem Turn.Moves.of_advances {σ α : Type} {s t : Reading} {step : Turn σ α}
    (advances : Advances s t) : step.Moves s t := by
  cases step with
  | again => exact advances
  | leave => exact advances.follows

/-- Where a turn leaves, a condition holds. -/
def Turn.Leaves {σ α : Type} (post : α → Reading → Prop) : Turn σ α → Reading → Prop
  | .again _, _ => True
  | .leave result, t => post result t

/-- The turns in a row from a state on, up to the one that leaves. -/
inductive Loops {σ α : Type} (turn : σ → Rule (Turn σ α)) : σ → Reading → α × Reading → Prop where
  | leave {x : σ} {s t : Reading} {result : α} (run : (turn x).run s = (.leave result, t))
      (follows : Follows s t) : Loops turn x s (result, t)
  | again {x y : σ} {s u : Reading} {last : α × Reading} (run : (turn x).run s = (.again y, u))
      (advances : Advances s u) (later : Loops turn y u last) : Loops turn x s last

/-- What is done behind a turn, if going on is a rule. -/
def Turn.further {σ α : Type} (again : σ → Rule α) : Turn σ α → Rule α
  | .again state => again state
  | .leave result => pure result

/-- A rule does what one turn does, and then what is done behind the turn. -/
def Unrolls {σ α : Type} (rule : Rule α) (turn : Rule (Turn σ α)) (again : σ → Rule α)
    (s : Reading) : Prop :=
  rule.run s = (turn >>= Turn.further again).run s

namespace Unrolls

variable {σ α β : Type} {onward : σ → Rule α} {s : Reading} {first other : Rule β}
  {next : β → Rule α} {turn : β → Rule (Turn σ α)} {post : β → Reading → Prop}

theorem leave (result : α) : Unrolls (pure result) (pure (.leave result)) onward s := rfl

theorem last (rule : Rule α) : Unrolls rule (rule >>= fun x => pure (.leave x)) onward s := rfl

theorem again (onward : σ → Rule α) (x : σ) : Unrolls (onward x) (pure (.again x)) onward s := rfl

theorem congr {rule same : Rule α} {turn : Rule (Turn σ α)} (runs : rule.run s = same.run s)
    (unrolls : Unrolls same turn onward s) : Unrolls rule turn onward s :=
  runs.trans unrolls

theorem bind (same : first.run s = other.run s) (known : Ensures first s post)
    (later : ∀ x t, post x t → Unrolls (next x) (turn x) onward t) :
    Unrolls (first >>= next) (other >>= turn) onward s := by
  have behind := later _ _ known
  unfold Unrolls at behind ⊢
  rw [StateT.run_bind, StateT.run_bind, StateT.run_bind, ← same]
  exact behind

theorem step (same : first.run s = other.run s)
    (later : ∀ x t, Unrolls (next x) (turn x) onward t) :
    Unrolls (first >>= next) (other >>= turn) onward s := by
  have known : Ensures first s fun _ _ => True := trivial
  exact bind same known fun x t _ => later x t

theorem seq (later : ∀ x t, Unrolls (next x) (turn x) onward t) :
    Unrolls (first >>= next) (first >>= turn) onward s :=
  step rfl later

end Unrolls

section

variable {σ α : Type} {again : σ → Rule α} {s : Reading}

@[simp]
theorem unrolls_get (next : Reading → Rule α) (turn : Reading → Rule (Turn σ α)) :
    Unrolls (get >>= next) (get >>= turn) again s ↔ Unrolls (next s) (turn s) again s := Iff.rfl

@[simp]
theorem unrolls_tokens (next : List Token → Rule α) (turn : List Token → Rule (Turn σ α)) :
    Unrolls (tokens >>= next) (tokens >>= turn) again s ↔
      Unrolls (next s.rest) (turn s.rest) again s := Iff.rfl

@[simp]
theorem unrolls_skip (count : Nat) (next : Unit → Rule α) (turn : Unit → Rule (Turn σ α)) :
    Unrolls (skip count >>= next) (skip count >>= turn) again s ↔
      Unrolls (next ()) (turn ()) again (s.skip count) := Iff.rfl

theorem unrolls_accept {kind : TokenKind} {next : Bool → Rule α} {turn : Bool → Rule (Turn σ α)}
    (found : ∀ token rest, s.rest = token :: rest → token.kind = kind →
      Unrolls (next true) (turn true) again s.advance)
    (absent : Unrolls (next false) (turn false) again s) :
    Unrolls (accept kind >>= next) (accept kind >>= turn) again s := by
  have read : Ensures (accept kind >>= pure) s fun x t => Unrolls (next x) (turn x) again t :=
    ensures_accept found absent
  have known : Ensures (accept kind) s fun x t => Unrolls (next x) (turn x) again t := read
  exact .bind rfl known fun _ _ same => same

end

namespace Loops

variable {σ α : Type} {turn : σ → Rule (Turn σ α)} {x : σ} {s : Reading}

/-- A loop has one result. -/
theorem unique {last other : α × Reading} (first : Loops turn x s last)
    (second : Loops turn x s other) : last = other := by
  induction first with
  | leave run _ =>
      cases second with
      | leave same _ =>
          rw [run] at same
          cases same
          rfl
      | again same _ _ =>
          rw [run] at same
          cases same
  | again run _ _ ih =>
      cases second with
      | leave same _ =>
          rw [run] at same
          cases same
      | again same _ later =>
          rw [run] at same
          cases same
          exact ih later

/-- What holds wherever a turn leaves holds at the end of the loop. -/
theorem ends {last : α × Reading} {post : α → Reading → Prop} (loops : Loops turn x s last)
    (leaves : ∀ x s, Ensures (turn x) s (Turn.Leaves post)) : post last.1 last.2 := by
  induction loops with
  | @leave x s t result run _ =>
      have ends := leaves x s
      unfold Ensures at ends
      rwa [run] at ends
  | again _ _ _ ih => exact ih

/-- A rule that takes one turn before it goes on. -/
theorem of_turn {rule : Rule α} {again : σ → Rule α} (unrolls : Unrolls rule (turn x) again s)
    (moves : Ensures (turn x) s (Turn.Moves s))
    (later : ∀ y u, Advances s u → Loops turn y u ((again y).run u)) :
    Loops turn x s (rule.run s) := by
  unfold Unrolls at unrolls
  rw [unrolls, StateT.run_bind]
  obtain ⟨step, u, run⟩ : ∃ step u, (turn x).run s = (step, u) := ⟨_, _, rfl⟩
  unfold Ensures at moves
  rw [run] at moves ⊢
  cases step with
  | again y => exact .again run moves (later y u moves)
  | leave result => exact .leave run moves

/-- A rule that takes one turn for each step of its bound, and does not run out of them. -/
theorem of_bound (rule : Nat → σ → Rule α) (enough : Nat → Reading → Prop)
    (never : ∀ s, ¬enough 0 s)
    (less : ∀ bound s u, enough (bound + 1) s → Advances s u → enough bound u)
    (moves : ∀ x s, Ensures (turn x) s (Turn.Moves s))
    (unrolls : ∀ bound x s, enough (bound + 1) s →
      Unrolls (rule (bound + 1) x) (turn x) (rule bound) s)
    (bound : Nat) (x : σ) (s : Reading) (covers : enough bound s) :
    Loops turn x s ((rule bound x).run s) := by
  induction bound generalizing x s with
  | zero => exact (never s covers).elim
  | succ bound ih =>
      exact of_turn (unrolls bound x s covers) (moves x s) fun y u advances =>
        ih y u (less bound s u covers advances)

/-- The bound of the rule is more than the number of tokens left. -/
theorem of_length (rule : Nat → σ → Rule α)
    (moves : ∀ x s, Ensures (turn x) s (Turn.Moves s))
    (unrolls : ∀ bound x s, Unrolls (rule (bound + 1) x) (turn x) (rule bound) s)
    {bound : Nat} (x : σ) {s : Reading} (enough : s.rest.length < bound) :
    Loops turn x s ((rule bound x).run s) := by
  refine of_bound rule (fun bound s => s.rest.length < bound) (fun s => Nat.not_lt_zero _) ?_
    moves (fun bound x s _ => unrolls bound x s) bound x s enough
  intro bound s u enough advances
  exact Nat.lt_of_lt_of_le advances.length_lt (Nat.le_of_lt_succ enough)

/-- The bound of the rule covers the tokens left. -/
theorem of_covers {weight : Nat} (rule : Nat → σ → Rule α)
    (moves : ∀ x s, Ensures (turn x) s (Turn.Moves s))
    (unrolls : ∀ bound x s, Covers (weight + 1) (bound + 1) s →
      Unrolls (rule (bound + 1) x) (turn x) (rule bound) s)
    {bound : Nat} (x : σ) {s : Reading} (covers : Covers (weight + 1) bound s) :
    Loops turn x s ((rule bound x).run s) := by
  refine of_bound rule (Covers (weight + 1)) ?_ ?_ moves unrolls bound x s covers
  · intro s covers
    cases covers
  · intro bound s u covers advances
    exact covers.pred.less advances.length_lt (by omega)

end Loops

/-! ## Sequences -/

/-- Parts with items in front that were read before. -/
def Parts.behind {α : Type} (read : List α) (later : Parts α) : Parts α :=
  ⟨read ++ later.items, later.complete⟩

/-- A sequence that is read behind some items. -/
def behind {α : Type} (read : List α) (rule : Rule (Parts α)) : Rule (Parts α) := do
  let later ← rule
  pure (later.behind read)

section Items

variable {α : Type} {item : Rule (Parts α)}

theorem behind_pure (read : List α) (later : Parts α) :
    behind read (pure later) = pure (later.behind read) := rfl

theorem unrolls_none (read : List α) (onward : List α → Rule (Parts α)) (s : Reading) :
    Unrolls (behind read (pure .none)) (pure (.leave ⟨read, true⟩)) onward s := by
  rw [behind_pure, Parts.behind, Parts.none, List.append_nil]
  exact .leave _

theorem behind_congr (read : List α) {rule same : Rule (Parts α)} {s : Reading}
    (runs : rule.run s = same.run s) : (behind read rule).run s = (behind read same).run s := by
  rw [behind, behind, StateT.run_bind, StateT.run_bind, runs]

theorem behind_andThen (read : List α) (first second : Rule (Parts α)) :
    behind read (andThen first second) = (do
      let next ← first
      if next.complete then behind (read ++ next.items) second else pure (next.behind read)) := by
  rw [behind, andThen, bind_assoc]
  refine congrArg _ (funext fun next => ?_)
  split
  · simp [behind, Parts.behind, Parts.append]
  · rfl

/-- One more item of a sequence with commas. The sequence goes on behind a comma. -/
def itemTurn (item : Rule (Parts α)) (read : List α) : Rule (Turn (List α) (Parts α)) := do
  let next ← item
  if next.complete then
    if ← accept .comma then pure (.again (read ++ next.items))
    else pure (.leave ⟨read ++ next.items, true⟩)
  else pure (.leave (next.behind read))

theorem itemTurn_moves (forward : Forward item) (read : List α) (s : Reading) :
    Ensures (itemTurn item read) s (Turn.Moves s) := by
  refine (forward s).bind ?_
  intro next u passed
  split
  · refine ensures_accept ?_ passed
    intro token rest front comma
    exact passed.advances (.advance front)
  · exact passed

theorem separatedFrom_unrolls (bound : Nat) (read : List α) (s : Reading) :
    Unrolls (behind read (separatedFrom item (bound + 1))) (itemTurn item read)
      (fun read => behind read (separatedFrom item bound)) s := by
  rw [separatedFrom, behind_andThen]
  refine .seq ?_
  intro next t
  split
  · rw [behind, bind_assoc]
    refine unrolls_accept ?_ ?_
    · intro comma rest _ _
      exact .again (fun read => behind read (separatedFrom item bound)) _
    · rw [if_neg Bool.false_ne_true, if_neg Bool.false_ne_true]
      exact unrolls_none (read ++ next.items) _ t
  · exact .leave _

/-- Items with commas between them are read in turns. -/
theorem separated_loops (forward : Forward item) (s : Reading) :
    Loops (itemTurn item) [] s ((separated item).run s) :=
  .of_length (fun bound read => behind read (separatedFrom item bound)) (itemTurn_moves forward)
    separatedFrom_unrolls [] (Nat.lt_succ_self _)

end Items

/-- A setting from its name on. -/
def setting (name : Token) : Rule (Parts Argument) := do
  skip 2
  let value ← expression
  let incomplete := isUnfinished value
  let extent ← extent name.span.start incomplete
  pure (.one (.clause ⟨extent, name.lower, value.toList⟩) incomplete)

/-- One more setting, if a name and an equals sign come next. -/
def settingTurn (read : List Argument) : Rule (Turn (List Argument) (Parts Argument)) := do
  match ← tokens with
  | name :: equals :: _ =>
      if name.kind.isWord && equals.kind == .assign then
        let next ← setting name
        if next.complete then pure (.again (read ++ next.items))
        else pure (.leave (next.behind read))
      else pure (.leave ⟨read, true⟩)
  | _ => pure (.leave ⟨read, true⟩)

theorem settingTurn_moves (read : List Argument) (s : Reading) :
    Ensures (settingTurn read) s (Turn.Moves s) := by
  unfold settingTurn
  rw [ensures_tokens]
  split
  · rename_i name equals rest front
    split
    · refine (setting_follows name s).bind ?_
      intro next t passed
      have enough : 1 + 1 ≤ s.rest.length := by simp [front]
      have advances := (Advances.skip enough).trans passed
      split
      · exact advances
      · exact advances.follows
    · exact .refl s
  · exact .refl s

theorem settingsFrom_unrolls (bound : Nat) (read : List Argument) (s : Reading) :
    Unrolls (behind read (settingsFrom (bound + 1))) (settingTurn read)
      (fun read => behind read (settingsFrom bound)) s := by
  rw [settingsFrom, settingTurn, behind, bind_assoc, unrolls_tokens]
  rcases s.rest with _ | ⟨name, _ | ⟨equals, rest⟩⟩
  · exact unrolls_none read _ s
  · exact unrolls_none read _ s
  · dsimp only
    split
    · change Unrolls (behind read (andThen (setting name) (settingsFrom bound))) _ _ s
      rw [behind_andThen]
      refine .seq ?_
      intro next t
      split
      · exact .again (fun read => behind read (settingsFrom bound)) _
      · exact .leave _
    · exact unrolls_none read _ s

/-- Settings are read in turns. -/
theorem settingsFrom_loops {bound : Nat} {s : Reading} (enough : s.rest.length < bound) :
    Loops settingTurn [] s ((settingsFrom bound).run s) :=
  .of_length (fun bound read => behind read (settingsFrom bound)) settingTurn_moves
    settingsFrom_unrolls [] enough

/-! ## Casts -/

/-- One more cast of a value. -/
def castTurn (value : Expr) : Rule (Turn Expr Expr) := do
  if value.incomplete then pure (.leave value)
  else if ← accept .doubleColon then
    let target? ← castType
    let extent ← extent value.span.start target?.isNone
    pure (.again (.cast value (target?.getD "") extent))
  else pure (.leave value)

theorem castTurn_moves (value : Expr) (s : Reading) :
    Ensures (castTurn value) s (Turn.Moves s) := by
  unfold castTurn
  split
  · exact .refl s
  · refine ensures_accept ?_ (.refl s)
    intro token rest front found
    refine (castType_outcome s.advance).bind ?_
    intro target t outcome
    exact (Advances.advance front).trans outcome.1.follows

theorem castsFrom_unrolls (bound : Nat) (value : Expr) (s : Reading) :
    Unrolls (castsFrom (bound + 1) value) (castTurn value) (castsFrom bound) s := by
  rw [castsFrom, castTurn]
  split
  · exact .leave value
  · refine unrolls_accept ?_ (.leave value)
    intro token rest _ _
    refine .seq fun target t => .seq fun extent u => ?_
    exact .again (castsFrom bound) _

/-- The casts of a value are read in turns. -/
theorem castsFrom_loops {bound : Nat} (value : Expr) {s : Reading}
    (enough : s.rest.length < bound) :
    Loops castTurn value s ((castsFrom bound value).run s) :=
  .of_length castsFrom castTurn_moves castsFrom_unrolls value enough

/-! ## Recovery -/

/-- How many parentheses are open behind a kind of token that recovery passes over. -/
def recoveryDepth? (nested : Bool) (depth : Nat) : TokenKind → Option Nat
  | .pipe => if depth == 0 then none else some depth
  | .closeParen => if depth == 0 && nested then none else some (depth - 1)
  | .openParen => some (depth + 1)
  | _ => some depth

/-- One more token that is passed over, up to a place where a command may end. -/
def recoveryTurn (nested : Bool) (depth : Nat) : Rule (Turn Nat Unit) := do
  match ← tokens with
  | [] => pure (.leave ())
  | token :: _ =>
      match recoveryDepth? nested depth token.kind with
      | none => pure (.leave ())
      | some depth =>
          advance
          pure (.again depth)

/-- Recovery with some parentheses open. -/
def recoverFrom (nested : Bool) (depth : Nat) : Rule Unit := do
  skip (recoveryLength nested depth (← tokens))

theorem recoveryLength_step (nested : Bool) (depth : Nat) (token : Token) (rest : List Token) :
    recoveryLength nested depth (token :: rest) =
      match recoveryDepth? nested depth token.kind with
      | none => 0
      | some depth => recoveryLength nested depth rest + 1 := by
  rw [recoveryLength]
  unfold recoveryDepth?
  cases token.kind with
  | pipe =>
      dsimp only
      cases depth == 0 with
      | true => rfl
      | false => exact Nat.add_comm _ _
  | closeParen =>
      dsimp only
      cases depth == 0 && nested with
      | true => rfl
      | false => exact Nat.add_comm _ _
  | _ => exact Nat.add_comm _ _

theorem recoveryTurn_moves (nested : Bool) (depth : Nat) (s : Reading) :
    Ensures (recoveryTurn nested depth) s (Turn.Moves s) := by
  unfold recoveryTurn
  rw [ensures_tokens]
  split
  · exact .refl s
  · rename_i token rest front
    split
    · exact .refl s
    · exact .advance front

theorem recoverFrom_unrolls (nested : Bool) (depth : Nat) (s : Reading) :
    Unrolls (recoverFrom nested depth) (recoveryTurn nested depth) (recoverFrom nested) s := by
  rw [recoverFrom, recoveryTurn, unrolls_tokens]
  cases front : s.rest with
  | nil => exact .leave ()
  | cons token rest =>
      rw [recoveryLength_step]
      dsimp only
      split
      · exact .leave ()
      · rename_i deeper _
        unfold Unrolls
        change ((), s.advance.skip _) = ((), s.advance.skip (recoveryLength nested deeper _))
        rw [Reading.advance_rest front]

/-- What is passed over is passed over token by token. -/
theorem recover_loops (nested : Bool) (s : Reading) :
    Loops (recoveryTurn nested) 0 s ((recover nested).run s) :=
  .of_length (fun _ => recoverFrom nested) (recoveryTurn_moves nested)
    (fun _ => recoverFrom_unrolls nested) 0 (Nat.lt_succ_self s.rest.length)

/-! ## Bounds -/

/-- A rule under the least bound that covers the tokens left. -/
def unbounded {α : Type} (weight : Nat) (rule : Nat → Rule α) : Rule α := do
  rule (8 * (← tokens).length + weight)

theorem unbounded_run {α : Type} (weight : Nat) (rule : Nat → Rule α) (s : Reading) :
    (unbounded weight rule).run s = (rule (8 * s.rest.length + weight)).run s := rfl

theorem Ensures.unbounded {α : Type} {weight : Nat} {rule : Nat → Rule α} {s : Reading}
    {post : α → Reading → Prop}
    (ensured : ∀ bound, Covers weight bound s → Ensures (rule bound) s post) :
    Ensures (unbounded weight rule) s post :=
  ensured _ (Nat.le_refl _)

/-- A rule does the same under every bound that covers the tokens left. -/
def Uncut {α : Type} (weight : Nat) (rule : Nat → Rule α) : Prop :=
  ∀ bound s, Covers weight bound s → (rule bound).run s = (unbounded weight rule).run s

/-- What a rule does on a larger text as on a stage, under any two bounds, it does alike under these
bounds: the stage can be all that is left. -/
theorem run_unbounded {α : Type} {weight bound : Nat} (rule : Nat → Rule α) {s : Reading}
    {f : Frame → α → α} (covers : Covers weight bound s)
    (mirrors : ∀ φ : Frame, φ.beyond = [] → ∀ n m t, t.rest = s.rest → Covers weight n t →
      Covers weight m t → Mirrors φ (f φ) (rule m) (rule n) t) :
    (rule bound).run s = (unbounded weight rule).run s := by
  have closed : ∀ token ∈ ([] : List Token).head?, token.kind = .pipe := by
    rintro _ ⟨⟩
  let φ := Frame.inPlace s [] closed
  let small : Reading := ⟨s.source, s.rest, s.lastStop, []⟩
  have embedded : φ.embed small = s :=
    Frame.embed_inPlace closed (List.append_nil s.rest).symm s.source
  have least : Covers weight (8 * s.rest.length + weight) small := Nat.le_refl _
  have first := mirrors φ rfl _ bound small rfl least covers
  have second := mirrors φ rfl _ _ small rfl least least
  unfold Mirrors at first second
  rw [embedded] at first second
  exact first.trans second.symm

theorem Uncut.of_mirrors {α : Type} {weight : Nat} {rule : Nat → Rule α} {f : Frame → α → α}
    (mirrors : ∀ φ n m s, Covers weight n s → Covers weight m s →
      Mirrors φ (f φ) (rule m) (rule n) s) : Uncut weight rule :=
  fun _ _ covers => run_unbounded rule covers fun φ _ n m t _ => mirrors φ n m t

theorem binary_uncut (power : Nat) : Uncut 3 (binary · power) :=
  .of_mirrors fun φ n m s small large => (expressionMirrors φ n).binary m power s small large

theorem unary_uncut : Uncut 2 unary :=
  .of_mirrors fun φ n m s small large => (expressionMirrors φ n).unary m s small large

theorem memberList_uncut : Uncut 1 memberList :=
  .of_mirrors fun φ n m s small large => (expressionMirrors φ n).memberList m s small large

theorem primary_uncut : Uncut 1 primary :=
  .of_mirrors fun φ n m s small large => (expressionMirrors φ n).primary m s small large

/-- A rule that is read in turns does the same under every bound that does for the turns. -/
theorem Uncut.of_loops {σ α : Type} {turn : σ → Rule (Turn σ α)} {x : σ} {weight : Nat}
    {rule : Nat → Rule α}
    (loops : ∀ bound s, Covers weight bound s → Loops turn x s ((rule bound).run s)) :
    Uncut weight rule :=
  fun bound s covers => (loops bound s covers).unique (loops _ s (Nat.le_refl _))

theorem Uncut.alike {α : Type} {weight n m : Nat} {rule : Nat → Rule α} {s : Reading}
    (uncut : Uncut weight rule) (first : Covers weight n s) (second : Covers weight m s) :
    (rule n).run s = (rule m).run s :=
  (uncut n s first).trans (uncut m s second).symm

/-- A rule that makes one call before it depends on its bound. -/
theorem Uncut.of_succ {α : Type} {weight : Nat} {rule : Nat → Rule α}
    (alike : ∀ n m s, Covers weight n s → Covers weight m s →
      (rule (n + 1)).run s = (rule (m + 1)).run s) : Uncut (weight + 1) rule := by
  intro bound s covers
  have enough : Covers (weight + 1) (8 * s.rest.length + (weight + 1)) s := Nat.le_refl _
  obtain ⟨bound, rfl⟩ := covers.exists_succ
  exact alike bound _ s covers.pred enough.pred

theorem Uncut.mono {α : Type} {weight more : Nat} {rule : Nat → Rule α} (uncut : Uncut weight rule)
    (bounded : weight ≤ more) : Uncut more rule := by
  intro bound s covers
  rw [unbounded_run more, uncut _ s (Nat.add_le_add_left bounded _)]
  exact uncut bound s (covers.mono (Nat.le_refl _) bounded)

/-- What comes behind a rule may do without a bound. -/
theorem Uncut.bind {α β : Type} {weight : Nat} {rule : Nat → Rule α} (uncut : Uncut weight rule)
    (next : α → Rule β) : Uncut weight fun bound => rule bound >>= next := by
  intro bound s covers
  rw [unbounded_run, StateT.run_bind, StateT.run_bind, uncut bound s covers, unbounded_run]

/-! ## Operators -/

theorem applyOperator_uncut (operator : Operator) (left : Expr) :
    Uncut 3 (applyOperator · operator left) := by
  unfold applyOperator
  cases operator.shape with
  | binary => exact (binary_uncut _).bind _
  | membership => exact (memberList_uncut.bind _).mono (by decide)
  | nullTest => exact fun _ _ _ => rfl

theorem applyOperator_forward (bound : Nat) (operator : Operator) (left : Expr) :
    Forward (applyOperator bound operator left) := by
  intro s
  unfold applyOperator
  split
  · refine ((expressionOutcomes bound).binary _ s).bind ?_
    intro right t read
    exact read.passage.follows
  · refine ((expressionOutcomes bound).memberList s).bind ?_
    intro right t read
    exact read.passage.follows
  · exact nullTest_follows left s

/-- One more operator that binds tightly enough. -/
def operatorTurn (power : Nat) (left : Expr) : Rule (Turn Expr Expr) := do
  match operator? (← tokens) with
  | none => pure (.leave left)
  | some operator =>
      if left.incomplete || operator.power < power then pure (.leave left)
      else
        skip operator.width
        let applied ← unbounded 3 (applyOperator · operator left)
        pure (.again applied)

theorem Advances.operator {s : Reading} {operator : Operator}
    (found : operator? s.rest = some operator) : Advances s (s.skip operator.width) := by
  obtain ⟨enough, width⟩ := operator?_width found
  obtain ⟨count, same⟩ : ∃ count, operator.width = count + 1 := ⟨operator.width - 1, by omega⟩
  rw [same] at enough ⊢
  exact .skip enough

theorem operatorTurn_moves (power : Nat) (left : Expr) (s : Reading) :
    Ensures (operatorTurn power left) s (Turn.Moves s) := by
  unfold operatorTurn
  rw [ensures_tokens]
  split
  · exact .refl s
  rename_i operator found
  split
  · exact .refl s
  rw [ensures_skip]
  refine Ensures.bind (.unbounded fun bound _ => applyOperator_forward bound operator left _) ?_
  intro applied t passed
  exact (Advances.operator found).trans passed

theorem operatorsFrom_unrolls (power bound : Nat) (left : Expr) (s : Reading)
    (covers : Covers 1 (bound + 1) s) :
    Unrolls (operatorsFrom (bound + 1) power left) (operatorTurn power left)
      (operatorsFrom bound power) s := by
  rw [operatorsFrom, operatorTurn, unrolls_tokens]
  cases found : operator? s.rest with
  | none => exact .leave left
  | some operator =>
      have less := (Advances.operator found).length_lt
      have enough : Covers 3 bound (s.skip operator.width) := covers.pred.less less (by decide)
      have later : Unrolls (applyOperator bound operator left >>= operatorsFrom bound power)
          (unbounded 3 (applyOperator · operator left) >>= fun applied => pure (.again applied))
          (operatorsFrom bound power) (s.skip operator.width) :=
        .step (applyOperator_uncut operator left bound _ enough)
          fun applied t => .again (operatorsFrom bound power) applied
      dsimp only
      split
      · exact .leave left
      rw [unrolls_skip]
      revert later
      unfold applyOperator
      cases operator.shape <;> exact id

/-- The operators behind an operand are read in turns. -/
theorem operatorsFrom_loops {bound : Nat} (power : Nat) (left : Expr) {s : Reading}
    (covers : Covers 1 bound s) :
    Loops (operatorTurn power) left s ((operatorsFrom bound power left).run s) :=
  .of_covers (fun bound => operatorsFrom bound power) (operatorTurn_moves power)
    (operatorsFrom_unrolls power) left covers

/-! ## Listings -/

/-- An item of a listing: a lone star for all rows if `starred` says so, or an expression. -/
def listed (starred : Bool) : Rule (Option Expr) := do
  if starred && isWholeRow (← tokens) then do pure (some (← wholeRow))
  else unbounded 3 (binary · Power.or)

/-- What becomes of a listing that closes with a kind of token, behind one of its items. -/
def listingBehind (close : TokenKind) (read : List Expr) :
    Option Expr → Rule (Turn (List Expr) (Parts Expr))
  | none => pure (.leave ⟨read, false⟩)
  | some item => do
      let read := read ++ [item]
      if item.incomplete then pure (.leave ⟨read, false⟩)
      else if ← accept .comma then pure (.again read)
      else if ← accept close then pure (.leave ⟨read, true⟩)
      else
        expected (afterItem close)
        pure (.leave ⟨read, false⟩)

/-- One more item of a listing. It goes on behind a comma. -/
def listingTurn (close : TokenKind) (starred : Bool) (read : List Expr) :
    Rule (Turn (List Expr) (Parts Expr)) := do
  listingBehind close read (← listed starred)

theorem listed_forward (starred : Bool) : Forward (listed starred) := by
  refine .tokens fun rest => ?_
  split
  · refine Forward.bind ?_ fun row => .pure (some row)
    exact .get fun s => Forward.advance.bind fun _ => .get fun t => .pure _
  · intro s
    exact .unbounded fun bound _ =>
      ((expressionOutcomes bound).binary Power.or s).mono fun _ _ read => read.passage.follows

theorem listingTurn_moves (close : TokenKind) (starred : Bool) (read : List Expr) (s : Reading) :
    Ensures (listingTurn close starred read) s (Turn.Moves s) := by
  refine (listed_forward starred s).bind ?_
  intro item t passed
  cases item with
  | none => exact passed
  | some item =>
      rw [listingBehind]
      split
      · exact passed
      refine ensures_accept ?_ (ensures_accept ?_ ?_)
      · intro comma rest front _
        exact passed.advances (.advance front)
      · intro token rest front _
        exact (passed.advances (.advance front)).follows
      · exact passed.trans ⟨_, .record t _⟩

/-- What is read of a listing behind one of its items. -/
def itemsBehind (bound : Nat) (close : TokenKind) (starred : Bool) :
    Option Expr → Rule (Parts Expr)
  | none => pure .halted
  | some item => do
      if item.incomplete then pure (.one item true)
      else if ← accept .comma then
        pure ((Parts.one item false).append (← itemsFrom bound close starred))
      else if ← accept close then pure (.one item false)
      else
        expected (afterItem close)
        pure (.one item true)

theorem itemsBehind_unrolls (bound : Nat) (close : TokenKind) (starred : Bool) (read : List Expr)
    (item : Option Expr) (s : Reading) :
    Unrolls (behind read (itemsBehind bound close starred item)) (listingBehind close read item)
      (fun read => behind read (itemsFrom bound close starred)) s := by
  cases item with
  | none =>
      rw [itemsBehind, behind_pure, Parts.behind, Parts.halted, List.append_nil]
      exact .leave _
  | some item =>
      rw [itemsBehind, listingBehind]
      split
      · exact .leave _
      rw [behind, bind_assoc]
      refine unrolls_accept ?_ ?_
      · intro comma rest _ _
        have more (later : Parts Expr) : ((Parts.one item false).append later).behind read =
            later.behind (read ++ [item]) := by
          simp [Parts.behind, Parts.append, Parts.one]
        simp only [if_true, bind_assoc, pure_bind, more]
        exact .again (fun read => behind read (itemsFrom bound close starred)) (read ++ [item])
      rw [if_neg Bool.false_ne_true, bind_assoc]
      refine unrolls_accept ?_ ?_
      · intro token rest _ _
        exact .leave _
      · exact .leave _

theorem itemsFrom_unrolls (close : TokenKind) (starred : Bool) (bound : Nat) (read : List Expr)
    (s : Reading) (covers : Covers 4 (bound + 1) s) :
    Unrolls (behind read (itemsFrom (bound + 1) close starred)) (listingTurn close starred read)
      (fun read => behind read (itemsFrom bound close starred)) s := by
  rw [itemsFrom, listingTurn, behind, bind_assoc, listed, bind_assoc, unrolls_tokens]
  split
  · change Unrolls (wholeRow >>= fun row => behind read (itemsBehind bound close starred (some row)))
      (wholeRow >>= fun row => listingBehind close read (some row)) _ s
    exact .seq fun row t => itemsBehind_unrolls bound close starred read (some row) t
  · change Unrolls (binary bound Power.or >>= fun item =>
      behind read (itemsBehind bound close starred item)) _ _ s
    exact .step (binary_uncut Power.or bound s covers.pred)
      fun item t => itemsBehind_unrolls bound close starred read item t

/-- The items of a listing are read in turns. -/
theorem itemsFrom_loops {bound : Nat} (close : TokenKind) (starred : Bool) {s : Reading}
    (covers : Covers 4 bound s) :
    Loops (listingTurn close starred) [] s ((itemsFrom bound close starred).run s) :=
  .of_covers (fun bound read => behind read (itemsFrom bound close starred))
    (listingTurn_moves close starred) (itemsFrom_unrolls close starred) [] covers

theorem run_listing (bound : Nat) (close : TokenKind) (starred : Bool) (s : Reading) :
    (listing (bound + 1) close starred).run s =
      if s.isAt close then (.none, s.advance) else (itemsFrom bound close starred).run s := by
  rw [listing, StateT.run_bind, run_accept]
  split
  · rfl
  · rfl

theorem listing_uncut (close : TokenKind) (starred : Bool) : Uncut 5 (listing · close starred) := by
  have items : Uncut 4 (itemsFrom · close starred) :=
    .of_loops fun _ _ covers => itemsFrom_loops close starred covers
  refine .of_succ fun n m s first second => ?_
  rw [run_listing, run_listing, items.alike first second]

end Esql.Grammar
