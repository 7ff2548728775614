import Esql.Proofs.Grammar.Stages

/-!
# Recovery within a stage

Recovery counts the parentheses that it passes over, from wherever in a stage it starts. In a stage
that closes what it opens the count is back at zero at the end of the stage, so no error in the
stage touches what comes behind it. Inside a branch recovery stops earlier, where the branch closes.
-/

namespace Esql.Grammar

/-- No parenthesis that some tokens open stays open. -/
def ClosesAll (tokens : List Token) : Prop :=
  ∀ left right, tokens = left ++ right → 0 ≤ excess right

theorem ClosesAll.back {front back : List Token} (closes : ClosesAll (front ++ back)) :
    ClosesAll back := by
  rintro left right rfl
  exact closes (front ++ left) right (List.append_assoc _ _ _).symm

theorem closing_eq_zero {kind : TokenKind} (noOpen : kind ≠ .openParen)
    (noClose : kind ≠ .closeParen) : closing kind = 0 := by
  unfold closing
  split
  · contradiction
  · contradiction
  · rfl

section

variable {front back : List Token}

/-- At the end of a stage recovery has counted back to zero, wherever it began. -/
theorem recoveryLength_stage (depth : Nat) (noPipe : ∀ token ∈ front, token.kind ≠ .pipe)
    (closes : ClosesAll front) (closed : ∀ token ∈ back.head?, token.kind = .pipe)
    (counted : depth ≤ excess front) :
    recoveryLength false depth (front ++ back) = front.length := by
  induction front generalizing depth with
  | nil =>
      have zero : depth = 0 := by simpa using counted
      cases back with
      | nil => rfl
      | cons pipe back =>
          rw [List.nil_append, recoveryLength, closed pipe rfl, zero]
          rfl
  | cons token front ih =>
      have tail : ClosesAll front := by
        rw [← List.singleton_append] at closes
        exact closes.back
      have later (depth : Nat) (counted : depth ≤ excess front) :
          1 + recoveryLength false depth (front ++ back) = (token :: front).length := by
        rw [ih depth (fun other member => noPipe other (List.mem_cons_of_mem _ member)) tail
            counted,
          List.length_cons, Nat.add_comm]
      have rest : 0 ≤ excess front := closes [token] front rfl
      rw [excess_cons] at counted
      rw [List.cons_append, recoveryLength]
      split
      · rename_i kind
        exact absurd kind (noPipe token List.mem_cons_self)
      · rename_i kind
        rw [Bool.and_false, if_neg Bool.false_ne_true]
        rw [kind] at counted
        change (depth : Int) ≤ 1 + excess front at counted
        exact later _ (by omega)
      · rename_i kind
        rw [kind] at counted
        change (depth : Int) ≤ -1 + excess front at counted
        exact later _ (by omega)
      · rename_i noClose noOpen
        rw [closing_eq_zero noOpen noClose] at counted
        exact later _ (by omega)

/-- Inside a branch recovery stops before it has closed more than it passed over. -/
theorem recoveryLength_branch (back : List Token) (depth : Nat)
    (noPipe : ∀ token ∈ front, token.kind ≠ .pipe) (counted : depth + 1 ≤ excess front) :
    ∃ passed left, front = passed ++ left ∧
      recoveryLength true depth (front ++ back) = passed.length ∧ excess passed ≤ depth := by
  induction front generalizing depth with
  | nil =>
      rw [excess_nil] at counted
      omega
  | cons token front ih =>
      have later (next : Nat) (counted : next + 1 ≤ excess front)
          (balance : closing token.kind + next ≤ depth) :
          ∃ passed left, token :: front = passed ++ left ∧
            1 + recoveryLength true next (front ++ back) = passed.length ∧
            excess passed ≤ depth := by
        obtain ⟨passed, left, rfl, length, most⟩ :=
          ih next (fun other member => noPipe other (List.mem_cons_of_mem _ member)) counted
        refine ⟨token :: passed, left, rfl, ?_, ?_⟩
        · rw [length, List.length_cons, Nat.add_comm]
        · rw [excess_cons]
          omega
      rw [excess_cons] at counted
      rw [List.cons_append, recoveryLength]
      split
      · rename_i kind
        exact absurd kind (noPipe token List.mem_cons_self)
      · rename_i kind
        rw [Bool.and_true]
        rw [kind] at counted later
        change (depth : Int) + 1 ≤ 1 + excess front at counted
        split
        · refine ⟨[], token :: front, rfl, rfl, ?_⟩
          rw [excess_nil]
          omega
        · rename_i more
          rw [beq_iff_eq] at more
          exact later _ (by omega) (by
            change 1 + ((depth - 1 : Nat) : Int) ≤ depth
            omega)
      · rename_i kind
        rw [kind] at counted later
        change (depth : Int) + 1 ≤ -1 + excess front at counted
        exact later _ (by omega) (by
          change -1 + ((depth + 1 : Nat) : Int) ≤ depth
          omega)
      · rename_i noClose noOpen
        rw [closing_eq_zero noOpen noClose] at counted later
        exact later _ (by omega) (by omega)

end

/-- What is left of a stage closes at least `surplus` parentheses more than it opens, and all that
it opens. -/
def Within (back : List Token) (surplus : Int) (s : Reading) : Prop :=
  ∃ front, s.rest = front ++ back ∧ (∀ token ∈ front, token.kind ≠ .pipe) ∧ ClosesAll front ∧
    surplus ≤ excess front

namespace Within

variable {back : List Token} {surplus debt : Int} {s t : Reading}

/-- Reading without a pipe stays within the stage. -/
theorem passage (within : Within back surplus s) (closed : ∀ token ∈ back.head?, token.kind = .pipe)
    (passage : Passage debt s t) : Within back (surplus - debt) t := by
  obtain ⟨front, rest, noPipe, closes, counted⟩ := within
  obtain ⟨read, leads, plain, paid⟩ := passage
  obtain ⟨left, same, behind⟩ : ∃ left, front = read ++ left ∧ t.rest = left ++ back := by
    have whole := leads.rest
    rw [rest] at whole
    rcases List.append_eq_append_iff.mp whole with ⟨more, longer, tail⟩ | ⟨left, same, behind⟩
    · cases more with
      | nil =>
          exact ⟨[], by rw [longer, List.append_nil, List.append_nil], by simpa using tail.symm⟩
      | cons pipe more =>
          have found := closed pipe (by rw [tail]; rfl)
          exact absurd found (plain pipe (by rw [longer]; simp))
    · exact ⟨left, same, behind⟩
  subst same
  refine ⟨left, behind, ?_, closes.back, ?_⟩
  · exact fun token member => noPipe token (List.mem_append_right _ member)
  · rw [excess_append] at counted
    omega

theorem weaken {less : Int} (within : Within back surplus s) (bound : less ≤ surplus) :
    Within back less s := by
  obtain ⟨front, rest, noPipe, closes, counted⟩ := within
  exact ⟨front, rest, noPipe, closes, Int.le_trans bound counted⟩

theorem record (within : Within back surplus s) (error : SyntaxError) :
    Within back surplus (s.record error) := within

/-- In a stage that closes something a token is left that is no pipe. -/
theorem exists_cons (within : Within back surplus s) (more : 1 ≤ surplus) :
    ∃ token rest, s.rest = token :: rest ∧ token.kind ≠ .pipe := by
  obtain ⟨front, rest, noPipe, closes, counted⟩ := within
  cases front with
  | nil =>
      rw [excess_nil] at counted
      omega
  | cons token front => exact ⟨token, front ++ back, rest, noPipe token List.mem_cons_self⟩

/-- Recovery at the top passes over the rest of the stage. -/
theorem recover_stage (within : Within back surplus s) (more : 0 ≤ surplus)
    (closed : ∀ token ∈ back.head?, token.kind = .pipe) :
    Ensures (recover false) s fun _ t => t.rest = back := by
  obtain ⟨front, rest, noPipe, closes, counted⟩ := within
  have length := recoveryLength_stage 0 noPipe closes closed (by omega)
  change (s.skip (recoveryLength false 0 s.rest)).rest = back
  rw [Reading.rest_skip, rest, length, List.drop_left]

/-- Recovery in a branch passes over no more than is opened there. -/
theorem recover_branch (within : Within back surplus s) (more : 1 ≤ surplus)
    (closed : ∀ token ∈ back.head?, token.kind = .pipe) :
    Ensures (recover true) s fun _ t => Within back surplus t := by
  have whole := within
  obtain ⟨front, rest, noPipe, closes, counted⟩ := within
  obtain ⟨passed, left, rfl, length, most⟩ :=
    recoveryLength_branch back 0 noPipe (by omega)
  change Within back surplus (s.skip (recoveryLength true 0 s.rest))
  have leads := leads_skip s (recoveryLength true 0 s.rest)
  rw [rest, length, List.append_assoc, List.take_left] at leads
  rw [rest, length]
  have step : Passage 0 s (s.skip passed.length) :=
    ⟨passed, leads, fun token member => noPipe token (List.mem_append_left _ member), most⟩
  exact (whole.passage closed step).weaken (by omega)

end Within

section

variable {back : List Token} {surplus : Int} {nested : Bool} {s : Reading} {post : Reading → Prop}
  (recovers : ∀ u, Within back surplus u → Ensures (recover nested) u fun _ t => post t)

include recovers

theorem finish_within (name : CommandName) (stop : Nat) (read : Parts Argument)
    (within : Within back surplus s) :
    Ensures (do
      recover nested
      finishCommand name stop read) s fun _ t => post t :=
  (recovers s within).bind fun _ _ passed => passed

theorem commandBody_within (name : CommandName) {args : Rule (Parts Argument)}
    (read : Ensures args s fun _ t => Within back surplus t) :
    Ensures (commandBody name args nested) s fun _ t => post t := by
  unfold commandBody
  refine read.bind ?_
  intro read u within
  rw [ensures_get]
  split
  · refine (checkBoundary_outcome name.display nested u).bind ?_
    rintro _ v ⟨rfl | ⟨error, rfl⟩, _⟩
    · exact finish_within recovers name _ read within
    · exact finish_within recovers name _ read (within.record error)
  · exact finish_within recovers name _ read within

/-- A command ends where the recovery behind it ends, if the branches of a fork stay within the
stage. -/
theorem commandAt_within (closed : ∀ token ∈ back.head?, token.kind = .pipe) {bound : Nat}
    (branches : ∀ u, Within back surplus u →
      Ensures (branches bound) u fun _ t => Within back surplus t)
    (first : Bool) {token : Token} {rest : List Token} (front : s.rest = token :: rest)
    (within : Within back surplus s) :
    Ensures (commandAt bound first nested token) s fun _ t => post t := by
  have plain {t : Reading} {debt : Int} (passage : Passage debt s t) (paid : debt ≤ 0) :
      Within back surplus t := (within.passage closed passage).weaken (by omega)
  unfold commandAt
  split
  · rename_i starts
    refine (commandName_outcome front starts).bind ?_
    intro name u named
    have inside := plain named.passage (Int.le_refl 0)
    unfold namedCommand
    split
    · have unknown : Ensures (unknownCommand name nested) u fun _ t => post t := by
        unfold unknownCommand
        rw [ensures_record]
        exact finish_within recovers name _ .halted (inside.record _)
      refine unknown.bind ?_
      intro command t passed
      exact passed
    · rename_i verb _
      have args (v : Reading) (inside : Within back surplus v) :
          Ensures (arguments (Grammar.branches bound) nested verb) v fun _ t =>
            Within back surplus t := by
        refine arguments_outcome nested verb (fun _ => branches v inside) ?_
        intro read t outcome
        exact (inside.passage closed outcome.passage).weaken (by omega)
      have known : Ensures (knownCommand name verb (arguments (Grammar.branches bound) nested verb)
          first nested) u fun _ t => post t := by
        rw [knownCommand_eq]
        split
        · rw [ensures_record]
          exact commandBody_within recovers name (args _ (inside.record _))
        · exact commandBody_within recovers name (args u inside)
      refine known.bind ?_
      intro command t passed
      exact passed
  · rw [ensures_expected]
    refine (recovers _ (within.record _)).bind ?_
    intro _ t passed
    exact passed

end

/-- What is read in the branches of a fork lies within the stage of the fork. -/
structure BranchesWithin (back : List Token) (bound : Nat) : Prop where
  pipeline : ∀ surplus s, 1 ≤ surplus → Within back surplus s →
    Ensures (pipeline bound true) s fun _ t => Within back surplus t
  stagesFrom : ∀ surplus stages s, 1 ≤ surplus → Within back surplus s →
    Ensures (stagesFrom bound true stages) s fun _ t => Within back surplus t
  command? : ∀ surplus first s, 1 ≤ surplus → Within back surplus s →
    Ensures (command? bound first true) s fun _ t => Within back surplus t
  branches : ∀ surplus s, 0 ≤ surplus → Within back surplus s →
    Ensures (branches bound) s fun _ t => Within back surplus t
  branchFrom : ∀ surplus opening s, 0 ≤ surplus → Within back (surplus + 1) s →
    Ensures (branchFrom bound opening) s fun _ t => Within back surplus t

theorem halt_within {back : List Token} {surplus : Int} {s : Reading} (what : Expectation)
    (within : Within back surplus s) :
    Ensures (halt what : Rule (Parts Argument)) s fun _ t => Within back surplus t :=
  within.record _

theorem closeBranch_within {back : List Token} {surplus : Int} {s : Reading}
    (closed : ∀ token ∈ back.head?, token.kind = .pipe) (start : Nat) (branch : Pipeline)
    (within : Within back (surplus + 1) s) :
    Ensures (closeBranch start branch) s fun _ t => Within back surplus t := by
  unfold closeBranch
  refine ensures_accept ?_ ?_
  · intro token rest front found
    have passed := within.passage closed (.advance front found TokenKind.noConfusion)
    rw [ensures_get, Bool.not_true, Bool.false_and, Bool.false_and, if_neg Bool.false_ne_true]
    exact passed.weaken (by
      change surplus ≤ surplus + 1 - 1
      omega)
  · have less : Within back surplus s := within.weaken (by omega)
    rw [ensures_get]
    split
    · exact less.record _
    · exact less

namespace BranchesWithin

variable {back : List Token}

theorem zero (back : List Token) : BranchesWithin back 0 := by
  constructor
  · intro surplus s more within
    exact within.record _
  · intro surplus stages s more within
    exact within.record _
  · intro surplus first s more within
    exact within.record _
  · intro surplus s more within
    exact within.record _
  · intro surplus opening s more within
    exact (within.weaken (by omega)).record _

variable {bound : Nat} (inner : BranchesWithin back bound)

include inner

/-- A branch has no pipe in a stage, so it has one command at most. -/
theorem stagesFrom_succ (surplus : Int) (stages : Stages) (s : Reading) (more : 1 ≤ surplus)
    (within : Within back surplus s) :
    Ensures (Grammar.stagesFrom (bound + 1) true stages) s fun _ t => Within back surplus t := by
  have noPipe {t : Reading} {pipe : Token} {rest : List Token} (inside : Within back surplus t)
      (front : t.rest = pipe :: rest) : pipe.kind ≠ .pipe := by
    obtain ⟨token, others, first, other⟩ := inside.exists_cons more
    rw [first] at front
    exact (List.cons.inj front).1 ▸ other
  unfold Grammar.stagesFrom
  rw [ensures_get]
  split
  · split
    · exact within.record _
    · exact within
  refine ensures_accept? ?_ ?_
  · intro pipe rest front found
    exact absurd found (noPipe within front)
  · refine (inner.command? surplus _ s more within).bind ?_
    intro x t inside
    refine ensures_accept ?_ inside
    intro pipe rest front found
    exact absurd found (noPipe inside front)

theorem pipeline_succ (surplus : Int) (s : Reading) (more : 1 ≤ surplus)
    (within : Within back surplus s) :
    Ensures (Grammar.pipeline (bound + 1) true) s fun _ t => Within back surplus t := by
  unfold Grammar.pipeline
  rw [ensures_get]
  refine (inner.stagesFrom surplus _ s more within).bind ?_
  intro stages t passed
  exact passed

variable (closed : ∀ token ∈ back.head?, token.kind = .pipe)

include closed

theorem command?_succ (surplus : Int) (first : Bool) (s : Reading) (more : 1 ≤ surplus)
    (within : Within back surplus s) :
    Ensures (Grammar.command? (bound + 1) first true) s fun _ t => Within back surplus t := by
  obtain ⟨token, rest, front, _⟩ := within.exists_cons more
  have recovers (u : Reading) (inside : Within back surplus u) :
      Ensures (recover true) u fun _ t => Within back surplus t :=
    inside.recover_branch more closed
  have read := commandAt_within recovers closed
    (fun u inside => inner.branches surplus u (by omega) inside) first front within
  unfold Ensures at read ⊢
  rwa [run_command? bound first true front]

theorem branches_succ (surplus : Int) (s : Reading) (more : 0 ≤ surplus)
    (within : Within back surplus s) :
    Ensures (Grammar.branches (bound + 1)) s fun _ t => Within back surplus t := by
  unfold Grammar.branches
  refine ensures_accept? ?_ (halt_within .branch within)
  intro opening rest front found
  have opened : Within back (surplus + 1) s.advance :=
    (within.passage closed (.advance front found TokenKind.noConfusion)).weaken (Int.le_refl _)
  unfold andThen
  refine (inner.branchFrom surplus opening s.advance more opened).bind ?_
  intro read u inside
  split
  · have others : Ensures (do
        if (← get).isAt .openParen then Grammar.branches bound else pure .none) u
        fun _ t => Within back surplus t := by
      rw [ensures_get]
      split
      · exact inner.branches surplus u more inside
      · exact inside
    refine others.bind ?_
    intro others t passed
    exact passed
  · exact inside

theorem branchFrom_succ (surplus : Int) (opening : Token) (s : Reading) (more : 0 ≤ surplus)
    (within : Within back (surplus + 1) s) :
    Ensures (Grammar.branchFrom (bound + 1) opening) s fun _ t => Within back surplus t := by
  unfold Grammar.branchFrom
  refine (inner.pipeline (surplus + 1) s (by omega) within).bind ?_
  intro read u inside
  refine (closeBranch_within closed opening.span.start read inside).bind ?_
  intro branch t passed
  exact passed

end BranchesWithin

theorem branchesWithin {back : List Token} (closed : ∀ token ∈ back.head?, token.kind = .pipe)
    (bound : Nat) : BranchesWithin back bound := by
  induction bound with
  | zero => exact .zero back
  | succ bound inner =>
      exact {
        pipeline := inner.pipeline_succ
        stagesFrom := inner.stagesFrom_succ
        command? := inner.command?_succ closed
        branches := inner.branches_succ closed
        branchFrom := inner.branchFrom_succ closed }

/-- Whatever is wrong in a stage that closes what it opens, reading goes on at its end. -/
theorem command?_within {back : List Token} (closed : ∀ token ∈ back.head?, token.kind = .pipe)
    (bound : Nat) (first : Bool) {s : Reading} {token : Token} {rest : List Token}
    (front : s.rest = token :: rest) (within : Within back 0 s) :
    Ensures (command? (bound + 1) first false) s fun _ t => t.rest = back := by
  have recovers (u : Reading) (inside : Within back 0 u) :
      Ensures (recover false) u fun _ t => t.rest = back :=
    inside.recover_stage (Int.le_refl 0) closed
  have read := commandAt_within recovers closed
    (fun u inside => (branchesWithin closed bound).branches 0 u (Int.le_refl 0) inside) first front
    within
  unfold Ensures at read ⊢
  rwa [run_command? bound first false front]

end Esql.Grammar
