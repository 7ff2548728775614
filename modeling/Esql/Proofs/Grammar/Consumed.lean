import Esql.Proofs.Frame.Pipeline
import Esql.Proofs.Grammar.Stages
import Esql.Proofs.Grammar.Turns

/-!
# Reading to the end

Reading a query ends, and it ends behind the last token, whatever the tokens are. A command that
cannot be read is passed over up to a place where a command may end, so each turn of a pipeline
reads something, and a pipeline outside of branches leaves nothing.
-/

namespace Esql.Grammar

/-! ## Commands -/

/-- Between a place where no command may end and one where a command may, something is read. -/
theorem Follows.advances_of_boundary {s t : Reading} {nested : Bool} (follows : Follows s t)
    (inside : s.isAtBoundary nested = false) (boundary : t.isAtBoundary nested = true) :
    Advances s t := by
  obtain ⟨read, leads⟩ := follows
  cases read with
  | cons token read => exact ⟨token, read, leads⟩
  | nil =>
      have same : s.rest = t.rest := leads.rest
      unfold Reading.isAtBoundary Reading.isAtEnd Reading.isAt at inside boundary
      rw [same, boundary] at inside
      cases inside

/-- Recovery stops where a command may end. -/
theorem isAtBoundary_of_recoveryDepth? {s : Reading} {nested : Bool} {depth : Nat} {token : Token}
    {rest : List Token} (front : s.rest = token :: rest)
    (stops : recoveryDepth? nested depth token.kind = none) : s.isAtBoundary nested = true := by
  unfold Reading.isAtBoundary Reading.isAtEnd Reading.isAt
  rw [front]
  unfold recoveryDepth? at stops
  split at stops
  · rename_i pipe
    simp [pipe]
  · rename_i close
    split at stops
    · rename_i closes
      simp [close, (Bool.and_eq_true_iff.mp closes).2]
    · cases stops
  · cases stops
  · cases stops

theorem recover_boundary (nested : Bool) (s : Reading) :
    Ensures (recover nested) s fun _ t => t.isAtBoundary nested = true := by
  have leaves (depth : Nat) (s : Reading) : Ensures (recoveryTurn nested depth) s
      (Turn.Leaves fun _ t => t.isAtBoundary nested = true) := by
    unfold recoveryTurn
    rw [ensures_tokens]
    split
    · rename_i ended
      change s.isAtBoundary nested = true
      simp [Reading.isAtBoundary, Reading.isAtEnd, ended]
    · rename_i token rest front
      split
      · rename_i stops
        exact isAtBoundary_of_recoveryDepth? front stops
      · exact trivial
  have ends := (recover_loops nested s).ends leaves
  exact ends

/-- A command ends where a command may end. -/
theorem commandBody_boundary (name : CommandName) (args : Rule (Parts Argument)) (nested : Bool)
    (s : Reading) :
    Ensures (commandBody name args nested) s fun _ t => t.isAtBoundary nested = true := by
  have read : Ensures args s fun _ _ => True := trivial
  refine read.bind ?_
  intro read t _
  rw [ensures_get]
  have finish (u : Reading) : Ensures (do
      recover nested
      finishCommand name t.lastStop read) u fun _ v => v.isAtBoundary nested = true :=
    (recover_boundary nested u).bind fun _ v boundary => boundary
  split
  · exact finish _
  · exact finish _

theorem namedCommand_boundary (bound : Nat) (first nested : Bool) (name : CommandName)
    (s : Reading) :
    Ensures (namedCommand bound first nested name) s fun _ t =>
      t.isAtBoundary nested = true := by
  unfold namedCommand
  split
  · exact recover_boundary nested _
  · rename_i verb _
    dsimp only
    rw [knownCommand_eq]
    split
    · exact commandBody_boundary name _ nested _
    · exact commandBody_boundary name _ nested s

/-- A command is passed over to its end, and there is at least one token of it. -/
theorem command?_consumes {bound : Nat} (first : Bool) {s : Reading} {nested : Bool}
    (covers : Covers 1 bound s) (inside : s.isAtBoundary nested = false) :
    Ensures (command? bound first nested) s fun _ t =>
      Advances s t ∧ t.isAtBoundary nested = true := by
  obtain ⟨bound, rfl⟩ := covers.exists_succ
  have ends : Ensures (command? (bound + 1) first nested) s fun _ t =>
      t.isAtBoundary nested = true := by
    cases front : s.rest with
    | nil => simp [Reading.isAtBoundary, Reading.isAtEnd, front] at inside
    | cons token rest =>
        rw [ensures_command? front]
        unfold commandAt
        split
        · refine (commandName_follows token s).bind ?_
          intro name u _
          exact namedCommand_boundary bound first nested name u
        · exact recover_boundary nested _
  refine ((Forward.command? _ first nested s).and ends).mono ?_
  rintro _ t ⟨follows, boundary⟩
  exact ⟨follows.advances_of_boundary inside boundary, boundary⟩

theorem stays_of_nothing {α : Type} {φ : Frame} (nothing : φ.beyond = []) (rule : Rule α)
    (s : Reading) : Stays φ rule s := by
  unfold Stays
  rw [nothing]
  exact Nat.zero_le _

theorem command?_uncut (first nested : Bool) : Uncut 1 (command? · first nested) := by
  intro bound s covers
  cases front : s.rest with
  | nil =>
      obtain ⟨bound, rfl⟩ := covers.exists_succ
      rw [unbounded_run, run_command?_nil first nested front, run_command?_nil first nested front]
  | cons token rest =>
      refine run_unbounded (command? · first nested) covers
        fun φ nothing n m t same small large =>
          command?_mirrors φ ?_ small large (stays_of_nothing nothing _ t)
      rw [same, front]
      exact List.cons_ne_nil _ _

/-! ## Stages -/

/-- A pipeline is left where it ends, and goes on elsewhere. -/
def stageEnd (nested : Bool) (stages : Stages) : Rule (Turn Stages Stages) := do
  if (← get).isAtEnd nested then pure (.leave stages) else pure (.again stages)

/-- What becomes of a pipeline behind a command: it goes on behind a pipe, unless it ends there. A
command ends where a command may end; should it not, the rest of it is passed over. -/
def stageBehind (nested : Bool) (stages : Stages) : Rule (Turn Stages Stages) := do
  if ← accept .pipe then
    if (← get).isAtEnd nested then
      let stages ← unfinished stages .commandAfterPipe
      pure (.leave stages)
    else pure (.again stages)
  else
    if !(← get).isAtBoundary nested then recover nested
    stageEnd nested stages

/-- One more stage of a pipeline. -/
def stageTurn (nested : Bool) (stages : Stages) : Rule (Turn Stages Stages) := do
  if (← get).isAtEnd nested then
    if stages.commands.isEmpty && nested then
      let stages ← unfinished stages .command
      pure (.leave stages)
    else pure (.leave stages)
  else
    match ← accept? .pipe with
    | some pipe =>
        record .pipeWithoutCommand pipe.span
        pure (.again stages)
    | none =>
        let command? ← unbounded 1 (command? · (stages.commands.isEmpty && !nested) nested)
        stageBehind nested (stages.add command?)

theorem stageBehind_forward (nested : Bool) (stages : Stages) :
    Forward (stageBehind nested stages) := by
  refine (Forward.accept .pipe).bind fun piped => ?_
  split
  · refine .get fun s => ?_
    split
    · exact (Forward.unfinished stages _).bind fun _ => .pure _
    · exact .pure _
  · have ends : Forward (stageEnd nested stages) := by
      refine .get fun s => ?_
      split
      · exact .pure _
      · exact .pure _
    refine .get fun s => ?_
    split
    · exact (Forward.recover nested).bind fun _ => ends
    · exact ends

theorem stageTurn_moves (nested : Bool) (stages : Stages) (s : Reading) :
    Ensures (stageTurn nested stages) s (Turn.Moves s) := by
  unfold stageTurn
  rw [ensures_get]
  split
  · split
    · exact (Forward.unfinished stages .command s).bind fun _ t follows => follows
    · exact .refl s
  · rename_i more
    refine (ensures_accept?_front .pipe s).bind ?_
    rintro _ t (⟨rfl, same, noPipe⟩ | ⟨pipe, rest, front, rfl, rfl⟩)
    · have inside : s.isAtBoundary nested = false := by
        simp [Reading.isAtBoundary, noPipe, more]
      rw [same]
      refine Ensures.bind (.unbounded fun _ covers => command?_consumes _ covers inside) ?_
      rintro x u ⟨advances, _⟩
      refine (stageBehind_forward nested (stages.add x) u).mono ?_
      intro step t follows
      exact .of_advances (advances.trans follows)
    · exact (Advances.advance front).trans ⟨_, .record _ _⟩

theorem stageEnd_leaves (nested : Bool) (stages : Stages) (s : Reading) :
    Ensures (stageEnd nested stages) s (Turn.Leaves fun _ t => t.isAtEnd nested = true) := by
  unfold stageEnd
  rw [ensures_get]
  split
  · assumption
  · exact trivial

theorem stageBehind_leaves (nested : Bool) (stages : Stages) (s : Reading) :
    Ensures (stageBehind nested stages) s (Turn.Leaves fun _ t => t.isAtEnd nested = true) := by
  refine ensures_accept ?_ ?_
  · intro pipe rest _ _
    rw [if_pos rfl, ensures_get]
    split
    · assumption
    · exact trivial
  · rw [if_neg Bool.false_ne_true, ensures_get]
    split
    · have passed : Ensures (recover nested) s fun _ _ => True := trivial
      exact passed.bind fun _ t _ => stageEnd_leaves nested stages t
    · exact stageEnd_leaves nested stages s

/-- Wherever a pipeline is left, it ends. -/
theorem stageTurn_leaves (nested : Bool) (stages : Stages) (s : Reading) :
    Ensures (stageTurn nested stages) s (Turn.Leaves fun _ t => t.isAtEnd nested = true) := by
  unfold stageTurn
  rw [ensures_get]
  split
  · split
    · assumption
    · assumption
  · refine (ensures_accept?_front .pipe s).bind ?_
    rintro _ t (⟨rfl, _⟩ | ⟨pipe, rest, _, rfl, _⟩)
    · have read : Ensures (unbounded 1 (command? · (stages.commands.isEmpty && !nested) nested)) t
          fun _ _ => True := trivial
      exact read.bind fun x u _ => stageBehind_leaves nested (stages.add x) u
    · exact trivial

/-- Behind a command a pipeline does what the turn does, as the command has been passed over. -/
theorem afterCommand_unrolls (bound : Nat) {nested : Bool} (stages : Stages) {s : Reading}
    (boundary : s.isAtBoundary nested = true) :
    Unrolls (afterCommand bound nested stages) (stageBehind nested stages)
      (stagesFrom bound nested) s := by
  unfold afterCommand stageBehind
  refine .bind rfl (ensures_accept_front .pipe s) ?_
  rintro _ t (⟨rfl, _⟩ | ⟨rfl, rfl, noPipe⟩)
  · rw [if_pos rfl, if_pos rfl, unrolls_get]
    split
    · exact .last _
    · exact .again (stagesFrom bound nested) stages
  · have ended : t.isAtEnd nested = true := by
      unfold Reading.isAtBoundary at boundary
      rwa [noPipe, Bool.or_false] at boundary
    simp [Unrolls, Turn.further, stageEnd, boundary, ended]

theorem stagesFrom_unrolls (nested : Bool) (bound : Nat) (stages : Stages) (s : Reading)
    (covers : Covers 2 (bound + 1) s) :
    Unrolls (stagesFrom (bound + 1) nested stages) (stageTurn nested stages)
      (stagesFrom bound nested) s := by
  rw [stagesFrom, stageTurn, unrolls_get]
  cases more : s.isAtEnd nested with
  | true =>
      rw [if_pos rfl, if_pos rfl]
      split
      · exact .last _
      · exact .leave stages
  | false =>
      rw [if_neg Bool.false_ne_true, if_neg Bool.false_ne_true]
      refine .bind rfl (ensures_accept?_front .pipe s) ?_
      rintro _ t (⟨rfl, same, noPipe⟩ | ⟨pipe, rest, _, rfl, _⟩)
      · have inside : s.isAtBoundary nested = false := by
          simp [Reading.isAtBoundary, noPipe, more]
        rw [same]
        refine .bind (command?_uncut _ nested bound s covers.pred)
          (command?_consumes _ covers.pred inside) ?_
        rintro x u ⟨_, boundary⟩
        exact afterCommand_unrolls bound (stages.add x) boundary
      · exact .seq fun _ _ => .again (stagesFrom bound nested) stages

/-- The stages of a pipeline are read in turns. -/
theorem stagesFrom_loops {bound : Nat} (nested : Bool) (stages : Stages) {s : Reading}
    (covers : Covers 2 bound s) :
    Loops (stageTurn nested) stages s ((stagesFrom bound nested stages).run s) :=
  .of_covers (fun bound => stagesFrom bound nested) (stageTurn_moves nested)
    (stagesFrom_unrolls nested) stages covers

theorem stagesFrom_uncut (nested : Bool) (stages : Stages) :
    Uncut 2 (stagesFrom · nested stages) :=
  .of_loops fun _ _ covers => stagesFrom_loops nested stages covers

theorem run_pipeline (bound : Nat) (nested : Bool) (s : Reading) :
    (pipeline (bound + 1) nested).run s =
      (stagesFrom bound nested ⟨[], false⟩ >>= fun stages => pure (stages.finish s.nextStart)).run
        s := rfl

/-- A pipeline is read to its end. -/
theorem pipeline_ends {bound : Nat} (nested : Bool) {s : Reading} (covers : Covers 3 bound s) :
    Ensures (pipeline bound nested) s fun _ t => t.isAtEnd nested = true := by
  obtain ⟨bound, rfl⟩ := covers.exists_succ
  have loops := stagesFrom_loops nested ⟨[], false⟩ covers.pred
  have ends : Ensures (stagesFrom bound nested ⟨[], false⟩) s fun _ t => t.isAtEnd nested = true :=
    loops.ends (stageTurn_leaves nested)
  unfold Ensures
  rw [run_pipeline]
  exact ends

theorem pipeline_uncut (nested : Bool) : Uncut 3 (pipeline · nested) := by
  refine .of_succ fun n m s first second => ?_
  rw [run_pipeline, run_pipeline]
  exact ((stagesFrom_uncut nested ⟨[], false⟩).bind _).alike first second

/-! ## Branches -/

/-- One more branch of a fork, if a parenthesis opens it. -/
def branchTurn (read : List Argument) : Rule (Turn (List Argument) (Parts Argument)) := do
  match ← accept? .openParen with
  | none => pure (.leave ⟨read, true⟩)
  | some opening =>
      let branch ← unbounded 3 (pipeline · true)
      let branch ← closeBranch opening.span.start branch
      let read := read ++ [.branch branch]
      if branch.incomplete then pure (.leave ⟨read, false⟩) else pure (.again read)

/-- The branches that come next, if any do. -/
def furtherBranches (bound : Nat) : Rule (Parts Argument) := do
  if (← get).isAt .openParen then branches bound else pure .none

theorem branchTurn_moves (read : List Argument) (s : Reading) :
    Ensures (branchTurn read) s (Turn.Moves s) := by
  refine (ensures_accept?_front .openParen s).bind ?_
  rintro _ t (⟨rfl, rfl, _⟩ | ⟨opening, rest, front, rfl, rfl⟩)
  · exact .refl t
  · have passed : Ensures (unbounded 3 (pipeline · true)) s.advance fun _ t =>
        Follows s.advance t := .unbounded fun bound _ => Forward.pipeline bound true s.advance
    refine passed.bind ?_
    intro branch u inner
    refine (Forward.closeBranch opening.span.start branch u).bind ?_
    intro branch t closed
    have advances := ((Advances.advance front).trans inner).trans closed
    split
    · exact advances.follows
    · exact advances

theorem run_furtherBranches (bound : Nat) (s : Reading) :
    (furtherBranches (bound + 1)).run s = (do
      match ← accept? .openParen with
      | none => pure .none
      | some opening => andThen (branchFrom bound opening) (furtherBranches bound) :
      Rule (Parts Argument)).run s := by
  change (if s.isAt .openParen then branches (bound + 1) else pure .none).run s = _
  rw [branches, StateT.run_bind, run_accept?]
  cases opened : s.isAt .openParen with
  | false => rfl
  | true =>
      obtain ⟨opening, rest, front, _⟩ := Reading.exists_of_isAt opened
      rw [if_pos rfl, if_pos rfl, StateT.run_bind, run_accept?, opened, if_pos rfl, front]
      rfl

theorem furtherBranches_unrolls (bound : Nat) (read : List Argument) (s : Reading)
    (covers : Covers 1 (bound + 1) s) :
    Unrolls (behind read (furtherBranches (bound + 1))) (branchTurn read)
      (fun read => behind read (furtherBranches bound)) s := by
  refine .congr (behind_congr read (run_furtherBranches bound s)) ?_
  rw [behind, branchTurn, bind_assoc]
  refine .bind rfl (ensures_accept?_front .openParen s) ?_
  rintro _ t (⟨rfl, rfl, _⟩ | ⟨opening, rest, front, rfl, rfl⟩)
  · exact unrolls_none read _ t
  · have enough : Covers 4 bound s.advance :=
      covers.pred.less (Advances.advance front).length_lt (by decide)
    obtain ⟨bound, rfl⟩ := enough.exists_succ
    change Unrolls (behind read (andThen (branchFrom (bound + 1) opening) _)) _ _ s.advance
    rw [behind_andThen, branchFrom, bind_assoc]
    refine .step (pipeline_uncut true bound s.advance enough.pred) ?_
    intro branch u
    rw [bind_assoc]
    refine .seq ?_
    intro branch t
    rw [pure_bind, Parts.one]
    cases branch.incomplete with
    | true => exact .leave _
    | false => exact .again (fun read => behind read (furtherBranches (bound + 1))) _

/-- The branches of a fork are read in turns. -/
theorem branches_loops {bound : Nat} {s : Reading} (opened : s.isAt .openParen = true)
    (covers : Covers 1 bound s) : Loops branchTurn [] s ((branches bound).run s) := by
  have loops : Loops branchTurn [] s ((behind [] (furtherBranches bound)).run s) :=
    .of_covers (fun bound read => behind read (furtherBranches bound)) branchTurn_moves
      furtherBranches_unrolls [] covers
  have same : (behind [] (furtherBranches bound)).run s = (branches bound).run s := by
    change (if s.isAt .openParen then branches bound else pure .none).run s = _
    rw [opened, if_pos rfl]
  rwa [same] at loops

theorem branches_uncut : Uncut 1 branches :=
  fun _ _ covers => run_unbounded branches covers fun φ nothing n m t _ small large =>
    (pipelineMirrors φ n).branches m t small large (stays_of_nothing nothing _ t)

theorem run_branchFrom (bound : Nat) (opening : Token) (s : Reading) :
    (branchFrom (bound + 1) opening).run s = (pipeline bound true >>= fun read => do
      let branch ← closeBranch opening.span.start read
      pure (.one (.branch branch) branch.incomplete)).run s := rfl

theorem branchFrom_uncut (opening : Token) : Uncut 4 (branchFrom · opening) := by
  refine .of_succ fun n m s first second => ?_
  rw [run_branchFrom, run_branchFrom]
  exact ((pipeline_uncut true).bind _).alike first second

/-! ## All rules -/

/-- Each rule that calls others does the same under every bound that covers the tokens left. -/
structure NoneCut : Prop where
  binary : ∀ power, Uncut 3 (binary · power)
  operatorsFrom : ∀ power left, Uncut 1 (operatorsFrom · power left)
  unary : Uncut 2 unary
  memberList : Uncut 1 memberList
  listing : ∀ close starred, Uncut 5 (listing · close starred)
  itemsFrom : ∀ close starred, Uncut 4 (itemsFrom · close starred)
  primary : Uncut 1 primary
  pipeline : ∀ nested, Uncut 3 (pipeline · nested)
  stagesFrom : ∀ nested stages, Uncut 2 (stagesFrom · nested stages)
  command? : ∀ first nested, Uncut 1 (command? · first nested)
  branches : Uncut 1 branches
  branchFrom : ∀ opening, Uncut 4 (branchFrom · opening)

theorem noneCut : NoneCut where
  binary := binary_uncut
  operatorsFrom := fun power left => .of_loops fun _ _ => operatorsFrom_loops power left
  unary := unary_uncut
  memberList := memberList_uncut
  listing := listing_uncut
  itemsFrom := fun close starred => .of_loops fun _ _ => itemsFrom_loops close starred
  primary := primary_uncut
  pipeline := pipeline_uncut
  stagesFrom := stagesFrom_uncut
  command? := command?_uncut
  branches := branches_uncut
  branchFrom := branchFrom_uncut

/-- Each loop of the grammar is read in turns that read something or leave. -/
structure InTurns : Prop where
  stages : ∀ bound nested stages s, Covers 2 bound s →
    Loops (stageTurn nested) stages s ((stagesFrom bound nested stages).run s)
  recovery : ∀ nested s, Loops (recoveryTurn nested) 0 s ((recover nested).run s)
  fields : ∀ s, Loops (itemTurn (operand field?)) [] s (fields.run s)
  aggregates : ∀ s, Loops (itemTurn (operand filteredField?)) [] s
    ((separated (operand filteredField?)).run s)
  columns : ∀ stars s, Loops (itemTurn (columnOperand stars)) [] s ((columnList stars).run s)
  sources : ∀ s, Loops (itemTurn (sourceArgument .index .indexName)) [] s
    ((separated (sourceArgument .index .indexName)).run s)
  renamings : ∀ s, Loops (itemTurn renamedColumn) [] s ((separated renamedColumn).run s)
  sortKeys : ∀ s, Loops (itemTurn sortKey) [] s ((separated sortKey).run s)
  conditions : ∀ s, Loops (itemTurn (operand expression)) [] s
    ((separated (operand expression)).run s)
  enrichments : ∀ s, Loops (itemTurn enrichField) [] s ((separated enrichField).run s)
  settings : ∀ bound s, s.rest.length < bound →
    Loops settingTurn [] s ((settingsFrom bound).run s)
  branches : ∀ bound s, s.isAt .openParen = true → Covers 1 bound s →
    Loops branchTurn [] s ((branches bound).run s)
  listings : ∀ bound close starred s, Covers 4 bound s →
    Loops (listingTurn close starred) [] s ((itemsFrom bound close starred).run s)
  operators : ∀ bound power left s, Covers 1 bound s →
    Loops (operatorTurn power) left s ((operatorsFrom bound power left).run s)
  casts : ∀ bound value s, s.rest.length < bound →
    Loops castTurn value s ((castsFrom bound value).run s)

theorem inTurns : InTurns where
  stages := fun _ nested stages _ => stagesFrom_loops nested stages
  recovery := recover_loops
  fields := separated_loops fun s => follows_of_outcome (operand_outcome (field?_outcome s))
  aggregates := separated_loops fun s =>
    follows_of_outcome (operand_outcome (filteredField?_outcome s))
  columns := fun stars => separated_loops fun s =>
    follows_of_outcome (columnOperand_outcome stars s)
  sources := separated_loops fun s => follows_of_outcome (sourceArgument_outcome _ _ s)
  renamings := separated_loops fun s => follows_of_outcome (renamedColumn_outcome s)
  sortKeys := separated_loops fun s => follows_of_outcome (sortKey_outcome s)
  conditions := separated_loops fun s => follows_of_outcome (operand_outcome (expression_outcome s))
  enrichments := separated_loops fun s => follows_of_outcome (enrichField_outcome s)
  settings := fun _ _ => settingsFrom_loops
  branches := fun _ _ => branches_loops
  listings := fun _ close starred _ => itemsFrom_loops close starred
  operators := fun _ power left _ => operatorsFrom_loops power left
  casts := fun _ value _ => castsFrom_loops value

/-- Whatever the text and the tokens are, reading them as a query ends, and it has read all of them
when it does. The tree is the same under every bound that is large enough, as what each rule reads
is, and each turn of each loop on the way reads a token or is the last one. -/
theorem ofTokens_consumes (source : String) (tokens : List Token) :
    NoneCut ∧ InTurns ∧ ∃ tree t, Parsed.ofTokens source tokens = ⟨tree, t.errors⟩ ∧ t.rest = [] ∧
      ∀ bound, pipelineBound tokens.length ≤ bound →
        (pipeline bound false).run (Reading.start source tokens) = (tree, t) := by
  have covers (bound : Nat) (enough : pipelineBound tokens.length ≤ bound) :
      Covers 3 bound (Reading.start source tokens) := by
    unfold pipelineBound at enough
    change 8 * tokens.length + 3 ≤ bound
    omega
  have least := covers _ (Nat.le_refl _)
  obtain ⟨tree, t, run⟩ : ∃ tree t, (pipeline (pipelineBound tokens.length) false).run
      (Reading.start source tokens) = (tree, t) := ⟨_, _, rfl⟩
  refine ⟨noneCut, inTurns, tree, t, ?_, ?_, fun bound enough => ?_⟩
  · rw [Parsed.ofTokens, run]
  · have ended := pipeline_ends false least
    unfold Ensures at ended
    rw [run] at ended
    dsimp only [Reading.isAtEnd] at ended
    rw [Bool.false_and, Bool.or_false] at ended
    exact List.isEmpty_iff.mp ended
  · rw [← run]
    exact (pipeline_uncut false).alike (covers bound enough) least

end Esql.Grammar
