import Esql.Proofs.Candid.Arguments
import Esql.Proofs.Syntax.Visited

/-!
# Where the commands of a tree come from

Every command of a tree, be it in a branch of a branch, was read by the rule for commands, at some
place between the start and the end of the text. What that rule ensures wherever it is used holds
of every command that is visited.
-/

namespace Esql

theorem Argument.visitedIn_eq_nil {args : List Argument}
    (leaves : ∀ argument ∈ args, Grammar.IsLeaf argument) : visitedIn args = [] := by
  induction args with
  | nil => rfl
  | cons argument rest ih =>
      obtain ⟨leaf, leaves⟩ := List.forall_mem_cons.mp leaves
      rw [visitedIn, ih leaves]
      cases argument with
      | branch b => cases leaf
      | _ => rfl

namespace Grammar

/-- The rule for commands read the command somewhere between two states. -/
def ReadBetween (s : Reading) (command : Command) (t : Reading) : Prop :=
  ∃ bound first nested u v, Follows s u ∧ u.rest ≠ [] ∧
    (command? bound first nested).run u = (some command, v) ∧ Follows v t

/-- All of these commands were read between two states. -/
def AllRead (s : Reading) (commands : List Command) (t : Reading) : Prop :=
  ∀ command ∈ commands, ReadBetween s command t

namespace AllRead

variable {s u t : Reading} {commands others : List Command}

theorem nil : AllRead s [] t := nofun

theorem widen (read : AllRead s commands u) {first last : Reading} (before : Follows first s)
    (behind : Follows u last) : AllRead first commands last := by
  intro command member
  obtain ⟨bound, start, nested, from_, upTo, passed, more, run, later⟩ := read command member
  exact ⟨bound, start, nested, from_, upTo, before.trans passed, more, run, later.trans behind⟩

theorem before (read : AllRead s commands u) (behind : Follows u t) : AllRead s commands t :=
  read.widen (.refl s) behind

theorem append (front : AllRead s commands t) (back : AllRead s others t) :
    AllRead s (commands ++ others) t :=
  List.forall_mem_append.mpr ⟨front, back⟩

end AllRead

/-- What the rules for pipelines have read under one bound. -/
structure VisitedPipelines (bound : Nat) : Prop where
  pipeline : ∀ nested s, Ensures (pipeline bound nested) s fun branch t =>
    AllRead s (Command.visitedIn branch.commands) t
  stagesFrom : ∀ nested stages s u, Follows s u →
    AllRead s (Command.visitedIn stages.commands) u →
    Ensures (stagesFrom bound nested stages) u fun read t =>
      AllRead s (Command.visitedIn read.commands) t
  command? : ∀ first nested s, s.rest ≠ [] → Ensures (command? bound first nested) s fun x t =>
    AllRead s (Command.visitedIn x.toList) t
  branches : ∀ s, Ensures (branches bound) s fun read t =>
    AllRead s (Argument.visitedIn read.items) t
  branchFrom : ∀ opening s, Ensures (branchFrom bound opening) s fun read t =>
    AllRead s (Argument.visitedIn read.items) t

theorem finishCommand_args (name : CommandName) (stop : Nat) (read : Parts Argument) (s : Reading) :
    Ensures (finishCommand name stop read) s fun command t =>
      command.args = read.items ∧ t = s :=
  ⟨rfl, rfl⟩

/-- What a command read of its arguments, it read between its name and its end. -/
theorem commandBody_visited {name : CommandName} {args : Rule (Parts Argument)} (nested : Bool)
    {u : Reading} (visited : Ensures args u fun read v =>
      AllRead u (Argument.visitedIn read.items) v) :
    Ensures (commandBody name args nested) u fun command t =>
      AllRead u (Argument.visitedIn command.args) t := by
  refine visited.bind ?_
  intro read v visited
  simp only [ensures_get]
  have finish (w : Reading) (follows : Follows v w) (stop : Nat) : Ensures (do
      recover nested
      finishCommand name stop read) w fun command t =>
        AllRead u (Argument.visitedIn command.args) t := by
    refine (recover_outcome nested w).bind ?_
    rintro _ t ⟨passed, _⟩
    refine (finishCommand_args name stop read t).mono ?_
    rintro command _ ⟨same, rfl⟩
    rw [same]
    exact visited.before (follows.trans passed)
  split
  · refine (checkBoundary_outcome name.display nested v).bind ?_
    rintro _ w ⟨rfl | ⟨error, rfl⟩, _⟩
    · exact finish _ (.refl _) _
    · exact finish _ ⟨_, .record v error⟩ _
  · exact finish v (.refl v) _

theorem knownCommand_visited {name : CommandName} {verb : Verb} {args : Rule (Parts Argument)}
    (first nested : Bool) {u : Reading} (visited : ∀ v, Ensures args v fun read t =>
      AllRead v (Argument.visitedIn read.items) t) :
    Ensures (knownCommand name verb args first nested) u fun command t =>
      AllRead u (Argument.visitedIn command.args) t := by
  rw [knownCommand_eq]
  split
  · simp only [ensures_record]
    refine (commandBody_visited nested (visited _)).mono ?_
    intro command t read
    exact read.widen ⟨_, .record u _⟩ (.refl t)
  · exact commandBody_visited nested (visited u)

theorem closeBranch_follows (start : Nat) (branch : Pipeline) (s : Reading) :
    Ensures (closeBranch start branch) s fun closed t =>
      closed.commands = branch.commands ∧ Follows s t := by
  unfold closeBranch
  refine ensures_accept ?_ ?_
  · intro token rest front _
    simp only [ensures_get, Bool.not_true, Bool.false_and, Bool.false_eq_true, if_false,
      ensures_pure, true_and]
    exact ⟨_, .advance front⟩
  · simp only [ensures_get]
    split
    · exact ⟨rfl, _, .record s _⟩
    · exact ⟨rfl, .refl s⟩

namespace VisitedPipelines

variable {bound : Nat} (inner : VisitedPipelines bound)

include inner

theorem pipeline_succ (nested : Bool) (s : Reading) :
    Ensures (Grammar.pipeline (bound + 1) nested) s fun branch t =>
      AllRead s (Command.visitedIn branch.commands) t := by
  unfold Grammar.pipeline
  simp only [ensures_get]
  refine (inner.stagesFrom nested ⟨[], false⟩ s s (.refl s) .nil).bind ?_
  intro stages t read
  exact read

theorem stagesFrom_succ (nested : Bool) (stages : Stages) (s u : Reading) (follows : Follows s u)
    (read : AllRead s (Command.visitedIn stages.commands) u) :
    Ensures (Grammar.stagesFrom (bound + 1) nested stages) u fun stages t =>
      AllRead s (Command.visitedIn stages.commands) t := by
  unfold Grammar.stagesFrom
  simp only [ensures_get]
  split
  · split
    · exact read.before ⟨_, .record u _⟩
    · exact read
  rename_i more
  refine ensures_accept? ?_ ?_
  · intro token rest front _
    simp only [ensures_record]
    have passed : Follows u (u.advance.record ⟨.pipeWithoutCommand, token.span⟩) :=
      .trans ⟨_, .advance front⟩ ⟨_, .record _ _⟩
    exact inner.stagesFrom nested stages s _ (follows.trans passed) (read.before passed)
  · have present : u.rest ≠ [] := by
      intro none
      simp [Reading.isAtEnd, none] at more
    refine ((inner.command? _ nested u present).and
      ((pipelineOutcomes bound).command? _ nested u present)).bind ?_
    rintro x v ⟨here, command⟩
    have added : AllRead s (Command.visitedIn (stages.add x).commands) v := by
      cases x with
      | none => exact read.before command.follows
      | some last =>
          rw [Stages.add, Command.visitedIn_append]
          exact (read.before command.follows).append (here.widen follows (.refl v))
    refine ensures_accept ?_ added
    intro token rest front _
    have passed : Follows v v.advance := ⟨_, .advance front⟩
    simp only [if_true, ensures_get]
    split
    · exact added.before (passed.trans ⟨_, .record _ _⟩)
    · exact inner.stagesFrom nested _ s _ (follows.trans (command.follows.trans passed))
        (added.before passed)

/-- The commands in the branches of a command that was read. -/
theorem command?_below (first nested : Bool) (s : Reading) :
    Ensures (Grammar.command? (bound + 1) first nested) s fun x t =>
      ∀ command ∈ x, AllRead s (Argument.visitedIn command.args) t := by
  have nothing (t : Reading) : ∀ command ∈ (none : Option Command),
      AllRead s (Argument.visitedIn command.args) t := nofun
  unfold Grammar.command?
  simp only [ensures_tokens]
  split
  · rename_i token rest front
    split
    · rename_i starts
      refine (commandName_outcome front starts).bind ?_
      intro name u named
      have one {rule : Rule Command} (visited : Ensures rule u fun command t =>
          AllRead u (Argument.visitedIn command.args) t) :
          Ensures (do pure (some (← rule))) u fun x t =>
            ∀ command ∈ x, AllRead s (Argument.visitedIn command.args) t := by
        refine visited.bind ?_
        rintro command t here _ ⟨⟩
        exact here.widen named.passage.follows (.refl t)
      split
      · exact one AllRead.nil
      · rename_i verb _
        refine one (knownCommand_visited first nested fun v => ?_)
        by_cases fork : verb = .fork
        · subst fork
          exact inner.branches v
        · have leaves := yields_arguments (Grammar.branches bound) nested fork v
          refine Eq.subst (motive := fun commands => AllRead v commands _)
            (Argument.visitedIn_eq_nil fun argument member => (leaves.items argument member).1).symm
            AllRead.nil
    · exact nothing _
  · exact nothing _

theorem command?_succ (first nested : Bool) (s : Reading) (present : s.rest ≠ []) :
    Ensures (Grammar.command? (bound + 1) first nested) s fun x t =>
      AllRead s (Command.visitedIn x.toList) t := by
  have below := inner.command?_below first nested s
  unfold Ensures at below ⊢
  cases run : (Grammar.command? (bound + 1) first nested).run s with
  | mk x t =>
      rw [run] at below
      cases x with
      | none => exact .nil
      | some command =>
          change AllRead s (Command.visitedIn [command]) t
          rw [Command.visitedIn, Command.visitedIn, List.append_nil, Command.visited_eq]
          refine List.forall_mem_cons.mpr ⟨?_, below command rfl⟩
          exact ⟨bound + 1, first, nested, s, t, .refl s, present, run, .refl t⟩

theorem branches_succ (s : Reading) :
    Ensures (Grammar.branches (bound + 1)) s fun read t =>
      AllRead s (Argument.visitedIn read.items) t := by
  unfold Grammar.branches
  refine ensures_accept? ?_ AllRead.nil
  intro opening rest front _
  unfold andThen
  refine ((inner.branchFrom opening s.advance).and
    ((pipelineOutcomes bound).branchFrom s opening rest front)).bind ?_
  rintro read u ⟨visited, outcome⟩
  have here : AllRead s (Argument.visitedIn read.items) u :=
    visited.widen ⟨_, .advance front⟩ (.refl u)
  split
  · have second : Ensures (do
        if (← get).isAt .openParen then Grammar.branches bound else pure .none) u
        fun others t => AllRead u (Argument.visitedIn others.items) t ∧ Follows u t := by
      simp only [ensures_get]
      split
      · refine ((inner.branches u).and ((pipelineOutcomes bound).branches u)).mono ?_
        rintro others t ⟨read, later⟩
        exact ⟨read, later.follows⟩
      · exact ⟨.nil, .refl u⟩
    refine second.bind ?_
    rintro others t ⟨there, later⟩
    change AllRead s (Argument.visitedIn (read.items ++ others.items)) t
    rw [Argument.visitedIn_append]
    exact (here.before later).append (there.widen outcome.follows (.refl t))
  · exact here

theorem branchFrom_succ (opening : Token) (s : Reading) :
    Ensures (Grammar.branchFrom (bound + 1) opening) s fun read t =>
      AllRead s (Argument.visitedIn read.items) t := by
  unfold Grammar.branchFrom
  refine (inner.pipeline true s).bind ?_
  intro branch u visited
  refine (closeBranch_follows opening.span.start branch u).bind ?_
  rintro ⟨commands, span, incomplete⟩ t ⟨same, follows⟩
  change AllRead s (Command.visitedIn commands ++ []) t
  rw [List.append_nil, show commands = branch.commands from same]
  exact visited.before follows

end VisitedPipelines

theorem visitedPipelines (bound : Nat) : VisitedPipelines bound := by
  induction bound with
  | zero =>
      exact {
        pipeline := fun _ _ => AllRead.nil
        stagesFrom := fun _ _ _ u _ read => read.before ⟨_, .record u _⟩
        command? := fun _ _ _ _ => AllRead.nil
        branches := fun _ => AllRead.nil
        branchFrom := fun _ _ => AllRead.nil }
  | succ bound inner =>
      exact {
        pipeline := inner.pipeline_succ
        stagesFrom := inner.stagesFrom_succ
        command? := inner.command?_succ
        branches := inner.branches_succ
        branchFrom := inner.branchFrom_succ }

/-- The arguments of a command are read directly behind its name. -/
theorem command?_made (bound : Nat) (first nested : Bool) {s : Reading} (ready : s.Ready)
    (more : s.rest ≠ []) :
    Ensures (command? bound first nested) s fun x _ => ∀ command ∈ x, ∀ verb,
      Verb.ofName? command.name = some verb → ∃ bound name t, Follows s t ∧
        t.lastStop = command.nameSpan.stop ∧
        Ensures (arguments (branches bound) nested verb) t (MadeOf name command) := by
  obtain ⟨token, rest, front⟩ := List.exists_cons_of_ne_nil more
  cases bound with
  | zero => exact nofun
  | succ bound =>
      rw [ensures_command? front, commandAt]
      split
      · rename_i starts
        refine (commandName_outcome front starts).bind ?_
        intro name u outcome
        refine (namedCommand_made bound first nested name u).mono ?_
        intro x _ made command member verb known
        obtain ⟨t, start, made⟩ := made command member verb known
        have stays : Follows u t ∧ t.lastStop = u.lastStop := by
          rcases start with rfl | ⟨fault, rfl⟩
          · exact ⟨.refl _, rfl⟩
          · exact ⟨⟨_, .record u _⟩, rfl⟩
        refine ⟨bound, name, t, outcome.passage.follows.trans stays.1, ?_, made⟩
        rw [stays.2, ← outcome.stops ready, MadeOf.spanned made]
      · exact nofun

end Grammar

/-- Every command of the tree of a text was read on the way to its errors. -/
theorem visited_parse (text : String) : ∃ last : Grammar.Reading,
    last.errors = (parse text).errors ∧
      ∀ command ∈ Command.visitedIn (parse text).pipeline.commands,
        Grammar.ReadBetween (Grammar.Reading.start text (Token.scan text)) command last :=
  ⟨_, rfl, (Grammar.visitedPipelines (Grammar.pipelineBound (Token.scan text).length)).pipeline
    false (Grammar.Reading.start text (Token.scan text))⟩

/-- What the rule for commands achieves holds of every command of the tree of a text. -/
theorem outcome_visited {text : String} {command : Command}
    (visited : command ∈ Command.visitedIn (parse text).pipeline.commands) :
    ∃ nested u v, u.Ready ∧ u.source = text ∧ Grammar.CommandOutcome nested u (some command) v ∧
      v.errors.length ≤ (parse text).errors.length := by
  obtain ⟨last, errors, read⟩ := visited_parse text
  obtain ⟨bound, first, nested, u, v, before, more, run, later⟩ := read command visited
  have outcome := (Grammar.pipelineOutcomes bound).command? first nested u more
  rw [Grammar.Ensures, run] at outcome
  refine ⟨nested, u, v, before.ready (Grammar.ready_start text), before.source, outcome, ?_⟩
  rw [← errors]
  exact later.errors

/-- The arguments of a command of the tree of a text were read directly behind its name. -/
theorem made_visited {text : String} {command : Command} {verb : Verb}
    (visited : command ∈ Command.visitedIn (parse text).pipeline.commands)
    (known : Verb.ofName? command.name = some verb) :
    ∃ bound nested name s, Grammar.Follows (.start text (Token.scan text)) s ∧
      s.lastStop = command.nameSpan.stop ∧
      Grammar.Ensures (Grammar.arguments (Grammar.branches bound) nested verb) s
        (Grammar.MadeOf name command) := by
  obtain ⟨_, _, read⟩ := visited_parse text
  obtain ⟨bound, first, nested, u, v, before, more, run, _⟩ := read command visited
  have ready := before.ready (Grammar.ready_start text)
  have made := Grammar.command?_made bound first nested ready more
  rw [Grammar.Ensures, run] at made
  obtain ⟨bound, name, s, behind, stop, made⟩ := made command rfl verb known
  exact ⟨bound, nested, name, s, before.trans behind, stop, made⟩

/-- Every command of the tree of a text is candid, its branches left closed. -/
theorem candid_visited (text : String) :
    ∀ command ∈ Command.visitedIn (parse text).pipeline.commands, (Node.command command).Candid := by
  intro command visited
  obtain ⟨last, _, read⟩ := visited_parse text
  obtain ⟨bound, first, nested, u, v, _, _, run, _⟩ := read command visited
  have candid := Grammar.yields_command? bound first nested u
  rw [run] at candid
  exact candid command rfl

/-- An expression of the tree of a text that is complete was read to its end in all of its parts. -/
theorem whole_of_visited {text : String} {command : Command}
    (visited : command ∈ (parse text).pipeline.visited) {expr : Expr}
    (below : Node.expr expr ∈ command.walk) (complete : expr.incomplete = false) : expr.Whole := by
  rw [Pipeline.visited_eq] at visited
  exact (candid_visited text command visited).whole (fun _ => Node.noConfusion) below complete

/-- Every command of the tree of a text stands behind its name. -/
theorem named_visited (text : String) :
    ∀ command ∈ Command.visitedIn (parse text).pipeline.commands, command.Named text := by
  intro command visited
  obtain ⟨nested, u, v, ready, source, outcome, _⟩ := outcome_visited visited
  exact source ▸ outcome.named ready command rfl

/-- Every command of the tree of a text is well nested in the text. -/
theorem nested_visited (text : String) :
    ∀ command ∈ Command.visitedIn (parse text).pipeline.commands, command.Nested text := by
  intro command visited
  obtain ⟨nested, u, v, ready, source, outcome, _⟩ := outcome_visited visited
  exact source ▸ outcome.tree ready command rfl

/-- A command that is marked as closed early has an error. -/
theorem errors_ne_nil_of_visited {text : String} {command : Command}
    (visited : command ∈ Command.visitedIn (parse text).pipeline.commands)
    (marked : command.incomplete = true) : (parse text).errors ≠ [] := by
  obtain ⟨nested, u, v, _, _, outcome, most⟩ := outcome_visited visited
  have grown := outcome.faulty marked
  exact List.ne_nil_of_length_pos (by omega)

/-- The complete aggregations of the tree of a text. -/
def aggregating (text : String) : List Command :=
  (parse text).pipeline.visited.filter fun command =>
    command.name == "stats" && !command.incomplete

theorem mem_aggregating {text : String} {command : Command} :
    command ∈ aggregating text ↔ command ∈ (parse text).pipeline.visited ∧
      command.name = "stats" ∧ command.incomplete = false := by
  rw [aggregating, List.mem_filter, Bool.and_eq_true, beq_iff_eq, Bool.not_eq_true']

/-- The expressions of the tree of a text, each before its parts. -/
def expressionsOf (text : String) : List Expr :=
  (Command.visitedIn (parse text).pipeline.commands).flatMap fun command =>
    command.walk.filterMap Node.expr?

/-- The only leaf of a kind in the tree of a text is a node of a command. -/
theorem exists_visited_of_leaf {α : Type} {leaf? : Expr → Option α} {text : String} {leaf : α}
    (only : (expressionsOf text).filterMap leaf? = [leaf]) :
    ∃ command ∈ Command.visitedIn (parse text).pipeline.commands, ∃ expr,
      leaf? expr = some leaf ∧ Node.expr expr ∈ command.walk := by
  have member := only ▸ List.mem_singleton_self leaf
  obtain ⟨expr, inside, same⟩ := List.mem_filterMap.mp member
  obtain ⟨command, visited, below⟩ := List.mem_flatMap.mp inside
  obtain ⟨node, walked, given⟩ := List.mem_filterMap.mp below
  cases node <;> cases given
  exact ⟨command, visited, expr, same, walked⟩

end Esql
