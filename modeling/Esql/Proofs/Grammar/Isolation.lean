import Esql.Proofs.Frame.Pipeline
import Esql.Proofs.Grammar.Recovery
import Esql.Proofs.Grammar.Tree
import Esql.Proofs.Token.Stage

/-!
# Stages on their own

The command of a stage depends on the text of the stage alone, if the parentheses of every stage
match: it is found at the place of the stage with the same parts, whatever stands in the other
stages and whatever is wrong with them.
-/

namespace Esql.Grammar

/-- Errors found before do not change what a command is read as. -/
theorem commandBody_value (name : CommandName) (verb : Verb) (nested : Bool) {bound : Nat}
    {s : Reading} (covers : Covers 1 bound s) :
    ((commandBody name (arguments (branches bound) nested verb) nested).run s).1 =
      ((commandBody name (arguments (branches bound) nested verb) nested).run
        ⟨s.source, s.rest, s.lastStop, []⟩).1.relocate (.into s.source 0) := by
  have closed : ∀ token ∈ ([] : List Token).head?, token.kind = .pipe := by
    rintro _ ⟨⟩
  let φ := Frame.inPlace s [] closed
  have embedded : φ.embed ⟨s.source, s.rest, s.lastStop, []⟩ = s :=
    Frame.embed_inPlace closed (List.append_nil s.rest).symm s.source
  have stays : Stays φ (commandBody (name.relocate φ.move) (arguments (branches bound) nested verb)
      nested) ⟨s.source, s.rest, s.lastStop, []⟩ := Nat.zero_le _
  have same := commandBody_mirrors φ stays fun within =>
    arguments_mirrors φ nested verb fun fork =>
      (pipelineMirrors φ bound).branches bound _ covers covers (Nat.zero_le _)
  unfold Mirrors at same
  rw [embedded] at same
  exact congrArg Prod.fst same

theorem knownCommand_value (name : CommandName) (verb : Verb) (first nested : Bool) {bound : Nat}
    {s : Reading} (covers : Covers 1 bound s) :
    ((knownCommand name verb (arguments (branches bound) nested verb) first nested).run s).1 =
      ((commandBody name (arguments (branches bound) nested verb) nested).run
        ⟨s.source, s.rest, s.lastStop, []⟩).1.relocate (.into s.source 0) := by
  rw [knownCommand_eq]
  split
  · rename_i fault _
    have recorded : Covers 1 bound (s.record ⟨fault, name.span⟩) := covers
    exact commandBody_value name verb nested recorded
  · exact commandBody_value name verb nested covers

/-- Whether a command is the first one changes the errors only. -/
theorem command?_first {bound : Nat} {nested : Bool} {s : Reading} (covers : Covers 1 bound s)
    (first : Bool) :
    ((command? bound first nested).run s).1 = ((command? bound false nested).run s).1 := by
  obtain ⟨bound, rfl⟩ := covers.exists_succ
  cases front : s.rest with
  | nil => rw [run_command?_nil first nested front, run_command?_nil false nested front]
  | cons token rest =>
      rw [run_command? bound first nested front, run_command? bound false nested front]
      unfold commandAt
      split
      · have passed := commandName_follows token s
        unfold Ensures at passed
        rw [StateT.run_bind, StateT.run_bind]
        revert passed
        rcases (commandName token).run s with ⟨name, u⟩
        intro passed
        have fewer : Covers 1 bound u := by
          have shorter := Follows.length_le passed
          rw [Reading.advance_rest front] at shorter
          refine covers.pred.less ?_ (by decide)
          rw [front]
          exact Nat.succ_le_succ shorter
        change ((namedCommand bound first nested name).run u).1 =
          ((namedCommand bound false nested name).run u).1
        unfold namedCommand
        split
        · rfl
        · rename_i verb _
          have same := (knownCommand_value name verb first nested fewer).trans
            (knownCommand_value name verb false nested fewer).symm
          exact congrArg some same
      · rfl

/-- The tokens of a part of a text, before which a pipe may stand, as a state of their own. -/
def partReading (piped : Bool) (part : String) : Reading :=
  ⟨part, Token.scanFrom part.toList 0 piped 0, 0, []⟩

/-- The command that a part of a text is by itself, if it is one. -/
def partCommand? (piped : Bool) (part : String) : Option Command :=
  ((command? (pipelineBound (partReading piped part).rest.length) false false).run
    (partReading piped part)).1

theorem rest_partReading (piped : Bool) (part : List Char) :
    (partReading piped (String.ofList part)).rest = Token.scanFrom part 0 piped 0 := by
  change Token.scanFrom (String.ofList part).toList 0 piped 0 = _
  rw [String.toList_ofList]

theorem ready_partReading (piped : Bool) (part : String) : (partReading piped part).Ready := by
  refine ⟨?_, Text.isBoundary_zero _⟩
  have placed := Token.scanFrom_placed part.toList piped
  rwa [String.ofList_toList] at placed

theorem covers_partReading (piped : Bool) (part : String) :
    Covers 1 (pipelineBound (partReading piped part).rest.length) (partReading piped part) := by
  unfold Covers pipelineBound
  omega

theorem nested_partCommand? {piped : Bool} {part : String} {command : Command}
    (found : partCommand? piped part = some command) : command.Nested part := by
  cases front : (partReading piped part).rest with
  | nil =>
      unfold partCommand? pipelineBound at found
      rw [run_command?_nil false false front] at found
      cases found
  | cons token rest =>
      have present : (partReading piped part).rest ≠ [] := by simp [front]
      have outcomes := pipelineOutcomes (pipelineBound (partReading piped part).rest.length)
      have outcome := outcomes.command? false false _ present
      exact outcome.tree (ready_partReading piped part) command found

/-- The parentheses of balanced tokens are all closed, from any place on. -/
theorem balanced_append {depth : Nat} {left right : List Token}
    (balanced : Stage.balancedFrom depth (left ++ right) = true) :
    ∃ open', Stage.balancedFrom open' right = true := by
  induction left generalizing depth with
  | nil => exact ⟨depth, balanced⟩
  | cons token left ih =>
      rw [List.cons_append, Stage.balancedFrom] at balanced
      split at balanced
      · exact ih balanced
      · exact ih (Bool.and_eq_true_iff.mp balanced).2
      · exact ih balanced

theorem excess_balanced {depth : Nat} {tokens : List Token}
    (balanced : Stage.balancedFrom depth tokens = true) : excess tokens = depth := by
  induction tokens generalizing depth with
  | nil =>
      rw [Stage.balancedFrom, beq_iff_eq] at balanced
      rw [balanced]
      rfl
  | cons token tokens ih =>
      rw [Stage.balancedFrom] at balanced
      rw [excess_cons]
      split at balanced
      · rename_i kind
        rw [kind, ih balanced]
        change -1 + ((depth + 1 : Nat) : Int) = depth
        omega
      · rename_i kind
        rw [Bool.and_eq_true_iff, bne_iff_ne] at balanced
        rw [kind, ih balanced.2]
        change 1 + ((depth - 1 : Nat) : Int) = depth
        omega
      · rename_i noOpen noClose
        rw [closing_eq_zero noOpen noClose, ih balanced, Int.zero_add]

theorem closesAll_of_balanced {tokens : List Token}
    (balanced : Stage.balancedFrom 0 tokens = true) : ClosesAll tokens := by
  rintro left right rfl
  obtain ⟨depth, behind⟩ := balanced_append balanced
  rw [excess_balanced behind]
  exact Int.natCast_nonneg depth

/-- The command of a stage at its place in the text. -/
def stageCommand? (text : String) (stage : Stage) : Option Command :=
  (partCommand? stage.piped (stage.span.slice text)).map
    (Command.relocate (.shift stage.span.start))

theorem slice_eq {text : String} {span : Span} (before part after : List Char)
    (split : text.toList = before ++ part ++ after)
    (same : span = ⟨Text.width before, Text.width before + Text.width part⟩) :
    span.slice text = String.ofList part := by
  unfold Span.slice
  rw [same, split, Text.sliceChars_width]

theorem stageCommand?_eq_none {text : String} {stage : Stage} (stands : stage.Stands text.toList)
    (nothing : stage.tokens = []) : stageCommand? text stage = none := by
  obtain ⟨before, part, after, split, span, tokens⟩ := stands
  have slice := slice_eq before part after split span
  have ended : (partReading stage.piped (String.ofList part)).rest = [] := by
    rw [nothing] at tokens
    rw [rest_partReading]
    exact List.map_eq_nil_iff.mp tokens.symm
  unfold stageCommand? partCommand? pipelineBound
  rw [slice, run_command?_nil false false ended]
  rfl

/-- A stage as the beginning of what is left, where its part of the text begins. -/
def stageFrame (s : Reading) (before : List Char) (back : List Token)
    (closed : ∀ token ∈ back.head?, token.kind = .pipe) : Frame :=
  ⟨s.source, Text.width before, back, s.errors, closed⟩

section

variable {s : Reading} {before part : List Char} {back : List Token} {piped : Bool}
  (closed : ∀ token ∈ back.head?, token.kind = .pipe)

theorem embed_stageFrame
    (rest : s.rest = (Token.scanFrom part 0 piped 0).map (Token.shift (Text.width before)) ++ back)
    (last : s.lastStop = Text.width before) :
    (stageFrame s before back closed).embed (partReading piped (String.ofList part)) = s := by
  change Reading.mk s.source ((partReading piped (String.ofList part)).rest.map
    (Token.shift (Text.width before)) ++ back) (0 + Text.width before) (s.errors ++ []) = s
  rw [rest_partReading, ← rest, ← last, Nat.zero_add, List.append_nil]

theorem map_relocate_stageFrame {after : List Char}
    (split : s.source.toList = before ++ part ++ after) :
    (partCommand? piped (String.ofList part)).map
        (Command.relocate (stageFrame s before back closed).move) =
      (partCommand? piped (String.ofList part)).map
        (Command.relocate (.shift (Text.width before))) := by
  cases found : partCommand? piped (String.ofList part) with
  | none => rfl
  | some command =>
      have agree : Relocation.Agree (String.ofList part) (.into s.source (Text.width before))
          (.shift (Text.width before)) :=
        Relocation.agree_into (by rw [String.toList_ofList, split])
      have moved := command.relocate_congr agree (nested_partCommand? found)
      exact congrArg some moved

end

/-- What stands behind a stage and was wrong before it does not change its command. -/
theorem command?_stage {s : Reading} {stage : Stage} {back : List Token} {bound : Nat}
    (first : Bool) (stands : stage.Stands s.source.toList) (rest : s.rest = stage.tokens ++ back)
    (last : s.lastStop = stage.span.start) (present : stage.tokens ≠ [])
    (noPipe : ∀ token ∈ stage.tokens, token.kind ≠ .pipe) (balanced : stage.balanced = true)
    (closed : ∀ token ∈ back.head?, token.kind = .pipe) (covers : Covers 1 bound s) :
    Ensures (command? bound first false) s fun x t =>
      x = stageCommand? s.source stage ∧ t.rest = back := by
  obtain ⟨bound, rfl⟩ := covers.exists_succ
  obtain ⟨token, more, front⟩ := List.exists_cons_of_ne_nil present
  have head : s.rest = token :: (more ++ back) := by rw [rest, front, List.cons_append]
  have within : Within back 0 s := by
    refine ⟨stage.tokens, rest, noPipe, closesAll_of_balanced balanced, ?_⟩
    rw [excess_balanced balanced]
    exact Int.le_refl 0
  have ends := command?_within closed bound first head within
  refine Ensures.and ?_ ends
  obtain ⟨before, part, after, split, span, tokens⟩ := stands
  have slice := slice_eq before part after split span
  have scanned := rest_partReading stage.piped part
  have shifted : s.rest =
      (Token.scanFrom part 0 stage.piped 0).map (Token.shift (Text.width before)) ++ back := by
    rw [rest, tokens]
  have embedded := embed_stageFrame closed shifted (by rw [last, span])
  have stays : Stays (stageFrame s before back closed) (command? (bound + 1) first false)
      (partReading stage.piped (String.ofList part)) := by
    unfold Stays
    rw [embedded]
    unfold Ensures at ends
    exact Nat.le_of_eq (congrArg List.length ends.symm)
  have present' : (partReading stage.piped (String.ofList part)).rest ≠ [] := by
    intro none
    rw [tokens, ← scanned, none] at front
    cases front
  have fewer : Covers 1 (bound + 1) (partReading stage.piped (String.ofList part)) := by
    refine covers.mono ?_ (Nat.le_refl 1)
    rw [rest, tokens, scanned, List.length_append, List.length_map]
    exact Nat.le_add_right _ _
  have same := command?_mirrors _ present' (covers_partReading _ _) fewer stays
  unfold Mirrors at same
  rw [embedded] at same
  unfold Ensures
  rw [same]
  dsimp only
  rw [command?_first (covers_partReading _ _) first]
  unfold stageCommand?
  rw [slice, span]
  exact map_relocate_stageFrame closed split

/-- The command of a stage is read wherever the stage comes next in the text. -/
def Builds (source : String) (build : Stage → Option Command) (stage : Stage) : Prop :=
  (stage.tokens = [] → build stage = none) ∧
    ∀ bound first back s, s.source = source → s.rest = stage.tokens ++ back →
      s.lastStop = stage.span.start → stage.tokens ≠ [] →
      (∀ token ∈ back.head?, token.kind = .pipe) → Covers 1 bound s →
      Ensures (command? bound first false) s fun x t => x = build stage ∧ t.rest = back

/-- Reading goes on at the end of a stage with the command of the stage. -/
theorem exists_run_stage {build : Stage → Option Command} {bound : Nat} (stages : Stages)
    {s : Reading} {stage : Stage} {back : List Token} (builds : Builds s.source build stage)
    (tokens : s.rest = stage.tokens ++ back) (start : s.lastStop = stage.span.start)
    (present : stage.tokens ≠ []) (noPipe : ∀ token ∈ stage.tokens, token.kind ≠ .pipe)
    (closed : ∀ token ∈ back.head?, token.kind = .pipe) (covers : Covers 2 (bound + 1) s) :
    ∃ u, (stagesFrom (bound + 1) false stages).run s =
        (afterCommand bound false (stages.add (build stage))).run u ∧
      u.rest = back ∧ u.source = s.source := by
  obtain ⟨token, front, first⟩ := List.exists_cons_of_ne_nil present
  have head : s.rest = token :: (front ++ back) := by rw [tokens, first, List.cons_append]
  have command := builds.2 bound stages.commands.isEmpty back s rfl tokens start present closed
    covers.pred
  have passed := Forward.command? bound stages.commands.isEmpty false s
  have other := noPipe token (by rw [first]; exact List.mem_cons_self)
  unfold Ensures at command passed
  rw [run_stagesFrom_command head other, StateT.run_bind]
  revert command passed
  rcases (command? bound stages.commands.isEmpty false).run s with ⟨x, u⟩
  rintro ⟨rfl, behind⟩ passed
  exact ⟨u, rfl, behind, Follows.source passed⟩

/-- The last stage of a query gives the last command, if it is one. -/
theorem stagesFrom_stage {build : Stage → Option Command} {bound : Nat} (stages : Stages)
    {s : Reading} {stage : Stage} (builds : Builds s.source build stage)
    (tokens : s.rest = stage.tokens) (start : s.lastStop = stage.span.start)
    (noPipe : ∀ token ∈ stage.tokens, token.kind ≠ .pipe) (covers : Covers 2 (bound + 1) s) :
    ((stagesFrom (bound + 1) false stages).run s).1.commands =
      stages.commands ++ (build stage).toList := by
  by_cases present : stage.tokens = []
  · rw [run_stagesFrom_nil (tokens.trans present), builds.1 present]
    exact (List.append_nil _).symm
  · have whole : s.rest = stage.tokens ++ [] := by rw [tokens, List.append_nil]
    obtain ⟨u, run, behind, _⟩ :=
      exists_run_stage stages builds whole start present noPipe (by rintro _ ⟨⟩) covers
    rw [run, run_afterCommand_nil behind, commands_add]

/-- A query has the commands of its stages, one behind the other. -/
theorem stagesFrom_stages {build : Stage → Option Command} {stop : Nat} (bound : Nat)
    (piped : Bool) (stages : Stages) (s : Reading) (covers : Covers 2 bound s)
    (builds : ∀ stage ∈ Stage.divide piped s.lastStop stop s.rest, Builds s.source build stage) :
    Ensures (stagesFrom bound false stages) s fun read _ =>
      read.commands = stages.commands ++
        (Stage.divide piped s.lastStop stop s.rest).flatMap fun stage => (build stage).toList := by
  induction bound generalizing piped stages s with
  | zero => cases covers
  | succ bound ih =>
      obtain ⟨front, back, tokens, noPipe, closed⟩ := Stage.exists_front s.rest
      unfold Ensures
      cases back with
      | nil =>
          have whole : s.rest = front := by rw [tokens, List.append_nil]
          rw [whole, Stage.divide_eq_singleton noPipe] at builds ⊢
          rw [List.flatMap_singleton]
          exact stagesFrom_stage stages (builds _ (List.mem_singleton.mpr rfl)) whole rfl noPipe
            covers
      | cons pipe rest =>
          have found := closed pipe rfl
          rw [tokens, Stage.divide_eq_cons noPipe found] at builds ⊢
          have first := builds _ List.mem_cons_self
          have further (stages : Stages) (t : Reading) (source : t.source = s.source)
              (left : t.rest = rest) (last : t.lastStop = pipe.span.stop) :
              Ensures (stagesFrom bound false stages) t fun read _ => read.commands =
                stages.commands ++ (Stage.divide true pipe.span.stop stop rest).flatMap
                  fun stage => (build stage).toList := by
            have fewer : Covers 2 bound t := by
              refine covers.pred.less ?_ (by decide)
              rw [left, tokens, List.length_append, List.length_cons]
              omega
            have read := ih true stages t fewer (by
              rw [last, left, source]
              exact fun stage member => builds stage (List.mem_cons_of_mem _ member))
            rwa [last, left] at read
          rw [List.flatMap_cons]
          by_cases present : front = []
          · subst present
            rw [run_stagesFrom_pipe tokens found, first.1 rfl]
            exact further stages _ (Leads.advance tokens).source (Reading.advance_rest tokens)
              (Reading.lastStop_advance tokens)
          · obtain ⟨u, run, behind, source⟩ :=
              exists_run_stage stages first tokens rfl present noPipe closed covers
            rw [run, run_afterCommand_pipe behind found]
            split
            · rename_i ended
              subst ended
              have last := builds _ (List.mem_cons_of_mem _ (List.mem_singleton.mpr rfl))
              rw [Stage.divide, List.flatMap_singleton, last.1 rfl, Option.toList_none,
                List.append_nil, ← commands_add]
              rfl
            · rw [← List.append_assoc, ← commands_add]
              exact further _ u.advance ((Leads.advance behind).source.trans source)
                (Reading.advance_rest behind) (Reading.lastStop_advance behind)

end Esql.Grammar

namespace Esql

open Grammar

/-- A text whose parentheses match in every stage has the commands of its stages. -/
theorem commands_eq_stages {text : String}
    (balanced : ∀ stage ∈ stages text, stage.balanced = true) :
    (parse text).pipeline.commands =
      (stages text).flatMap fun stage => (stageCommand? text stage).toList := by
  have builds : ∀ stage ∈ stages text, Builds text (stageCommand? text) stage := by
    intro stage member
    have stands := stages_stand text stage member
    refine ⟨?_, ?_⟩
    · exact stageCommand?_eq_none stands
    · intro bound first back s source rest last present closed covers
      subst source
      exact command?_stage first stands rest last present (Stage.noPipe_of_mem_divide member)
        (balanced stage member) closed covers
  have read := stagesFrom_stages _ false ⟨[], false⟩ _ (covers_start text) builds
  exact (parse_eq text).1.symm.trans read

/-- What a stage is parsed from alone: the text of the first stage by itself, that of any other
behind a pipe. -/
def Stage.solo (text : String) (stage : Stage) : String :=
  if stage.piped then "FROM a |" ++ stage.span.slice text else stage.span.slice text

/-- How far into its own text a stage begins. -/
def Stage.lead (stage : Stage) : Nat := if stage.piped then 8 else 0

/-- The commands of a stage when it is parsed alone. -/
def Stage.alone (text : String) (stage : Stage) : List Command :=
  (parse (stage.solo text)).pipeline.commands.drop (if stage.piped then 1 else 0)

theorem balancedFrom_shift (distance depth : Nat) (tokens : List Token) :
    Stage.balancedFrom depth (tokens.map (Token.shift distance)) =
      Stage.balancedFrom depth tokens := by
  induction tokens generalizing depth with
  | nil => rfl
  | cons token tokens ih =>
      rw [List.map_cons, Stage.balancedFrom, Stage.balancedFrom]
      simp only [ih]
      rfl

theorem noPipe_shift {distance : Nat} {tokens : List Token}
    (noPipe : ∀ token ∈ tokens.map (Token.shift distance), token.kind ≠ .pipe) :
    ∀ token ∈ tokens, token.kind ≠ .pipe :=
  fun token member => noPipe (token.shift distance) (List.mem_map_of_mem member)

theorem map_relocate_zero (x : Option Command) : x.map (Command.relocate (.shift 0)) = x := by
  cases x with
  | none => rfl
  | some command => exact congrArg some command.relocate_none

/-- A text of one stage has the command of that stage. -/
theorem commands_eq_part {part : List Char}
    (noPipe : ∀ token ∈ Token.scanFrom part 0 false 0, token.kind ≠ .pipe)
    (balanced : Stage.balancedFrom 0 (Token.scanFrom part 0 false 0) = true) :
    (parse (String.ofList part)).pipeline.commands =
      (partCommand? false (String.ofList part)).toList := by
  have scan : Token.scan (String.ofList part) = Token.scanFrom part 0 false 0 := by
    rw [Token.scan, String.toList_ofList]
  have single : stages (String.ofList part) =
      [⟨Token.scanFrom part 0 false 0, ⟨0, Text.byteLength (String.ofList part)⟩, false⟩] := by
    rw [stages, scan, Stage.divide_eq_singleton noPipe]
  have whole : (Span.mk 0 (Text.byteLength (String.ofList part))).slice (String.ofList part) =
      String.ofList part := by
    refine slice_eq [] part [] ?_ ?_
    · rw [String.toList_ofList, List.nil_append, List.append_nil]
    · rw [Text.byteLength, String.toList_ofList, Text.width_nil, Nat.zero_add]
  have every : ∀ stage ∈ stages (String.ofList part), stage.balanced = true := by
    rw [single]
    intro stage member
    obtain rfl := List.mem_singleton.mp member
    exact balanced
  rw [commands_eq_stages every, single, List.flatMap_singleton]
  unfold stageCommand?
  rw [whole, map_relocate_zero]

theorem toList_lead (part : List Char) :
    ("FROM a |" ++ String.ofList part).toList = "FROM a |".toList ++ part := by
  rw [String.toList_append]
  exact congrArg ("FROM a |".toList ++ ·) String.toList_ofList

theorem scanFrom_behind_lead (part : List Char) :
    Token.scanFrom part 0 true 8 = (Token.scanFrom part 0 true 0).map (Token.shift 8) := by
  rw [← Token.scanFrom_shift]

/-- A part without pipes is the second stage behind `FROM a |`. -/
theorem stages_lead {part : List Char}
    (noPipe : ∀ token ∈ Token.scanFrom part 0 true 0, token.kind ≠ .pipe) :
    stages ("FROM a |" ++ String.ofList part) =
      [⟨Token.scan "FROM a ", ⟨0, 7⟩, false⟩,
        ⟨Token.scanFrom part 0 true 8,
          ⟨8, Text.byteLength ("FROM a |" ++ String.ofList part)⟩, true⟩] := by
  have scan : Token.scan ("FROM a |" ++ String.ofList part) =
      Token.scan "FROM a " ++ ⟨.pipe, "|", ⟨7, 8⟩⟩ :: Token.scanFrom part 0 true 8 := by
    rw [Token.scan, toList_lead, Token.scanFrom_lead]
  have lead : ∀ token ∈ Token.scan "FROM a ", token.kind ≠ .pipe := by decide +kernel
  have behind : ∀ token ∈ Token.scanFrom part 0 true 8, token.kind ≠ .pipe := by
    intro token member
    rw [scanFrom_behind_lead] at member
    obtain ⟨other, inside, rfl⟩ := List.mem_map.mp member
    exact noPipe other inside
  rw [stages, scan, Stage.divide_eq_cons lead rfl, Stage.divide_eq_singleton behind]

/-- A second stage behind `FROM a |` is the second command, if it is one. -/
theorem commands_eq_lead {part : List Char}
    (noPipe : ∀ token ∈ Token.scanFrom part 0 true 0, token.kind ≠ .pipe)
    (balanced : Stage.balancedFrom 0 (Token.scanFrom part 0 true 0) = true) :
    (parse ("FROM a |" ++ String.ofList part)).pipeline.commands.drop 1 =
      ((partCommand? true (String.ofList part)).map (Command.relocate (.shift 8))).toList := by
  have both := stages_lead noPipe
  have lead : Stage.balancedFrom 0 (Token.scan "FROM a ") = true ∧
      (partCommand? false "FROM a ").isSome = true := by
    decide +kernel
  have first : (Span.mk 0 7).slice ("FROM a |" ++ String.ofList part) = "FROM a " := by
    refine slice_eq [] "FROM a ".toList ('|' :: part) ?_ ?_
    · rw [toList_lead]
      rfl
    · decide +kernel
  have second : (Span.mk 8 (Text.byteLength ("FROM a |" ++ String.ofList part))).slice
      ("FROM a |" ++ String.ofList part) = String.ofList part := by
    refine slice_eq "FROM a |".toList part [] ?_ ?_
    · rw [toList_lead, List.append_nil]
    · rw [Text.byteLength, toList_lead, Text.width_append]
      rfl
  have every : ∀ stage ∈ stages ("FROM a |" ++ String.ofList part), stage.balanced = true := by
    rw [both]
    intro stage member
    rcases List.mem_cons.mp member with rfl | later
    · exact lead.1
    · obtain rfl := List.mem_singleton.mp later
      change Stage.balancedFrom 0 (Token.scanFrom part 0 true 8) = true
      rw [scanFrom_behind_lead, balancedFrom_shift, balanced]
  obtain ⟨source, found⟩ := Option.isSome_iff_exists.mp lead.2
  rw [commands_eq_stages every, both, List.flatMap_cons, List.flatMap_singleton]
  unfold stageCommand?
  rw [first, second, found]
  rfl

theorem alone_eq {text : String} {stage : Stage} (member : stage ∈ stages text)
    (balanced : stage.balanced = true) :
    stage.alone text = ((partCommand? stage.piped (stage.span.slice text)).map
      (Command.relocate (.shift stage.lead))).toList := by
  obtain ⟨before, part, after, split, span, tokens⟩ := stages_stand text stage member
  have noPipe := Stage.noPipe_of_mem_divide member
  have matched := balanced
  unfold Stage.balanced at matched
  rw [tokens] at noPipe matched
  rw [balancedFrom_shift] at matched
  have plain := noPipe_shift noPipe
  unfold Stage.alone Stage.solo Stage.lead
  rw [slice_eq before part after split span]
  cases piped : stage.piped with
  | false =>
      rw [piped] at plain matched
      simp only [Bool.false_eq_true, if_false, List.drop_zero]
      rw [commands_eq_part plain matched, map_relocate_zero]
  | true =>
      rw [piped] at plain matched
      simp only [if_true]
      exact commands_eq_lead plain matched

/-- If the parentheses of every stage of a text match, the commands of the text are those that its
stages are alone, each moved to its place; a stage that is none alone is none in the text. -/
theorem parse_stages {text : String} (balanced : ∀ stage ∈ stages text, stage.balanced = true) :
    ∃ build : Stage → Option Command,
      (parse text).pipeline.commands =
        (stages text).flatMap (fun stage => (build stage).toList) ∧
      ∀ stage ∈ stages text,
        (∀ command ∈ build stage, stage.span.covers command.span = true) ∧
        ∃ base : Option Command,
          build stage = base.map (Command.relocate (.shift stage.span.start)) ∧
          stage.alone text = (base.map (Command.relocate (.shift stage.lead))).toList := by
  refine ⟨stageCommand? text, commands_eq_stages balanced, ?_⟩
  intro stage member
  refine ⟨?_, partCommand? stage.piped (stage.span.slice text), rfl,
    alone_eq member (balanced stage member)⟩
  intro command found
  obtain ⟨before, part, after, split, span, tokens⟩ := stages_stand text stage member
  obtain ⟨base, some, rfl⟩ := Option.map_eq_some_iff.mp (Option.mem_def.mp found)
  rw [slice_eq before part after split span] at some
  have inside := (nested_partCommand? some).fits.stop_le
  rw [Text.byteLength, String.toList_ofList] at inside
  rw [Command.relocate_span, Span.covers_iff, span]
  exact ⟨Nat.le_add_left _ _, by
    change base.span.stop + Text.width before ≤ Text.width before + Text.width part
    omega⟩

theorem parse_stages_faulty :
    (∀ stage ∈ stages "FROM a | WHERE (1 +) 2 | LIMIT 1", stage.balanced = true) ∧
      ∃ build : Stage → Option Command,
        (parse "FROM a | WHERE (1 +) 2 | LIMIT 1").pipeline.commands =
          (stages "FROM a | WHERE (1 +) 2 | LIMIT 1").flatMap
            fun stage => (build stage).toList := by
  have balanced : ∀ stage ∈ stages "FROM a | WHERE (1 +) 2 | LIMIT 1", stage.balanced = true := by
    decide +kernel
  obtain ⟨build, commands, _⟩ := parse_stages balanced
  exact ⟨balanced, build, commands⟩

end Esql
