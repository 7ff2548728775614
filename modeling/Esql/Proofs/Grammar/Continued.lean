import Esql.Proofs.Candid.Expression
import Esql.Proofs.Frame.Reach

/-!
# A word behind the last pipe

A query that ends with a pipe and the same query with a word behind that pipe have the same
commands, by their names. If the pipe belongs to the query itself and not to a branch or to what
could not be read, the word is the name of one command more.
-/

namespace Esql.Grammar

/-- The command has this name. -/
def Named (name : CommandName) (command : Command) : Prop :=
  command.name = name.name ∧ command.nameSpan = name.span

theorem finishCommand_named (name : CommandName) (stop : Nat) (read : Parts Argument) :
    Yields (finishCommand name stop read) (Named name) :=
  .after fun _ => .pure ⟨rfl, rfl⟩

theorem commandBody_named (name : CommandName) (args : Rule (Parts Argument)) (nested : Bool) :
    Yields (commandBody name args nested) (Named name) := by
  intro s
  have made := commandBody_made name args nested s
  exact ⟨made.named, made.spanned⟩

theorem namedCommand_named (bound : Nat) (first nested : Bool) (name : CommandName) :
    Yields (namedCommand bound first nested name) fun x =>
      ∃ command, x = some command ∧ Named name command := by
  have one {rule : Rule Command} (named : Yields rule (Named name)) :
      Yields (do pure (some (← rule))) fun x => ∃ command, x = some command ∧ Named name command :=
    named.bind fun command here => .pure ⟨command, rfl, here⟩
  unfold namedCommand
  split
  · exact one (.after fun _ => .after fun _ => finishCommand_named name _ _)
  · rename_i verb _
    refine one ?_
    rw [knownCommand_eq]
    split
    · exact .after fun _ => commandBody_named name _ nested
    · exact commandBody_named name _ nested

/-- A command has the name that it starts with. -/
theorem command?_named (bound : Nat) (first nested : Bool) {s : Reading} {token : Token}
    {rest : List Token} (front : s.rest = token :: rest) (starts : startsCommand token = true) :
    ∃ command, ((command? (bound + 1) first nested).run s).1 = some command ∧
      Named ((commandName token).run s).1 command := by
  rw [run_command? bound first nested front, commandAt, if_pos starts]
  exact namedCommand_named bound first nested _ ((commandName token).run s).2

theorem command?_unnamed (bound : Nat) (first nested : Bool) {s : Reading} {token : Token}
    {rest : List Token} (front : s.rest = token :: rest) (starts : startsCommand token = false) :
    ((command? (bound + 1) first nested).run s).1 = none := by
  rw [run_command? bound first nested front, commandAt, if_neg (by simp [starts])]
  rfl

/-- The names of some commands. -/
def names (commands : List Command) : List String := commands.map (·.name)

/-- The second list of commands is the first one, by the names, or has one command more, for a
word. -/
def Continues (word? : Option Token) (earlier later : List Command) : Prop :=
  names later = names earlier ∨ ∃ front command word, later = front ++ [command] ∧
    names front = names earlier ∧ word? = some word ∧ Named ⟨word.lower, none, word.span⟩ command

theorem names_add {stages others : Stages} {x y : Option Command}
    (before : names others.commands = names stages.commands)
    (same : y.map (·.name) = x.map (·.name)) :
    names (others.add y).commands = names (stages.add x).commands := by
  unfold names at before ⊢
  rw [commands_add, commands_add, List.map_append, List.map_append, before, ← Option.toList_map,
    ← Option.toList_map, same]

theorem isEmpty_eq_of_names {earlier later : List Command} (same : names later = names earlier) :
    later.isEmpty = earlier.isEmpty := by
  have lengths := congrArg List.length same
  unfold names at lengths
  rw [List.length_map, List.length_map] at lengths
  cases later <;> cases earlier <;> simp_all

theorem any_eq_of_names {earlier later : List Command}
    (same : names later = names earlier) (name : String) :
    (later.any fun command => command.name == name) =
      earlier.any fun command => command.name == name := by
  have both := congrArg (List.any · (· == name)) same
  rw [names, names, List.any_map, List.any_map] at both
  exact both

/-- No pipe is left where at most the word is. -/
theorem not_isAt_pipe {word? : Option Token} {s u : Reading} (follows : Follows s u)
    (ends : word?.toList <:+ s.rest)
    (short : u.rest.length ≤ word?.toList.length) (noPipe : ∀ word ∈ word?, word.kind ≠ .pipe) :
    u.isAt .pipe = false := by
  obtain ⟨read, leads⟩ := follows
  have back : u.rest <:+ word?.toList :=
    List.suffix_of_suffix_length_le ⟨read, leads.rest.symm⟩ ends short
  unfold Reading.isAt
  cases left : u.rest with
  | nil => rfl
  | cons token others =>
      rw [left] at back
      have member : token ∈ word? := Option.mem_toList.mp (back.subset List.mem_cons_self)
      simpa using noPipe token member

/-- A command that no pipe follows is the last one. -/
theorem run_command?_last {bound further : Nat} {first : Bool} {stages : Stages} {s : Reading}
    (last : ((command? bound first false).run s).2.isAt .pipe = false) :
    ((command? bound first false >>= fun x => afterCommand further false (stages.add x)).run s).1 =
      stages.add ((command? bound first false).run s).1 := by
  rw [StateT.run_bind]
  exact congrArg Prod.fst (run_afterCommand_other last)

/-- The word behind the last pipe of a query is one command more, if it can be one. -/
theorem continues_word {bound : Nat} {stages others : Stages} {word? : Option Token} {s : Reading}
    (rest : s.rest = word?.toList) (noPipe : ∀ word ∈ word?, word.kind ≠ .pipe)
    (covers : Covers 2 bound s) (same : names others.commands = names stages.commands) :
    Continues word? stages.commands ((stagesFrom bound false others).run s).1.commands := by
  obtain ⟨bound, rfl⟩ := covers.exists_succ
  cases word? with
  | none =>
      rw [run_stagesFrom_nil rest]
      exact .inl same
  | some word =>
      have front : s.rest = [word] := rest
      obtain ⟨bound, rfl⟩ := covers.pred.exists_succ
      have follows := Forward.command? (bound + 1) others.commands.isEmpty false s
      have short := Follows.length_le follows
      rw [rest] at short
      have last := not_isAt_pipe follows (rest ▸ List.suffix_rfl) short noPipe
      rw [run_stagesFrom_command front (noPipe word rfl), run_command?_last last, commands_add]
      cases starts : startsCommand word with
      | true =>
          obtain ⟨command, found, named⟩ :=
            command?_named bound others.commands.isEmpty false front starts
          rw [found]
          have single : ((commandName word).run s).1 = ⟨word.lower, none, word.span⟩ := by
            obtain ⟨source, tokens, lastStop, errors⟩ := s
            subst rest
            rfl
          rw [single] at named
          exact .inr ⟨_, command, word, rfl, same, rfl, named⟩
      | false =>
          rw [command?_unnamed bound others.commands.isEmpty false front starts]
          exact .inl (by rw [Option.toList_none, List.append_nil, same])

/-- In two texts that go on differently behind a stage a command has the same name. -/
theorem name_command?_embed (φ ψ : Frame) {n m : Nat} (first nested : Bool) {s : Reading}
    {token : Token} {rest : List Token} (front : s.rest = token :: rest) (small : Covers 1 n s)
    (large : Covers 1 m s) :
    ((command? m first nested).run (ψ.embed s)).1.map (·.name) =
      ((command? n first nested).run (φ.embed s)).1.map (·.name) := by
  obtain ⟨n, rfl⟩ := small.exists_succ
  obtain ⟨m, rfl⟩ := large.exists_succ
  have written (χ : Frame) : ((commandName (χ.token token)).run (χ.embed s)).1.name =
      ((commandName token).run s).1.name := by
    rw [commandName_mirrors χ front]
    rfl
  cases starts : startsCommand token with
  | true =>
      obtain ⟨command, found, named, _⟩ :=
        command?_named n first nested (φ.embed_rest_cons front) starts
      obtain ⟨command', found', named', _⟩ :=
        command?_named m first nested (ψ.embed_rest_cons front) starts
      rw [found, found', Option.map_some, Option.map_some, named, named', written, written]
  | false =>
      rw [command?_unnamed n first nested (φ.embed_rest_cons front) starts,
        command?_unnamed m first nested (ψ.embed_rest_cons front) starts]

theorem length_embed_advance (φ : Frame) {s : Reading} {token : Token} {rest : List Token}
    (front : s.rest = token :: rest) :
    (φ.embed s.advance).rest.length + 1 ≤ (φ.embed s).rest.length := by
  have embedded := φ.embed_rest_cons front
  rw [← φ.advance_embed front, Reading.advance_rest embedded, embedded]
  exact Nat.le_refl _

/-- Two queries that are alike up to a pipe, behind which the first one ends and the second one has
at most a word. -/
structure Apart (φ ψ : Frame) (word? : Option Token) : Prop where
  first : ∃ pipe, φ.beyond = [pipe] ∧ pipe.kind = .pipe
  second : ∃ pipe, ψ.beyond = pipe :: word?.toList ∧ pipe.kind = .pipe
  noPipe : ∀ word ∈ word?, word.kind ≠ .pipe

namespace Apart

variable {φ ψ : Frame} {word? : Option Token} (apart : Apart φ ψ word?)

include apart

theorem piped : φ.beyond ≠ [] := by
  obtain ⟨pipe, behind, -⟩ := apart.first
  simp [behind]

theorem piped' : ψ.beyond ≠ [] := by
  obtain ⟨pipe, behind, -⟩ := apart.second
  simp [behind]

/-- At the end of what is alike, the pipe and the word are left. -/
theorem at_end {n m : Nat} {stages others : Stages} {s : Reading} (ended : s.rest = [])
    (small : Covers 2 n (φ.embed s)) (large : Covers 2 m (ψ.embed s))
    (same : names others.commands = names stages.commands) :
    Continues word? ((stagesFrom n false stages).run (φ.embed s)).1.commands
      ((stagesFrom m false others).run (ψ.embed s)).1.commands := by
  obtain ⟨pipe, behind, found⟩ := apart.first
  obtain ⟨pipe', behind', found'⟩ := apart.second
  obtain ⟨n, rfl⟩ := small.exists_succ
  obtain ⟨m, rfl⟩ := large.exists_succ
  obtain ⟨n, rfl⟩ := small.pred.exists_succ
  have front : (φ.embed s).rest = [pipe] := (φ.embed_rest_nil ended).trans behind
  have front' : (ψ.embed s).rest = pipe' :: word?.toList := (ψ.embed_rest_nil ended).trans behind'
  have left : ((φ.embed s).advance.record ⟨.pipeWithoutCommand, pipe.span⟩).rest = [] :=
    Reading.advance_rest front
  have rest : ((ψ.embed s).advance.record ⟨.pipeWithoutCommand, pipe'.span⟩).rest =
      word?.toList := Reading.advance_rest front'
  rw [run_stagesFrom_pipe front found, run_stagesFrom_nil left, run_stagesFrom_pipe front' found']
  refine continues_word rest apart.noPipe (large.pred.less ?_ (by decide)) same
  rw [rest, front']
  exact Nat.le_refl _

/-- Behind a command that both queries read to the same place, they go on alike. -/
theorem behind_command {n m : Nat} {stages others : Stages} {t : Reading}
    (same : names others.commands = names stages.commands) (large : Covers 2 (m + 1) (ψ.embed t))
    (next : ∀ pipe rest, t.rest = pipe :: rest →
      Continues word? ((stagesFrom n false stages).run (φ.embed t.advance)).1.commands
        ((stagesFrom m false others).run (ψ.embed t.advance)).1.commands) :
    Continues word? ((afterCommand n false stages).run (φ.embed t)).1.commands
      ((afterCommand m false others).run (ψ.embed t)).1.commands := by
  cases left : t.rest with
  | nil =>
      obtain ⟨pipe, behind, found⟩ := apart.first
      obtain ⟨pipe', behind', found'⟩ := apart.second
      have front : (φ.embed t).rest = [pipe] := (φ.embed_rest_nil left).trans behind
      have front' : (ψ.embed t).rest = pipe' :: word?.toList :=
        (ψ.embed_rest_nil left).trans behind'
      rw [run_afterCommand_pipe front found, if_pos rfl, run_afterCommand_pipe front' found']
      split
      · exact .inl same
      · refine continues_word (Reading.advance_rest front') apart.noPipe ?_ same
        refine large.pred.less ?_ (by decide)
        rw [Reading.advance_rest front', front']
        exact Nat.le_refl _
  | cons token rest =>
      by_cases pipe : token.kind = .pipe
      · have more {χ : Frame} (piped : χ.beyond ≠ []) : rest.map χ.token ++ χ.beyond ≠ [] :=
          fun none => piped (List.append_eq_nil_iff.mp none).2
        rw [run_afterCommand_pipe (φ.embed_rest_cons left) pipe, if_neg (more apart.piped),
          run_afterCommand_pipe (ψ.embed_rest_cons left) pipe, if_neg (more apart.piped'),
          φ.advance_embed left, ψ.advance_embed left]
        exact next token rest left
      · have other (χ : Frame) : (χ.embed t).isAt .pipe = false := by
          simp [Reading.isAt, χ.embed_rest_cons left, pipe]
        rw [run_afterCommand_other (other φ), run_afterCommand_other (other ψ)]
        exact .inl same

/-- A command is read to the same place in both queries, or past the pipe in both. -/
theorem command?_alike {n m : Nat} (first : Bool) {s : Reading} {token : Token} {rest : List Token}
    (front : s.rest = token :: rest) (small : Covers 1 n s) (large : Covers 1 m s) :
    (∃ t, t.rest.length ≤ s.rest.length ∧
      ((command? n first false).run (φ.embed s)).2 = φ.embed t ∧
      ((command? m first false).run (ψ.embed s)).2 = ψ.embed t) ∨
    ((command? n first false).run (φ.embed s)).2.isAt .pipe = false ∧
      ((command? m first false).run (ψ.embed s)).2.isAt .pipe = false := by
  have present : s.rest ≠ [] := by
    rw [front]
    exact List.cons_ne_nil _ _
  have forth : PipelineStays φ ψ n := pipelineStays apart.piped n
  have back : PipelineStays ψ φ m := pipelineStays apart.piped' m
  by_cases stays : Stays φ (command? n first false) s
  · left
    have other := forth.command? m first false s present small large stays
    have passed := Forward.command? n first false s
    refine ⟨_, Follows.length_le passed, ?_, ?_⟩
    · exact congrArg Prod.snd
        ((pipelineMirrors φ n).command? n first false s present small small stays)
    · exact congrArg Prod.snd
        ((pipelineMirrors ψ n).command? m first false s present small large other)
  · right
    have other := mt (back.command? n first false s present large small) stays
    obtain ⟨pipe, behind, -⟩ := apart.first
    obtain ⟨pipe', behind', -⟩ := apart.second
    unfold Stays at stays other
    rw [behind, List.length_singleton] at stays
    rw [behind', List.length_cons] at other
    constructor
    · have none : (Option.none : Option Token).toList <:+ (φ.embed s).rest := List.nil_suffix
      exact not_isAt_pipe (Forward.command? n first false _) none (by omega) nofun
    · have word : word?.toList <:+ (ψ.embed s).rest :=
        ⟨s.rest.map ψ.token ++ [pipe'], by simp [Frame.embed, behind']⟩
      exact not_isAt_pipe (Forward.command? m first false _) word (by omega) apart.noPipe

/-- The commands of the second query are those of the first one, by their names, or the word is one
command more. -/
theorem continues {n m : Nat} {stages others : Stages} {s : Reading}
    (small : Covers 2 n (φ.embed s)) (large : Covers 2 m (ψ.embed s))
    (same : names others.commands = names stages.commands) :
    Continues word? ((stagesFrom n false stages).run (φ.embed s)).1.commands
      ((stagesFrom m false others).run (ψ.embed s)).1.commands := by
  induction n generalizing m s stages others with
  | zero => cases small
  | succ n ih =>
      obtain ⟨m, rfl⟩ := large.exists_succ
      cases front : s.rest with
      | nil => exact apart.at_end front small large same
      | cons token rest =>
          have embedded (χ : Frame) := χ.embed_rest_cons front
          by_cases pipe : token.kind = .pipe
          · rw [run_stagesFrom_pipe (embedded φ) pipe, run_stagesFrom_pipe (embedded ψ) pipe]
            have passed (χ : Frame) :
                (χ.embed s).advance.record ⟨.pipeWithoutCommand, (χ.token token).span⟩ =
                  χ.embed (s.advance.record ⟨.pipeWithoutCommand, token.span⟩) := by
              rw [χ.advance_embed front, ← χ.record_embed]
              rfl
            rw [passed φ, passed ψ]
            exact ih (small.pred.less (length_embed_advance φ front) (by decide))
              (large.pred.less (length_embed_advance ψ front) (by decide)) same
          · rw [run_stagesFrom_command (embedded φ) pipe, run_stagesFrom_command (embedded ψ) pipe,
              isEmpty_eq_of_names same]
            have within {χ : Frame} {k : Nat} (covers : Covers 2 (k + 1) (χ.embed s)) :
                Covers 1 k s := covers.pred.mono (by simp [Frame.embed]) (Nat.le_refl 1)
            have added := names_add same (name_command?_embed φ ψ stages.commands.isEmpty false
              front (within small) (within large))
            rcases apart.command?_alike stages.commands.isEmpty front (within small) (within large)
              with ⟨t, shorter, left, right⟩ | ⟨left, right⟩
            · rw [StateT.run_bind, StateT.run_bind]
              change Continues word?
                ((afterCommand n false (stages.add _)).run
                  ((command? n stages.commands.isEmpty false).run (φ.embed s)).2).1.commands
                ((afterCommand m false (others.add _)).run
                  ((command? m stages.commands.isEmpty false).run (ψ.embed s)).2).1.commands
              have below (χ : Frame) : (χ.embed t).rest.length ≤ (χ.embed s).rest.length := by
                simpa [Frame.embed] using shorter
              rw [left, right]
              refine apart.behind_command added (large.mono (below ψ) (Nat.le_refl 2)) ?_
              intro pipe rest behind
              have less (χ : Frame) : (χ.embed t.advance).rest.length + 1 ≤
                  (χ.embed s).rest.length :=
                Nat.le_trans (length_embed_advance χ behind) (below χ)
              exact ih (small.pred.less (less φ) (by decide)) (large.pred.less (less ψ) (by decide))
                added
            · rw [run_command?_last left, run_command?_last right]
              exact .inl added

end Apart

end Esql.Grammar

namespace Esql

/-- A word behind the last pipe of a text is one command more, or changes the name of no command. -/
theorem continues_parse {text longer : String} {front : List Token} {pipe : Token}
    {word? : Option Token} (found : pipe.kind = .pipe) (noPipe : ∀ word ∈ word?, word.kind ≠ .pipe)
    (tokens : Token.scan text = front ++ [pipe])
    (more : Token.scan longer = front ++ pipe :: word?.toList) :
    Grammar.Continues word? (parse text).pipeline.commands (parse longer).pipeline.commands := by
  let s : Grammar.Reading := .start text (Token.scan text)
  let t : Grammar.Reading := .start longer (Token.scan longer)
  have closed (rest : List Token) : ∀ token ∈ (pipe :: rest).head?, token.kind = .pipe := by
    rintro _ ⟨⟩
    exact found
  let φ := Grammar.Frame.inPlace s [pipe] (closed [])
  let ψ := Grammar.Frame.inPlace t (pipe :: word?.toList) (closed _)
  have first : φ.embed ⟨"", front, 0, []⟩ = s := Grammar.Frame.embed_inPlace (closed []) tokens ""
  have second : ψ.embed ⟨"", front, 0, []⟩ = t := Grammar.Frame.embed_inPlace (closed _) more ""
  have apart : Grammar.Apart φ ψ word? := ⟨⟨pipe, rfl, found⟩, ⟨pipe, rfl, found⟩, noPipe⟩
  have small := Grammar.covers_start text
  have large := Grammar.covers_start longer
  change Grammar.Covers 2 _ s at small
  change Grammar.Covers 2 _ t at large
  rw [← (parse_eq text).1, ← (parse_eq longer).1]
  change Grammar.Continues word? ((Grammar.stagesFrom _ false ⟨[], false⟩).run s).1.commands
    ((Grammar.stagesFrom _ false ⟨[], false⟩).run t).1.commands
  rw [← first] at small ⊢
  rw [← second] at large ⊢
  exact apart.continues small large rfl

end Esql
