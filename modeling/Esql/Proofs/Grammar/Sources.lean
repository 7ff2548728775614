import Esql.Proofs.Grammar.Written
import Esql.Proofs.Token.Sources

/-!
# Sources read as arguments

The first argument of a command that reads a source is what stands at the front of the tokens behind
the name of the command. If that takes all of them, it is the only argument, and the command is read
to its end without an error.
-/

namespace Esql.Grammar

variable {s : Reading}

/-- The first item, if there is one, satisfies a condition; without one, something is missing. -/
def Heads {α : Type} (holds : α → Prop) (read : Parts α) : Prop :=
  (∀ item ∈ read.items.head?, holds item) ∧ (read.items = [] → read.complete = false)

theorem Heads.andThen {α : Type} {holds : α → Prop} {first second : Rule (Parts α)}
    (heads : Ensures first s fun read _ => Heads holds read) :
    Ensures (andThen first second) s fun read _ => Heads holds read := by
  unfold Grammar.andThen
  refine heads.bind fun read u begins => ?_
  split
  · rename_i complete
    change Heads holds (read.append _)
    cases items : read.items with
    | nil => exact absurd complete (Bool.eq_false_iff.mp (begins.2 items))
    | cons item rest =>
        rw [Heads, items] at begins
        rw [Heads, Parts.append, items]
        exact ⟨begins.1, fun none => absurd none (List.cons_ne_nil _ _)⟩
  · exact begins

theorem Heads.separated {α : Type} {holds : α → Prop} {item : Rule (Parts α)}
    (heads : Ensures item s fun read _ => Heads holds read) :
    Ensures (separated item) s fun read _ => Heads holds read := by
  unfold Grammar.separated
  rw [ensures_tokens, separatedFrom]
  exact .andThen heads

/-- A source at the front is read. -/
theorem source?_of_sourceRun? {name : String} {count : Nat} {incomplete : Bool}
    (run : sourceRun? s.rest = some (name, count, incomplete)) (kind : SourceKind) :
    Ensures (source? kind) s fun x t => ∃ source : Source, x = some source ∧ source.name = name ∧
      source.incomplete = incomplete ∧ t.rest = s.rest.drop count ∧
      (incomplete = false → t.errors = s.errors) := by
  unfold source?
  simp only [ensures_get, ensures_tokens, run, ensures_skip, ensures_extent]
  split
  · rename_i unclosed
    subst unclosed
    rw [ensures_record]
    exact ⟨_, rfl, rfl, rfl, Reading.rest_skip s count, Bool.noConfusion⟩
  · exact ⟨_, rfl, rfl, rfl, Reading.rest_skip s count, fun _ => Reading.errors_skip s count⟩

theorem source?_of_none (run : sourceRun? s.rest = none) (kind : SourceKind) :
    Ensures (source? kind) s fun x _ => x = none := by
  unfold source?
  rw [ensures_get, ensures_tokens, run]
  rfl

/-- The argument is what is read as a source at the front of some tokens. -/
def IsFront (tokens : List Token) (argument : Argument) : Prop :=
  ∃ (source : Source) (count : Nat), argument = .source source ∧
    sourceRun? tokens = some (source.name, count, source.incomplete)

theorem heads_sourceArgument (kind : SourceKind) (what : Expectation) (s : Reading) :
    Ensures (sourceArgument kind what) s fun read _ => Heads (IsFront s.rest) read := by
  unfold sourceArgument
  cases run : sourceRun? s.rest with
  | none =>
      refine (source?_of_none run kind).bind ?_
      rintro _ u rfl
      exact ⟨nofun, fun _ => rfl⟩
  | some found =>
      obtain ⟨name, count, incomplete⟩ := found
      refine (source?_of_sourceRun? run kind).bind ?_
      rintro _ u ⟨source, rfl, rfl, rfl, -, -⟩
      refine ⟨?_, nofun⟩
      rintro _ ⟨⟩
      exact ⟨source, count, rfl, run⟩

theorem heads_fromArguments (s : Reading) :
    Ensures fromArguments s fun read _ => Heads (IsFront s.rest) read :=
  .andThen (.separated (heads_sourceArgument _ _ s))

theorem heads_enrichArguments (s : Reading) :
    Ensures enrichArguments s fun read _ => Heads (IsFront s.rest) read :=
  .andThen (heads_sourceArgument _ _ s)

/-- A complete source of this name is all that was read. -/
def ReadsSource (name : String) (read : Parts Argument) : Prop :=
  ∃ source : Source, read = ⟨[.source source], true⟩ ∧ source.name = name ∧
    source.incomplete = false

/-- A complete source of this name is read up to the end of the tokens, without an error. -/
def ReadsWhole (name : String) (s : Reading) (read : Parts Argument) (t : Reading) : Prop :=
  ReadsSource name read ∧ t.errors = s.errors ∧ t.rest = []

/-- Nothing is read at the end of the tokens. -/
def Idle (rule : Rule (Parts Argument)) : Prop :=
  ∀ s : Reading, s.rest = [] → Ensures rule s fun read t => read = .none ∧ t = s

theorem Idle.optionalClause (name : String) (keyword : Keyword) (body : Rule (Parts Expr)) :
    Idle (optionalClause name keyword body) := by
  intro s ended
  unfold Grammar.optionalClause acceptWord? accept?
  rw [ensures_bind_assoc, ensures_tokens, ended]
  exact ⟨rfl, rfl⟩

theorem Idle.metadataClause : Idle metadataClause := by
  intro s ended
  unfold Grammar.metadataClause
  rw [ensures_tokens, ended]
  exact Idle.optionalClause _ _ _ s ended

theorem Idle.andThen {first second : Rule (Parts Argument)} (front : Idle first)
    (back : Idle second) : Idle (andThen first second) := by
  intro s ended
  unfold Grammar.andThen
  refine (front s ended).bind ?_
  rintro _ _ ⟨rfl, rfl⟩
  refine (back _ ended).bind ?_
  rintro _ _ ⟨rfl, rfl⟩
  exact ⟨rfl, rfl⟩

theorem ReadsWhole.andThen {name : String} {first second : Rule (Parts Argument)}
    (reads : Ensures first s (ReadsWhole name s)) (idle : Idle second) :
    Ensures (andThen first second) s (ReadsWhole name s) := by
  unfold Grammar.andThen
  refine reads.bind ?_
  rintro _ u ⟨⟨source, rfl, same, complete⟩, errors, ended⟩
  refine (idle u ended).bind ?_
  rintro _ _ ⟨rfl, rfl⟩
  exact ⟨⟨source, rfl, same, complete⟩, errors, ended⟩

theorem ReadsWhole.separated {name : String} {item : Rule (Parts Argument)}
    (reads : Ensures item s (ReadsWhole name s)) :
    Ensures (separated item) s (ReadsWhole name s) := by
  unfold Grammar.separated
  rw [ensures_tokens]
  refine separatedFrom_one (reads.mono fun read t all => ?_)
  obtain ⟨⟨source, rfl, -⟩, -, ended⟩ := id all
  exact ⟨rfl, ended, all⟩

section

variable {name : String} (run : sourceRun? s.rest = some (name, s.rest.length, false))

include run

theorem readsWhole_sourceArgument (kind : SourceKind) (what : Expectation) :
    Ensures (sourceArgument kind what) s (ReadsWhole name s) := by
  unfold sourceArgument
  refine (source?_of_sourceRun? run kind).bind ?_
  rintro _ t ⟨source, rfl, same, complete, left, errors⟩
  have whole : Parts.one (Argument.source source) source.incomplete = ⟨[.source source], true⟩ := by
    rw [Parts.one, complete]
    rfl
  exact ⟨⟨source, whole, same, complete⟩, errors rfl, left.trans List.drop_length⟩

theorem readsWhole_fromArguments : Ensures fromArguments s (ReadsWhole name s) :=
  .andThen (.separated (readsWhole_sourceArgument run _ _)) .metadataClause

theorem readsWhole_enrichArguments : Ensures enrichArguments s (ReadsWhole name s) :=
  .andThen (readsWhole_sourceArgument run _ _)
    (.andThen (.optionalClause _ _ _) (.optionalClause _ _ _))

end

/-! ## Queries with one source behind a verb -/

theorem isLater_enrich : IsLater .enrich :=
  ⟨⟨'E', ['N', 'R', 'I', 'C', 'H'], by decide +kernel⟩, by decide +kernel, by decide +kernel,
    by decide +kernel, rfl⟩

/-- The text behind FROM, and the commands that are read with it. -/
theorem ensures_from {text : String} {list : List Char}
    (whole : text.toList = 'F' :: (['R', 'O', 'M'] ++ ' ' :: list)) {bound : Nat}
    {args : Parts Argument → Reading → Prop} {post : Stages → Reading → Prop}
    (reads : ∀ s : Reading, s.rest = Token.scanFrom list 0 false 5 → s.errors = [] →
      Ensures fromArguments s args)
    (behind : ∀ (command : Command) (read : Parts Argument) (u t : Reading), args read u →
      Closes read.complete u t → command.name = "from" → command.args = read.items →
      command.incomplete = !read.complete →
      Ensures (afterCommand (bound + 1) false ⟨[command], command.incomplete⟩) t post) :
    Ensures (stagesFrom (bound + 2) false ⟨[], false⟩) (.start text (Token.scan text)) post := by
  have scanned : Token.scan text =
      ⟨.word "FROM", "FROM", ⟨0, 4⟩⟩ :: Token.scanFrom list 0 false 5 := by
    rw [Token.scan, whole]
    exact Token.scanFrom_word 'F' ['R', 'O', 'M'] (by decide +kernel) (by decide +kernel)
      (by decide +kernel) false 0 list
  let opened : Reading := .start text (Token.scan text)
  have front : opened.rest =
      ⟨.word "FROM", "FROM", ⟨0, 4⟩⟩ :: Token.scanFrom list 0 false 5 := scanned
  have sourced : Ensures (arguments (branches bound) false .from) opened.advance args :=
    reads _ (Reading.advance_rest front) (Reading.errors_advance _)
  have placed (display : String) : misplaced? .from display true false = none := rfl
  have lower : Token.lower ⟨.word "FROM", "FROM", ⟨0, 4⟩⟩ = "from" := by decide +kernel
  change Ensures _ opened post
  unfold Ensures
  rw [run_stagesFrom_command front TokenKind.noConfusion]
  refine (ensures_command front rfl (by decide +kernel) (by decide +kernel) (placed _)
    sourced).bind ?_
  rintro _ t ⟨command, read, u, rfl, holds, closes, title, items, whole⟩
  exact behind command read u t holds closes (title.trans lower) items whole

/-- What the tree of a query that begins with FROM and its errors are, from the arguments that are
read for it and what is done behind them. -/
theorem parse_from {text : String} {list : List Char}
    (whole : text.toList = 'F' :: (['R', 'O', 'M'] ++ ' ' :: list))
    (args : Parts Argument → Reading → Prop) (post : List Command → List SyntaxError → Prop)
    (reads : ∀ s : Reading, s.rest = Token.scanFrom list 0 false 5 → s.errors = [] →
      Ensures fromArguments s args)
    (behind : ∀ (bound : Nat) (command : Command) (read : Parts Argument) (u t : Reading),
      args read u → Closes read.complete u t → command.name = "from" →
      command.args = read.items → command.incomplete = !read.complete →
      Ensures (afterCommand bound false ⟨[command], command.incomplete⟩) t
        fun stages v => post stages.commands v.errors) :
    post (parse text).pipeline.commands (parse text).errors := by
  obtain ⟨commands, errors⟩ := parse_eq text
  rw [← commands, ← errors]
  have read : Ensures (stagesFrom (8 * (Token.scan text).length + 5 + 2) false ⟨[], false⟩)
      (.start text (Token.scan text)) fun stages t => post stages.commands t.errors :=
    ensures_from whole reads (behind _)
  exact read

end Esql.Grammar

namespace Esql

open Grammar

/-- The first argument of the command is a complete source of this name. -/
def Command.RefersTo (name : String) (command : Command) : Prop :=
  ∃ source : Source, command.args.head? = some (.source source) ∧ source.name = name ∧
    source.incomplete = false

/-- The command is complete, and a complete source of this name is its only argument. -/
def Command.RefersOnlyTo (name : String) (command : Command) : Prop :=
  command.incomplete = false ∧ ∃ source : Source, command.args = [.source source] ∧
    source.name = name ∧ source.incomplete = false

section

variable {name text : String} {list : List Char} {command : Command}

theorem exists_sourceRun?_of_heads {tokens : List Token} {read : Parts Argument}
    (heads : Heads (IsFront tokens) read) (items : command.args = read.items)
    (refers : command.RefersTo name) :
    ∃ count, sourceRun? tokens = some (name, count, false) := by
  obtain ⟨source, first, rfl, complete⟩ := refers
  rw [items] at first
  obtain ⟨found, count, same, run⟩ := heads.1 _ first
  cases same
  exact ⟨count, complete ▸ run⟩

/-- A source command refers to what stands at its front, -/
theorem exists_sourceRun?_of_from (whole : text.toList = 'F' :: (['R', 'O', 'M'] ++ ' ' :: list))
    (first : (parse text).pipeline.commands.head? = some command)
    (refers : command.RefersTo name) :
    ∃ count, sourceRun? (Token.scanFrom list 0 false 5) = some (name, count, false) := by
  refine parse_from whole
    (fun read _ => Heads (IsFront (Token.scanFrom list 0 false 5)) read)
    (fun commands _ => commands.head? = some command →
      ∃ count, sourceRun? (Token.scanFrom list 0 false 5) = some (name, count, false)) ?_ ?_ first
  · intro s front _
    rw [← front]
    exact heads_fromArguments s
  · intro bound found read u t heads _ _ items _
    refine (prefix_afterCommand bound _ t).mono fun stages _ goes first => ?_
    obtain ⟨others, same⟩ := goes
    rw [← same] at first
    cases first
    exact exists_sourceRun?_of_heads heads items refers

/-- and to nothing else if that is all. -/
theorem refersOnlyTo_of_from (whole : text.toList = 'F' :: (['R', 'O', 'M'] ++ ' ' :: list))
    (run : sourceRun? (Token.scanFrom list 0 false 5) =
      some (name, (Token.scanFrom list 0 false 5).length, false)) :
    (parse text).errors = [] ∧ ∃ command, (parse text).pipeline.commands = [command] ∧
      command.name = "from" ∧ command.RefersOnlyTo name := by
  refine parse_from whole (fun read t => ReadsSource name read ∧ t.errors = [] ∧ t.rest = [])
    (fun commands errors => errors = [] ∧ ∃ command, commands = [command] ∧
      command.name = "from" ∧ command.RefersOnlyTo name) ?_ ?_
  · intro s front clean
    rw [← front] at run
    exact (readsWhole_fromArguments run).mono fun read t all =>
      ⟨all.1, all.2.1.trans clean, all.2.2⟩
  · rintro bound command _ u t ⟨⟨source, rfl, same, complete⟩, clean, ended⟩ closes named items
      whole
    obtain rfl := closes.eq_of_ended rfl ended
    unfold Ensures
    rw [run_afterCommand_nil ended]
    exact ⟨clean, command, rfl, named, whole, source, items, same, complete⟩

/-- So does an enrich command behind a source, -/
theorem exists_sourceRun?_of_enrich
    (whole : text.toList = "FROM a |".toList ++ ' ' :: (Verb.enrich.label.toList ++ ' ' :: list))
    (second : (parse text).pipeline.commands[1]? = some command)
    (refers : command.RefersTo name) :
    ∃ count, sourceRun? (Token.scanFrom list 0 false (listStart .enrich)) =
      some (name, count, false) := by
  refine parse_stage isLater_enrich whole
    (fun read _ => Heads (IsFront (Token.scanFrom list 0 false (listStart .enrich))) read)
    (fun commands _ => commands[1]? = some command →
      ∃ count, sourceRun? (Token.scanFrom list 0 false (listStart .enrich)) =
        some (name, count, false)) ?_ ?_ second
  · intro bound s front _
    rw [← front]
    exact heads_enrichArguments s
  · intro bound source found read u t heads _ _ items _
    refine (prefix_afterCommand bound _ t).mono fun stages _ goes second => ?_
    obtain ⟨others, same⟩ := goes
    rw [← same] at second
    cases second
    exact exists_sourceRun?_of_heads heads items refers

theorem refersOnlyTo_of_enrich
    (whole : text.toList = "FROM a |".toList ++ ' ' :: (Verb.enrich.label.toList ++ ' ' :: list))
    (run : sourceRun? (Token.scanFrom list 0 false (listStart .enrich)) =
      some (name, (Token.scanFrom list 0 false (listStart .enrich)).length, false)) :
    (parse text).errors = [] ∧ ∃ source command,
      (parse text).pipeline.commands = [source, command] ∧ command.name = "enrich" ∧
      command.RefersOnlyTo name := by
  refine parse_stage isLater_enrich whole
    (fun read t => ReadsSource name read ∧ t.errors = [] ∧ t.rest = [])
    (fun commands errors => errors = [] ∧ ∃ source command, commands = [source, command] ∧
      command.name = "enrich" ∧ command.RefersOnlyTo name) ?_ ?_
  · intro bound s front clean
    rw [← front] at run
    exact (readsWhole_enrichArguments run).mono fun read t all =>
      ⟨all.1, all.2.1.trans clean, all.2.2⟩
  · rintro bound first command _ u t ⟨⟨source, rfl, same, complete⟩, clean, ended⟩ closes named
      items whole
    obtain rfl := closes.eq_of_ended rfl ended
    unfold Ensures
    rw [run_afterCommand_nil ended]
    exact ⟨clean, first, command, rfl, named, whole, source, items, same, complete⟩

end

end Esql
