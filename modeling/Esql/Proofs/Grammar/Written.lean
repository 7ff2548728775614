import Esql.Proofs.Grammar.Stages
import Esql.Proofs.Token.Names

/-!
# Written names read back

A list of columns is read from the names that are written for them, with commas between, if each
name is quoted or each of its stretches is read. The first name of another kind leaves the list
unfinished.
-/

namespace Esql.Grammar

open Text.Quoted

section

variable {β : Type} {kind : TokenKind} {next : Bool → Rule β} {s : Reading}
  {post : β → Reading → Prop}

theorem ensures_accepted (front : s.isAt kind = true) :
    Ensures (accept kind >>= next) s post ↔ Ensures (next true) s.advance post := by
  unfold Ensures
  rw [StateT.run_bind, run_accept, if_pos front]
  rfl

theorem ensures_refused (front : s.isAt kind = false) :
    Ensures (accept kind >>= next) s post ↔ Ensures (next false) s post := by
  unfold Ensures
  rw [StateT.run_bind, run_accept, front]
  rfl

end

/-- A column that is spelled at the front is read. -/
theorem column?_of_spells {s : Reading} {stars : Bool} {parts : List String} {start stop : Nat}
    {first : Token} {others rest : List Token}
    (spells : SpellsColumn stars parts start stop first others) (ended : parts.getLast? ≠ some "")
    (front : s.rest = first :: (others ++ rest))
    (ends : ∀ next ∈ rest.head?, continuesColumn stars next.kind = false) :
    Ensures (column? stars) s fun x t => (∃ column, x = some column ∧
      column.name = Text.join "." parts ∧ column.incomplete = false ∧ column.parts = parts ∧
      column.quoted = (first :: others).any fun token => isQuoted token.kind) ∧
        t.errors = s.errors ∧ t.rest = rest := by
  have unclosed : (first :: others).any (fun token => isUnclosed token.kind) = false :=
    List.any_eq_false.mpr fun token member => by
      rw [spells.closed token member]
      exact Bool.false_ne_true
  have dangling : (parts.getLast? == some "") = false := beq_eq_false_iff_ne.mpr ended
  have left : s.rest.drop (first :: others).length = rest := by
    rw [front, ← List.cons_append, List.drop_left]
  unfold column?
  rw [ensures_tokens, front, spells.columnRun ends]
  dsimp only
  rw [unclosed, spells.parts, dangling]
  exact ⟨⟨_, rfl, rfl, rfl, rfl, rfl⟩, Reading.errors_skip s _,
    (Reading.rest_skip s _).trans left⟩

/-- Where the last part of a column is empty, no complete column is read. -/
theorem column?_of_dangling {s : Reading}
    (dangling : (columnParts (columnRun true s.rest)).getLast? = some "") :
    Ensures (column? true) s fun x _ => x.all (·.incomplete) = true := by
  unfold column?
  rw [ensures_tokens]
  cases run : columnRun true s.rest with
  | nil => rfl
  | cons first others =>
      rw [run] at dangling
      have last : ((columnParts (first :: others)).getLast? == some "") = true :=
        beq_iff_eq.mpr dangling
      simp only [ensures_skip, ensures_extent, last, Bool.or_true, if_true]
      split <;> rfl

theorem columnOperand_of_spells {s : Reading} {stars : Bool} {parts : List String}
    {start stop : Nat} {first : Token} {others rest : List Token}
    (spells : SpellsColumn stars parts start stop first others) (ended : parts.getLast? ≠ some "")
    (front : s.rest = first :: (others ++ rest))
    (ends : ∀ next ∈ rest.head?, continuesColumn stars next.kind = false) :
    Ensures (columnOperand stars) s fun read t => (∃ column : Column,
      read = ⟨[.column column], true⟩ ∧ column.name = Text.join "." parts ∧
        column.incomplete = false ∧
        column.quoted = (first :: others).any fun token => isQuoted token.kind) ∧
        t.errors = s.errors ∧ t.rest = rest := by
  unfold columnOperand requiredColumn
  rw [ensures_bind_assoc]
  refine (column?_of_spells spells ended front ends).bind ?_
  rintro x t ⟨⟨column, rfl, same, complete, -, quoted⟩, errors, rest⟩
  have read : Parts.one (Expr.column column) column.incomplete = ⟨[.column column], true⟩ := by
    rw [Parts.one, complete]
    rfl
  exact ⟨⟨column, read, same, complete, quoted⟩, errors, rest⟩

/-- At the end of the text a complete item is a list of one. -/
theorem separatedFrom_one {α : Type} {item : Rule (Parts α)} {bound : Nat} {s : Reading}
    {post : Parts α → Reading → Prop}
    (reads : Ensures item s fun read t => read.complete = true ∧ t.rest = [] ∧ post read t) :
    Ensures (separatedFrom item (bound + 1)) s post := by
  rw [separatedFrom, andThen]
  refine reads.bind ?_
  rintro ⟨items, _⟩ t ⟨rfl, left, holds⟩
  have ended : t.isAt .comma = false := by simp [Reading.isAt, left]
  have alone : Parts.append ⟨items, true⟩ .none = ⟨items, true⟩ :=
    congrArg (Parts.mk · true) (List.append_nil items)
  rw [if_pos rfl, ensures_bind_assoc, ensures_refused ended]
  change post (Parts.append ⟨items, true⟩ .none) t
  rwa [alone]

section

variable {s : Reading} {name : String} {tail : List Char} {glued : Bool} {offset : Nat}

theorem head?_scanFrom_of_delimits (ends : Delimits tail) :
    ∀ next ∈ (Token.scanFrom tail 0 glued offset).head?,
      continuesColumn true next.kind = false := by
  cases tail with
  | nil =>
      rw [Token.scanFrom_nil]
      exact nofun
  | cons c tail =>
      obtain rfl := ends c rfl
      rw [Token.scanFrom_comma]
      exact fun next same => Option.some.inj same ▸ rfl

/-- A written name that is read back is read as a complete column. -/
theorem columnOperand_written (nonempty : name ≠ "") (back : readsBack name = true)
    (ends : Delimits tail)
    (front : s.rest = Token.scanFrom ((write name).toList ++ tail) 0 glued offset) :
    Ensures (columnOperand true) s fun read t =>
      (∃ column : Column, read = ⟨[.column column], true⟩ ∧ column.name = name ∧
        column.incomplete = false) ∧ t.errors = s.errors ∧
        ∃ stop, t.rest = Token.scanFrom tail 0 true stop := by
  obtain ⟨parts, stop, first, others, spells, named, ended, scanned⟩ :=
    exists_written nonempty back ends glued offset
  refine (columnOperand_of_spells spells ended (front.trans scanned)
    (head?_scanFrom_of_delimits ends)).mono ?_
  rintro read t ⟨⟨column, same, spelled, complete, -⟩, errors, rest⟩
  exact ⟨⟨column, same, spelled.trans named, complete⟩, errors, stop, rest⟩

/-- Any other written name is not. -/
theorem columnOperand_lost (lost : readsBack name = false) (ends : Delimits tail)
    (front : s.rest = Token.scanFrom ((write name).toList ++ tail) 0 glued offset) :
    Ensures (columnOperand true) s fun read _ => read.complete = false := by
  have dangling := getLast?_columnParts_written lost ends glued offset
  rw [← front] at dangling
  unfold columnOperand requiredColumn
  rw [ensures_bind_assoc]
  refine (column?_of_dangling dangling).bind ?_
  intro x t incomplete
  cases x with
  | none => rfl
  | some column => exact congrArg (!·) incomplete

end

/-- What is written for some names, with commas between. -/
def writtenList (names : List String) : List Char := (Text.join ", " (names.map write)).toList

theorem writtenList_cons (name second : String) (names : List String) :
    writtenList (name :: second :: names) =
      (write name).toList ++ ',' :: ' ' :: writtenList (second :: names) := by
  change (write name ++ ", " ++ Text.join ", " ((second :: names).map write)).toList = _
  rw [String.toList_append, String.toList_append, List.append_assoc]
  rfl

theorem delimits_nil : Delimits [] := by
  rintro _ ⟨⟩

theorem delimits_comma (tail : List Char) : Delimits (',' :: tail) :=
  fun _ same => (Option.some.inj same).symm

theorem exists_writtenList (name : String) (names : List String) :
    ∃ tail, Delimits tail ∧ writtenList (name :: names) = (write name).toList ++ tail := by
  cases names with
  | nil => exact ⟨[], delimits_nil, (List.append_nil _).symm⟩
  | cons second names => exact ⟨_, delimits_comma _, writtenList_cons name second names⟩

/-- Complete columns of exactly these names were read. -/
def ReadsColumns (names : List String) (read : Parts Expr) : Prop :=
  ∃ columns : List Column, read = ⟨columns.map .column, true⟩ ∧ columns.map (·.name) = names ∧
    ∀ column ∈ columns, column.incomplete = false

/-- Written names that are read back are read as columns of these names. -/
theorem separatedFrom_written {names : List String} (given : names ≠ [])
    (nonempty : ∀ name ∈ names, name ≠ "") (back : ∀ name ∈ names, readsBack name = true)
    {bound : Nat} {s : Reading} (enough : s.rest.length < bound) {glued : Bool} {offset : Nat}
    (front : s.rest = Token.scanFrom (writtenList names) 0 glued offset) :
    Ensures (separatedFrom (columnOperand true) bound) s fun read t =>
      ReadsColumns names read ∧ t.errors = s.errors ∧ t.rest = [] := by
  induction names generalizing bound s glued offset with
  | nil => contradiction
  | cons name names ih =>
      rw [List.forall_mem_cons] at nonempty back
      cases bound with
      | zero => exact absurd enough (Nat.not_lt_zero _)
      | succ bound =>
          cases names with
          | nil =>
              have whole : s.rest = Token.scanFrom ((write name).toList ++ []) 0 glued offset := by
                rw [front, List.append_nil]
                rfl
              refine separatedFrom_one
                ((columnOperand_written nonempty.1 back.1 delimits_nil whole).mono ?_)
              rintro read t ⟨⟨column, rfl, same, complete⟩, errors, stop, rest⟩
              exact ⟨rfl, rest, ⟨[column], rfl, congrArg (· :: []) same,
                List.forall_mem_singleton.mpr complete⟩, errors, rest⟩
          | cons second names =>
              rw [separatedFrom, andThen]
              rw [writtenList_cons] at front
              refine ((columnOperand_written nonempty.1 back.1 (delimits_comma _) front).and
                (columnOperand_outcome true s)).bind ?_
              rintro read t ⟨⟨⟨column, rfl, same, complete⟩, errors, stop, rest⟩, outcome⟩
              rw [Token.scanFrom_comma, Token.scanFrom_blank] at rest
              have comma : t.isAt .comma = true := by simp [Reading.isAt, rest]
              have left := Reading.advance_rest rest
              have fewer : t.advance.rest.length < bound := by
                have shorter := outcome.passage.follows.length_le
                rw [rest, List.length_cons] at shorter
                rw [left]
                omega
              rw [if_pos rfl, ensures_bind_assoc, ensures_accepted comma]
              refine (ih (List.cons_ne_nil _ _) nonempty.2 back.2 fewer left).bind ?_
              rintro others u ⟨⟨columns, rfl, names, all⟩, unchanged, left⟩
              exact ⟨⟨column :: columns, rfl, by rw [List.map_cons, same, names],
                List.forall_mem_cons.mpr ⟨complete, all⟩⟩,
                (unchanged.trans (Reading.errors_advance t)).trans errors, left⟩

/-- With a name that is not read back, the list is not read to its end. -/
theorem separatedFrom_lost {names : List String} (nonempty : ∀ name ∈ names, name ≠ "")
    (lost : names.all readsBack = false) {bound : Nat} {s : Reading} {glued : Bool}
    {offset : Nat} (front : s.rest = Token.scanFrom (writtenList names) 0 glued offset) :
    Ensures (separatedFrom (columnOperand true) bound) s fun read _ => read.complete = false := by
  induction bound generalizing names s glued offset with
  | zero => rfl
  | succ bound ih =>
      rw [separatedFrom, andThen]
      cases names with
      | nil => contradiction
      | cons name names =>
          rw [List.forall_mem_cons] at nonempty
          rw [List.all_cons, Bool.and_eq_false_iff] at lost
          cases back : readsBack name with
          | false =>
              obtain ⟨tail, ends, whole⟩ := exists_writtenList name names
              rw [whole] at front
              refine (columnOperand_lost back ends front).bind fun read t halted => ?_
              rw [halted]
              exact halted
          | true =>
              have later := lost.resolve_left (by rw [back]; exact Bool.noConfusion)
              cases names with
              | nil => contradiction
              | cons second names =>
                  rw [writtenList_cons] at front
                  refine (columnOperand_written nonempty.1 back (delimits_comma _) front).bind ?_
                  rintro read t ⟨⟨column, rfl, -, -⟩, -, stop, rest⟩
                  rw [Token.scanFrom_comma, Token.scanFrom_blank] at rest
                  have comma : t.isAt .comma = true := by simp [Reading.isAt, rest]
                  rw [if_pos rfl, ensures_bind_assoc, ensures_accepted comma]
                  exact (ih nonempty.2 later (Reading.advance_rest rest)).bind
                    fun _ _ halted => halted

/-- A list of written names is read as columns of these names, if each of them is read back. -/
theorem columnList_written {names : List String} (given : names ≠ [])
    (nonempty : ∀ name ∈ names, name ≠ "") (back : ∀ name ∈ names, readsBack name = true)
    {s : Reading} {glued : Bool} {offset : Nat}
    (front : s.rest = Token.scanFrom (writtenList names) 0 glued offset) :
    Ensures (columnList true) s fun read t =>
      ReadsColumns names read ∧ t.errors = s.errors ∧ t.rest = [] :=
  separatedFrom_written given nonempty back (Nat.lt_succ_self _) front

/-- Otherwise an error is recorded. -/
theorem columnList_lost {names : List String} (nonempty : ∀ name ∈ names, name ≠ "")
    (lost : names.all readsBack = false) {s : Reading} {glued : Bool} {offset : Nat}
    (front : s.rest = Token.scanFrom (writtenList names) 0 glued offset) :
    Ensures (columnList true) s fun _ t => s.errors.length < t.errors.length := by
  have halted : Ensures (columnList true) s fun read _ => read.complete = false :=
    separatedFrom_lost nonempty lost front
  refine (halted.and (columnList_outcome true s)).mono ?_
  rintro read t ⟨halted, outcome⟩
  exact outcome.faulty (by rw [halted]; rfl)

/-! ## A query that keeps written names -/

/-- What a command does behind its arguments: it reads on, and it stays where complete arguments
end if a command may end there. -/
structure Closes (complete : Bool) (s t : Reading) : Prop where
  follows : Follows s t
  stays : complete = true → s.isAtBoundary false = true → t = s

/-- Nothing is done behind complete arguments at the end of the text. -/
theorem Closes.eq_of_ended {complete : Bool} {s t : Reading} (closes : Closes complete s t)
    (whole : complete = true) (left : s.rest = []) : t = s :=
  closes.stays whole (by simp [Reading.isAtBoundary, Reading.isAtEnd, left])

/-- An error in the arguments of a command is kept. -/
theorem Closes.faulty {complete : Bool} {s t : Reading} (closes : Closes complete s t)
    (faulty : s.errors ≠ []) (bound : Nat) (nested : Bool) (stages : Stages) :
    Ensures (afterCommand bound nested stages) t fun _ u => u.errors ≠ [] := by
  refine (Forward.afterCommand (Forward.stagesFrom _ _ _) t).mono fun _ u later => ?_
  have grown := (closes.follows.trans later).errors
  exact List.ne_nil_of_length_pos (Nat.lt_of_lt_of_le (List.length_pos_iff.mpr faulty) grown)

/-- The command that a word names, with the arguments that are read for it. -/
def NamedCommand (token : Token) (args : Parts Argument → Reading → Prop) (x : Option Command)
    (t : Reading) : Prop :=
  ∃ (command : Command) (read : Parts Argument) (s : Reading), x = some command ∧ args read s ∧
    Closes read.complete s t ∧ command.name = token.lower ∧ command.args = read.items ∧
    command.incomplete = !read.complete

theorem ensures_closing {name : CommandName} {stop : Nat} {read : Parts Argument} {s t : Reading}
    {post : Option Command → Reading → Prop} (front : Closes read.complete s t)
    (ends : ∀ command u, Closes read.complete s u → command.name = name.name →
      command.args = read.items → command.incomplete = !read.complete →
      post (some command) u) :
    Ensures (do
      recover false
      pure (some (← finishCommand name stop read))) t post := by
  refine (recover_outcome false t).bind ?_
  rintro _ u ⟨follows, skips⟩
  refine ends _ u ⟨front.follows.trans follows, fun complete boundary => ?_⟩ rfl rfl rfl
  obtain rfl := front.stays complete boundary
  exact skips boundary

theorem ensures_commandBody {name : CommandName} {rule : Rule (Parts Argument)}
    {args : Parts Argument → Reading → Prop} {post : Option Command → Reading → Prop} {s : Reading}
    (reads : Ensures rule s args)
    (ends : ∀ command read u t, args read u → Closes read.complete u t →
      command.name = name.name → command.args = read.items →
      command.incomplete = !read.complete → post (some command) t) :
    Ensures (do pure (some (← commandBody name rule false))) s post := by
  unfold commandBody
  rw [ensures_bind_assoc]
  refine reads.bind fun read u holds => ?_
  rw [ensures_bind_assoc, ensures_get]
  have behind (command : Command) (t : Reading) (closes : Closes read.complete u t) :=
    ends command read u t holds closes
  cases complete : read.complete with
  | false => exact ensures_closing ⟨.refl u, fun _ _ => rfl⟩ behind
  | true =>
      have checked : Ensures (checkBoundary name.display false) u fun _ t => Closes true u t := by
        refine ⟨Forward.checkBoundary _ false u, fun _ boundary => ?_⟩
        change ((if !u.isAtBoundary false then _ else pure () : Rule Unit).run u).2 = u
        rw [boundary]
        rfl
      rw [← complete] at checked
      exact checked.bind fun _ t closes => ensures_closing closes behind

/-- A command that is no join is its first word, and what its arguments are read as. -/
theorem ensures_command {bound : Nat} {first : Bool} {s : Reading} {token : Token}
    {rest : List Token} {verb : Verb} {args : Parts Argument → Reading → Prop}
    (front : s.rest = token :: rest) (word : startsCommand token = true)
    (single : Verb.join.qualifiers.contains token.lower = false)
    (named : Verb.ofName? token.lower = some verb)
    (placed : misplaced? verb (CommandName.display ⟨token.lower, none, token.span⟩) first false =
      none)
    (reads : Ensures (arguments (branches bound) false verb) s.advance args) :
    Ensures (command? (bound + 1) first false) s (NamedCommand token args) := by
  have name : Ensures (commandName token) s fun x t =>
      x = ⟨token.lower, none, token.span⟩ ∧ t = s.advance := by
    unfold commandName
    rw [ensures_advance, ensures_tokens]
    split
    · rw [single, Bool.and_false]
      exact ⟨rfl, rfl⟩
    · exact ⟨rfl, rfl⟩
  rw [ensures_command? front, commandAt, if_pos word]
  refine name.bind ?_
  rintro _ _ ⟨rfl, rfl⟩
  rw [namedCommand, named]
  dsimp only
  rw [knownCommand_eq, placed]
  exact ensures_commandBody reads fun command read u t holds closes same items whole =>
    ⟨command, read, u, rfl, holds, closes, same, items, whole⟩

/-- A verb that is written as one word and may stand behind a source. -/
structure IsLater (verb : Verb) : Prop where
  spelled : ∃ c body, verb.label.toList = c :: body ∧ Text.startsName c = true ∧
    body.all Text.continuesName = true
  plain : Keyword.ofWord? verb.label = none
  lower : Text.lower verb.label = verb.name
  single : Verb.join.qualifiers.contains verb.name = false
  later : verb.isSource = false

theorem isLater_keep : IsLater .keep :=
  ⟨⟨'K', ['E', 'E', 'P'], by decide +kernel⟩, by decide +kernel, by decide +kernel,
    by decide +kernel, rfl⟩

theorem isLater_drop : IsLater .drop :=
  ⟨⟨'D', ['R', 'O', 'P'], by decide +kernel⟩, by decide +kernel, by decide +kernel,
    by decide +kernel, rfl⟩

/-- Where the text behind the name of a second command begins. -/
def listStart (verb : Verb) : Nat := 9 + Text.width verb.label.toList + 1

section

variable {verb : Verb} {text : String} {list : List Char}

/-- The tokens of a query with a source and one more command. -/
theorem scan_stage (word : IsLater verb)
    (whole : text.toList = "FROM a |".toList ++ ' ' :: (verb.label.toList ++ ' ' :: list)) :
    Token.scan text =
      ⟨.word "FROM", "FROM", ⟨0, 4⟩⟩ :: ⟨.word "a", "a", ⟨5, 6⟩⟩ :: ⟨.pipe, "|", ⟨7, 8⟩⟩ ::
        ⟨.word verb.label, verb.label, ⟨9, 9 + Text.width verb.label.toList⟩⟩ ::
        Token.scanFrom list 0 false (listStart verb) := by
  have lead : Token.scan "FROM a " =
      [⟨.word "FROM", "FROM", ⟨0, 4⟩⟩, ⟨.word "a", "a", ⟨5, 6⟩⟩] := by decide +kernel
  obtain ⟨c, body, spelled, starts, continues⟩ := word.spelled
  have label : String.ofList (c :: body) = verb.label := by rw [← spelled, String.ofList_toList]
  have named : Token.scanFrom (verb.label.toList ++ ' ' :: list) 0 false 9 =
      ⟨.word verb.label, verb.label, ⟨9, 9 + Text.width verb.label.toList⟩⟩ ::
        Token.scanFrom list 0 false (listStart verb) := by
    rw [listStart, spelled, ← label]
    exact Token.scanFrom_word c body starts continues (label ▸ word.plain) false 9 list
  rw [Token.scan, whole, Token.scanFrom_lead, lead, Token.scanFrom_blank, named]
  rfl

/-- The text behind the name of the second command, and the commands that are read with it. -/
theorem ensures_stage (word : IsLater verb)
    (whole : text.toList = "FROM a |".toList ++ ' ' :: (verb.label.toList ++ ' ' :: list))
    {bound : Nat} {args : Parts Argument → Reading → Prop} {post : Stages → Reading → Prop}
    (reads : ∀ s : Reading, s.rest = Token.scanFrom list 0 false (listStart verb) →
      s.errors = [] → Ensures (arguments (branches bound) false verb) s args)
    (behind : ∀ (source command : Command) (read : Parts Argument) (u t : Reading), args read u →
      Closes read.complete u t → command.name = verb.name → command.args = read.items →
      command.incomplete = !read.complete →
      Ensures (afterCommand (bound + 1) false ⟨[source, command], command.incomplete⟩) t post) :
    Ensures (stagesFrom (bound + 3) false ⟨[], false⟩) (.start text (Token.scan text)) post := by
  rw [scan_stage word whole]
  generalize Token.scanFrom list 0 false (listStart verb) = listed at reads
  let named : Token :=
    ⟨.word verb.label, verb.label, ⟨9, 9 + Text.width verb.label.toList⟩⟩
  have lower : named.lower = verb.name := word.lower
  have placed (display : String) : misplaced? verb display false false = none := by
    rw [misplaced?, word.later]
    rfl
  let piped : Reading := ⟨text, ⟨.pipe, "|", ⟨7, 8⟩⟩ :: named :: listed, 6, []⟩
  let opened : Reading :=
    .start text (⟨.word "FROM", "FROM", ⟨0, 4⟩⟩ :: ⟨.word "a", "a", ⟨5, 6⟩⟩ :: piped.rest)
  have sourced : Ensures (arguments (branches (bound + 1)) false .from) opened.advance
      fun read t => read.complete = true ∧ t = piped := ⟨rfl, rfl⟩
  have first : opened.rest = ⟨.word "FROM", "FROM", ⟨0, 4⟩⟩ :: _ := rfl
  have pipe : piped.rest = ⟨.pipe, "|", ⟨7, 8⟩⟩ :: named :: listed := rfl
  have second : piped.advance.rest = named :: listed := rfl
  change Ensures _ opened post
  unfold Ensures
  rw [run_stagesFrom_command first (by decide)]
  refine (ensures_command first rfl (by decide +kernel) (by decide +kernel) rfl sourced).bind ?_
  rintro _ t ⟨source, read, _, rfl, ⟨complete, rfl⟩, closes, -⟩
  rw [closes.stays complete rfl]
  unfold Ensures
  rw [run_afterCommand_pipe pipe rfl, if_neg (List.cons_ne_nil _ _),
    run_stagesFrom_command second TokenKind.noConfusion]
  have verbed : Verb.ofName? named.lower = some verb := by rw [lower, Verb.ofName?_name]
  refine (ensures_command second rfl (by rw [lower]; exact word.single) verbed (placed _)
    (reads _ rfl rfl)).bind ?_
  rintro _ t ⟨command, read, u, rfl, holds, closes, title, items, whole⟩
  exact behind source command read u t holds closes (title.trans lower) items whole

end

/-- The query whose second command keeps or drops a list of columns. -/
def projectionQuery (verb : Verb) (list : List Char) : String :=
  "FROM a | " ++ verb.label ++ " " ++ String.ofList list

/-- The query that keeps the columns of some names. -/
def keepQuery (names : List String) : String := "FROM a | KEEP " ++ Text.join ", " (names.map write)

theorem keepQuery_eq (names : List String) :
    keepQuery names = projectionQuery .keep (writtenList names) := by
  have label : "FROM a | " ++ Verb.keep.label ++ " " = "FROM a | KEEP " := by decide +kernel
  rw [projectionQuery, label, writtenList, String.ofList_toList]
  rfl

end Esql.Grammar

namespace Esql

open Grammar Text.Quoted

/-- A source command, and a command that keeps complete columns of exactly these names. -/
def KeepsColumns (names : List String) (commands : List Command) : Prop :=
  ∃ (source keep : Command) (columns : List Column), commands = [source, keep] ∧
    keep.name = "keep" ∧ keep.args = columns.map (fun column => .expr (.column column)) ∧
    columns.map (·.name) = names ∧ ∀ column ∈ columns, column.incomplete = false

/-- What the tree of a query with a source and one more command and its errors are, from the arguments
that are read for that command and what is done behind them. -/
theorem parse_stage {verb : Verb} (word : IsLater verb) {text : String} {list : List Char}
    (whole : text.toList = "FROM a |".toList ++ ' ' :: (verb.label.toList ++ ' ' :: list))
    (args : Parts Argument → Reading → Prop) (post : List Command → List SyntaxError → Prop)
    (reads : ∀ (bound : Nat) (s : Reading),
      s.rest = Token.scanFrom list 0 false (listStart verb) → s.errors = [] →
      Ensures (arguments (branches bound) false verb) s args)
    (behind : ∀ (bound : Nat) (source command : Command) (read : Parts Argument) (u t : Reading),
      args read u → Closes read.complete u t → command.name = verb.name →
      command.args = read.items → command.incomplete = !read.complete →
      Ensures (afterCommand bound false ⟨[source, command], command.incomplete⟩) t
        fun stages v => post stages.commands v.errors) :
    post (parse text).pipeline.commands (parse text).errors := by
  obtain ⟨commands, errors⟩ := parse_eq text
  rw [← commands, ← errors]
  have read : Ensures (stagesFrom (8 * (Token.scan text).length + 4 + 3) false ⟨[], false⟩)
      (.start text (Token.scan text)) fun stages t => post stages.commands t.errors :=
    ensures_stage word whole (reads _) (behind _)
  exact read

/-- What the tree of a query that keeps or drops columns and its errors are, from the list of
columns that is read and what is done behind it. -/
theorem parse_projectionQuery {verb : Verb} (projects : verb = .keep ∨ verb = .drop)
    {list : List Char} (args : Parts Expr → Reading → Prop)
    (post : List Command → List SyntaxError → Prop)
    (columns : ∀ s : Reading, s.rest = Token.scanFrom list 0 false 14 →
      s.errors = [] → Ensures (columnList true) s args)
    (behind : ∀ (bound : Nat) (source command : Command) (read : Parts Expr) (u t : Reading),
      args read u → Closes read.complete u t → command.name = verb.name →
      command.args = read.items.map .expr → command.incomplete = !read.complete →
      Ensures (afterCommand bound false ⟨[source, command], command.incomplete⟩) t
        fun stages v => post stages.commands v.errors) :
    post (parse (projectionQuery verb list)).pipeline.commands
      (parse (projectionQuery verb list)).errors := by
  have word : IsLater verb := by
    rcases projects with rfl | rfl
    · exact isLater_keep
    · exact isLater_drop
  have start : listStart verb = 14 := by rcases projects with rfl | rfl <;> decide +kernel
  have rule (branches : Rule (Parts Argument)) :
      arguments branches false verb = asArguments (columnList true) := by
    rcases projects with rfl | rfl <;> rfl
  have whole : (projectionQuery verb list).toList =
      "FROM a |".toList ++ ' ' :: (verb.label.toList ++ ' ' :: list) := by
    simp [projectionQuery]
  refine parse_stage word whole
    (fun read t => ∃ exprs : Parts Expr,
      read = ⟨exprs.items.map .expr, exprs.complete⟩ ∧ args exprs t) post ?_ ?_
  · intro bound s front clean
    rw [start] at front
    rw [rule]
    exact (columns s front clean).bind fun exprs t holds => ⟨exprs, rfl, holds⟩
  · rintro bound source command _ u t ⟨exprs, rfl, holds⟩ closes named items whole
    exact behind bound source command exprs u t holds closes named items whole

/-- With a name that is not read back there is an error. -/
theorem parse_keepQuery_lost {names : List String} (nonempty : ∀ name ∈ names, name ≠ "")
    (lost : names.all readsBack = false) : (parse (keepQuery names)).errors ≠ [] := by
  rw [keepQuery_eq]
  refine parse_projectionQuery (.inl rfl) (fun _ t => t.errors ≠ [])
    (fun _ errors => errors ≠ []) ?_ ?_
  · intro s front clean
    refine (columnList_lost nonempty lost front).mono fun _ t more => ?_
    rw [clean] at more
    exact List.ne_nil_of_length_pos more
  · intro bound source keep read u t faulty closes _ _ _
    exact closes.faulty faulty bound false _

/-- Names that are read back become the columns of the second command. -/
theorem parse_keepQuery_written {names : List String} (given : names ≠ [])
    (nonempty : ∀ name ∈ names, name ≠ "") (back : ∀ name ∈ names, readsBack name = true) :
    (parse (keepQuery names)).errors = [] ∧
      KeepsColumns names (parse (keepQuery names)).pipeline.commands := by
  rw [keepQuery_eq]
  refine parse_projectionQuery (.inl rfl)
    (fun read t => ReadsColumns names read ∧ t.errors = [] ∧ t.rest = [])
    (fun commands errors => errors = [] ∧ KeepsColumns names commands) ?_ ?_
  · intro s front clean
    refine (columnList_written given nonempty back front).mono ?_
    rintro read t ⟨columns, same, left⟩
    exact ⟨columns, same.trans clean, left⟩
  · rintro bound source keep _ u t ⟨⟨columns, rfl, same, complete⟩, clean, left⟩ closes named args -
    obtain rfl := closes.eq_of_ended rfl left
    unfold Ensures
    rw [run_afterCommand_nil left]
    rw [List.map_map] at args
    exact ⟨clean, source, keep, columns, rfl, named, args, same, complete⟩

/-- Names survive being written and read again if and only if each of them is quoted or has
stretches that are read one by one. -/
theorem keeps_parse_keepQuery {names : List String} (given : names ≠ [])
    (nonempty : ∀ name ∈ names, name ≠ "") :
    (parse (keepQuery names)).errors = [] ∧
        KeepsColumns names (parse (keepQuery names)).pipeline.commands ↔
      ∀ name ∈ names, readsBack name = true := by
  refine ⟨?_, parse_keepQuery_written given nonempty⟩
  rintro ⟨clean, -⟩
  by_contra lost
  have one_lost : names.all readsBack = false := by
    rw [Bool.eq_false_iff]
    exact fun all => lost (List.all_eq_true.mp all)
  exact parse_keepQuery_lost nonempty one_lost clean

/-- Points between readable stretches, and names in quotes. -/
theorem keeps_parse_keepQuery_quoted :
    ["host.name", "x y", "by", "a`b.c"] ≠ [] ∧
      (∀ name ∈ ["host.name", "x y", "by", "a`b.c"], name ≠ "") ∧
      (parse (keepQuery ["host.name", "x y", "by", "a`b.c"])).errors = [] ∧
      KeepsColumns ["host.name", "x y", "by", "a`b.c"]
        (parse (keepQuery ["host.name", "x y", "by", "a`b.c"])).pipeline.commands := by
  have given : ["host.name", "x y", "by", "a`b.c"] ≠ [] := List.cons_ne_nil _ _
  have nonempty : ∀ name ∈ ["host.name", "x y", "by", "a`b.c"], name ≠ "" := by decide
  have back : ∀ name ∈ ["host.name", "x y", "by", "a`b.c"], readsBack name = true := by
    decide +kernel
  exact ⟨given, nonempty, (keeps_parse_keepQuery given nonempty).mpr back⟩

/-- A reserved word behind a point is written bare, and not read back. -/
theorem not_keeps_parse_keepQuery :
    ¬ ∀ names : List String, names ≠ [] → (∀ name ∈ names, name ≠ "") →
      (parse (keepQuery names)).errors = [] ∧
        KeepsColumns names (parse (keepQuery names)).pipeline.commands := by
  intro survive
  have clean := (survive ["a.by"] (List.cons_ne_nil _ _) (by decide)).1
  have faulty : (parse (keepQuery ["a.by"])).errors ≠ [] := by decide +kernel
  exact faulty clean

end Esql
