import Esql.Grammar.Arguments

/-!
# The grammar of pipelines

A query is a pipeline: commands with pipes between them. What cannot be read is recorded, and
reading goes on at the next pipe, so one faulty command leaves the others as they are. Parsing
never fails: every text has a tree, with the errors that were found.
-/

namespace Esql.Grammar

/-- The name of a command, its qualifier, and the span of both. -/
structure CommandName where
  name : String
  qualifier? : Option String
  span : Span

namespace CommandName

/-- The name in upper case, with its qualifier. -/
def display (name : CommandName) : String :=
  match name.qualifier? with
  | some qualifier => Text.upper (qualifier ++ " " ++ name.name)
  | none => Text.upper name.name

end CommandName

/-- The name of a command, given its first word; a join has a qualifier before it. -/
def commandName (first : Token) : Rule CommandName := do
  advance
  match ← tokens with
  | next :: _ =>
      if next.isWord "join" && Verb.join.qualifiers.contains first.lower then
        advance
        pure ⟨"join", some first.lower, first.span.join next.span⟩
      else pure ⟨first.lower, none, first.span⟩
  | [] => pure ⟨first.lower, none, first.span⟩

/-- What is wrong with using a verb at this point of a pipeline. -/
def misplaced? (verb : Verb) (display : String) (first nested : Bool) : Option SyntaxFault :=
  if first && !verb.isSource then some (.cannotStart display)
  else if !first && verb.isSource then some (.mustStart display)
  else if nested && !verb.allowedInFork then some (.notInBranch display)
  else none

/-- Records that a complete command is followed by something else than its end. -/
def checkBoundary (display : String) (nested : Bool) : Rule Unit := do
  let reading ← get
  if !reading.isAtBoundary nested then
    match reading.rest with
    | token :: _ => record (.extraneous token.text display) token.span
    | [] => pure ()

/-- A command from its name and the arguments read, which end with the last token read. -/
def finishCommand (name : CommandName) (stop : Nat) (read : Parts Argument) : Rule Command := do
  let span : Span := ⟨name.span.start, max stop name.span.stop⟩
  let text := span.slice (← get).source
  pure ⟨name.name, name.qualifier?, text, span, name.span, read.items, !read.complete⟩

/-- A command whose name is no verb; its arguments are passed over. -/
def unknownCommand (name : CommandName) (nested : Bool) : Rule Command := do
  record (.unknownCommand name.display) name.span
  recover nested
  finishCommand name name.span.stop .halted

/-- A command of a verb, whose arguments are read by `args`. -/
def knownCommand (name : CommandName) (verb : Verb) (args : Rule (Parts Argument))
    (first nested : Bool) : Rule Command := do
  match misplaced? verb name.display first nested with
  | some fault => record fault name.span
  | none => pure ()
  let read ← args
  let stop := (← get).lastStop
  if read.complete then checkBoundary name.display nested
  recover nested
  finishCommand name stop read

/-- A token that can be the name of a command. -/
def startsCommand (token : Token) : Bool := token.kind.isWord || token.kind.keyword?.isSome

/-- The commands of a pipeline that are read so far, and whether the last one is unfinished. -/
structure Stages where
  commands : List Command
  incomplete : Bool

namespace Stages

/-- The stages with one more command, if one was read. -/
def add (stages : Stages) : Option Command → Stages
  | some command => ⟨stages.commands ++ [command], command.incomplete⟩
  | none => stages

/-- The pipeline of the stages, from an offset to the end of the last command. -/
def finish (stages : Stages) (start : Nat) : Pipeline :=
  let stop := (stages.commands.getLast?.map (·.span.stop)).getD start
  ⟨stages.commands, ⟨start, max stop start⟩, stages.incomplete⟩

end Stages

/-- Records that a pipeline lacks a command at its end. -/
def unfinished (stages : Stages) (what : Expectation) : Rule Stages := do
  expected what
  pure ⟨stages.commands, true⟩

/-- The branch of a fork from its opening parenthesis on. An open branch is incomplete. -/
def closeBranch (start : Nat) (branch : Pipeline) : Rule Pipeline := do
  let closed ← accept .closeParen
  let span : Span := ⟨start, (← get).lastStop⟩
  if !closed && !branch.incomplete && !branch.commands.any (·.incomplete) then
    expected .closeParen
  pure ⟨branch.commands, span, branch.incomplete || !closed⟩

mutual

/-- A pipeline; inside a branch it ends where the branch closes. -/
def pipeline : Nat → (nested : Bool) → Rule Pipeline
  | 0, _ => do
      let start := (← get).nextStart
      expected .command
      pure ((Stages.mk [] true).finish start)
  | bound + 1, nested => do
      let start := (← get).nextStart
      let stages ← stagesFrom bound nested ⟨[], false⟩
      pure (stages.finish start)

/-- The stages of a pipeline from those read so far on. -/
def stagesFrom : Nat → (nested : Bool) → Stages → Rule Stages
  | 0, _, stages => unfinished stages .command
  | bound + 1, nested, stages => do
      let reading ← get
      if reading.isAtEnd nested then
        if stages.commands.isEmpty && nested then unfinished stages .command else pure stages
      else
        match ← accept? .pipe with
        | some pipe =>
            record .pipeWithoutCommand pipe.span
            stagesFrom bound nested stages
        | none =>
            let stages := stages.add (← command? bound (stages.commands.isEmpty && !nested) nested)
            if ← accept .pipe then
              if (← get).isAtEnd nested then unfinished stages .commandAfterPipe
              else stagesFrom bound nested stages
            else pure stages

/-- A command, passed over to its end. There is none if its name is missing. -/
def command? : Nat → (first nested : Bool) → Rule (Option Command)
  | 0, _, _ => do
      expected .commandName
      pure none
  | bound + 1, first, nested => do
      match ← tokens with
      | token :: _ =>
          if startsCommand token then
            let name ← commandName token
            match Verb.ofName? name.name with
            | none => pure (some (← unknownCommand name nested))
            | some verb =>
                let args := arguments (branches bound) nested verb
                pure (some (← knownCommand name verb args first nested))
          else
            expected .commandName
            recover nested
            pure none
      | [] => pure none

/-- The branches of a fork, each in parentheses. -/
def branches : Nat → Rule (Parts Argument)
  | 0 => halt .branch
  | bound + 1 => do
      match ← accept? .openParen with
      | none => halt .branch
      | some opening =>
          andThen (branchFrom bound opening) do
            if (← get).isAt .openParen then branches bound else pure .none

/-- A branch after its opening parenthesis. -/
def branchFrom : Nat → (opening : Token) → Rule (Parts Argument)
  | 0, _ => halt .branch
  | bound + 1, opening => do
      let read ← pipeline bound true
      let branch ← closeBranch opening.span.start read
      pure (.one (.branch branch) branch.incomplete)

end

/-- A bound that no pipeline over a number of tokens reaches. -/
def pipelineBound (count : Nat) : Nat := 8 * count + 8

end Esql.Grammar

namespace Esql

/-- The tree of a text and the errors found in it, in the order in which they were found. -/
structure Parsed where
  pipeline : Pipeline
  errors : List SyntaxError

namespace Parsed

/-- The tree of a text that was scanned into these tokens. -/
def ofTokens (source : String) (tokens : List Token) : Parsed :=
  let start := Grammar.Reading.start source tokens
  let (pipeline, reading) := (Grammar.pipeline (Grammar.pipelineBound tokens.length) false).run start
  ⟨pipeline, reading.errors⟩

def diagnostics (parsed : Parsed) : List Diagnostic := parsed.errors.map SyntaxError.diagnostic

end Parsed

/-- The tree of a text. -/
def parse (source : String) : Parsed := .ofTokens source (Token.scan source)

end Esql
