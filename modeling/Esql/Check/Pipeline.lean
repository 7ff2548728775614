import Esql.Check.Columns
import Esql.Check.Fields

/-!
# Checking queries

Commands are checked in order, each against the columns that those before it produce. Commands
that were not read to their end, or whose verb is unknown, are passed over. The branches of a fork
are checked against the columns that reach the fork.
-/

namespace Esql

namespace Command

/-- What is wrong with a command that is no fork, as its verb wants it. -/
def checkPlain (command : Command) (scope : Scope) (snapshot : Snapshot) :
    Verb → List Diagnostic
  | .from | .ts => command.checkSources snapshot
  | .row => scope.checkFields .row command.exprs
  | .show | .limit | .fork => []
  | .where => command.checkWhere scope
  | .eval => scope.checkFields .eval command.exprs
  | .stats | .inlinestats => command.checkStats scope
  | .keep => command.checkKeep scope
  | .drop => command.checkDrop scope
  | .rename => command.checkRename scope
  | .mvExpand => command.checkMvExpand scope
  | .sort => command.checkSort scope
  | .sample => command.checkSample
  | .dissect => command.checkDissect scope
  | .grok => command.checkInput scope .grok
  | .enrich => command.checkEnrich scope snapshot
  | .join => command.checkJoin scope snapshot
  | .changePoint => command.checkChangePoint scope

/-- A diagnostic about the tier that the verb of a command requires. -/
def checkLicense (command : Command) (verb : Verb) (license? : Option License) :
    List Diagnostic :=
  match (Scope.mk .unknown license? command.displayName).lacking? verb.license? with
  | some required =>
      [(Finding.licenseRequired command.displayName required).about command.nameSpan]
  | none => []

/-- A diagnostic about a fork with less than two branches. -/
def checkBranchCount (command : Command) : List Diagnostic :=
  if command.branches.length < 2 then [Finding.tooFewBranches.about command.span] else []

end Command

mutual

/-- What is wrong with a command, its tier aside. -/
def Command.check (snapshot : Snapshot) (license? : Option License) (input : ColumnSet) :
    Command → List Diagnostic
  | ⟨name, qualifier?, text, span, nameSpan, args, incomplete⟩ =>
      let command : Command := ⟨name, qualifier?, text, span, nameSpan, args, incomplete⟩
      match Verb.ofName? name with
      | none => []
      | some .fork =>
          command.checkBranchCount ++ Argument.checkBranches snapshot license? input args
      | some verb => command.checkPlain ⟨input, license?, command.displayName⟩ snapshot verb

/-- What is wrong with the branches among some arguments, all of which read the same input. -/
def Argument.checkBranches (snapshot : Snapshot) (license? : Option License)
    (input : ColumnSet) : List Argument → List Diagnostic
  | [] => []
  | .branch ⟨commands, _, _⟩ :: rest =>
      Command.checkAll snapshot license? input commands
        ++ Argument.checkBranches snapshot license? input rest
  | _ :: rest => Argument.checkBranches snapshot license? input rest

/-- What is wrong with several commands, one after the other. -/
def Command.checkAll (snapshot : Snapshot) (license? : Option License) (input : ColumnSet) :
    List Command → List Diagnostic
  | [] => []
  | command :: rest =>
      (match Verb.ofName? command.name with
        | some verb =>
            if command.incomplete then []
            else
              command.checkLicense verb license?
                ++ Command.check snapshot license? input command
        | none => [])
        ++ Command.checkAll snapshot license? (command.after snapshot input) rest

end

/-- Only a fork looks into its branches. -/
theorem Command.check_eq_plain (command : Command) {verb : Verb}
    (named : Verb.ofName? command.name = some verb) (other : verb ≠ .fork) (snapshot : Snapshot)
    (license? : Option License) (input : ColumnSet) :
    command.check snapshot license? input =
      command.checkPlain ⟨input, license?, command.displayName⟩ snapshot verb := by
  cases command with
  | mk name =>
      rw [check, named]
      cases verb <;> first | rfl | contradiction

namespace Pipeline

/-- A diagnostic about the second fork of a query, in whichever branch it is. -/
def checkForkCount (query : Pipeline) : List Diagnostic :=
  match (query.visited.filter fun command => command.name == "fork").tail with
  | second :: _ => [Finding.tooManyForks.about second.nameSpan]
  | [] => []

/-- What is wrong with a query, its grammar aside. -/
def check (query : Pipeline) (snapshot : Snapshot) (license? : Option License) :
    List Diagnostic :=
  Command.checkAll snapshot license? .empty query.commands ++ query.checkForkCount
    ++ (snapshot.warning? query.span).toList

end Pipeline

/-- Everything that is wrong with the text of a query: first its grammar, then the rest. -/
def validate {m : Type → Type} [Monad m] (collaborator : Collaborator m)
    (license? : Option License) (text : String) : m (List Diagnostic) := do
  let parsed := parse text
  let snapshot ← Snapshot.collect collaborator text parsed.pipeline
  pure (parsed.diagnostics ++ parsed.pipeline.check snapshot license?)

end Esql
