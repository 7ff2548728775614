import Esql.Check.Pipeline
import Esql.Completion.Query
import Esql.Diagnostic.Basic
import Esql.Json.Write
import Esql.Schema.Cache
import Esql.Schema.Document
import Esql.Settings

/-!
# The command line

One query is checked or completed, and the result is written as data over several lines. The
arguments are looked at first, then the query is read, and then the schema.
-/

namespace Esql.CommandLine

/-- What the arguments ask for. -/
inductive Request where
  | check
  | complete (offset : Nat)
deriving Repr, BEq, DecidableEq

/-- Why nothing was done. -/
inductive Problem where
  | usage
  | invalidOffset (written : String)
  | unreadableFile (reason : String)
  | invalidSchema
deriving Repr, BEq, DecidableEq

namespace Problem

/-- The kind of a problem, with which its message begins. -/
def kind : Problem → String
  | .usage | .invalidOffset _ => "Configuration error"
  | .unreadableFile _ => "I/O error"
  | .invalidSchema => "Invalid schema document"

def detail : Problem → String
  | .usage => "usage: esql-check [suggest <offset>] < query"
  | .invalidOffset written => "invalid cursor offset [" ++ written ++ "]"
  | .unreadableFile reason => reason
  | .invalidSchema => "the document does not describe a schema"

def message (problem : Problem) : String := problem.kind ++ ": " ++ problem.detail

end Problem

/-- What some arguments ask for. -/
def Request.ofArguments : List String → Except Problem Request
  | [] => .ok .check
  | ["suggest", written] =>
      match readUnsigned64? written with
      | some offset => .ok (.complete offset)
      | none => .error (.invalidOffset written)
  | _ => .error .usage

/-- The schema of a file, or an empty one if no file is set. -/
def loadSchema {m : Type → Type} [Monad m] (read : String → m (Except String String)) :
    Option String → m (Except Problem Schema)
  | none => pure (.ok {})
  | some file => do
      match ← read file with
      | .error reason => pure (.error (.unreadableFile reason))
      | .ok document =>
          match Schema.read? document with
          | some schema => pure (.ok schema)
          | none => pure (.error .invalidSchema)

/-- What is asked for, about a query, with a cache in front of the schema. -/
def result (request : Request) (schema : Schema) (license? : Option License) (query : String) :
    Json :=
  let collaborator := Cache.inFrontOf (schema.collaborator : Collaborator Id)
  match request with
  | .check =>
      let found : List Diagnostic := ((validate collaborator license? query).run .empty).run.1
      .array (found.map Diagnostic.toJson)
  | .complete offset =>
      let found : List Suggestion := ((suggest collaborator query offset).run .empty).run.1
      .array (found.map Suggestion.toJson)

/-- The output for some arguments. The query and the schema are read in the given ways. -/
def run {m : Type → Type} [Monad m] (query : m String)
    (read : String → m (Except String String)) (settings : Settings) (arguments : List String) :
    m (Except Problem String) := do
  match Request.ofArguments arguments with
  | .error problem => pure (.error problem)
  | .ok request =>
      let query ← query
      match ← loadSchema read settings.schemaFile? with
      | .error problem => pure (.error problem)
      | .ok schema => pure (.ok ((result request schema settings.tier? query).pretty ++ "\n"))

end Esql.CommandLine
