import Esql.Callable.Catalog
import Esql.ColumnSet
import Esql.Diagnostic.Basic
import Esql.Schema.Basic
import Esql.Text.Quoted
import Esql.Verb

/-!
# Suggestions

A suggestion is a text that can stand at the cursor, with what an editor shows about it. It
replaces the span of what was typed so far, or is inserted at the cursor when there is none.
-/

namespace Esql

/-- What kind of thing a suggestion inserts. -/
inductive Suggestion.Kind where
  | keyword
  | command
  | function
  | operator
  | column
  | source
  | policy
  | value
deriving Repr, BEq, DecidableEq, ReflBEq, LawfulBEq

def Suggestion.Kind.name : Suggestion.Kind → String
  | .keyword => "keyword"
  | .command => "command"
  | .function => "function"
  | .operator => "operator"
  | .column => "column"
  | .source => "source"
  | .policy => "policy"
  | .value => "value"

structure Suggestion where
  kind : Suggestion.Kind
  /-- What the editor lists. -/
  label : String
  /-- What is inserted. -/
  text : String
  detail : String := ""
  /-- What the typed text is compared with, if not the label. -/
  filterText? : Option String := none
  /-- The span that the text replaces. -/
  range? : Option Span := none
  /-- Further suggestions are asked for once this one is accepted. -/
  reopens : Bool := false
  /-- The text marks the place of the cursor after the insertion. -/
  snippet : Bool := false
  sortText? : Option String := none
deriving Repr, BEq, DecidableEq

namespace Suggestion

/-- The suggestion in place of a span. -/
def replacing (range? : Option Span) (suggestion : Suggestion) : Suggestion :=
  { suggestion with range? := range? }

def reopening (suggestion : Suggestion) : Suggestion := { suggestion with reopens := true }

/-- A reserved word, followed by a blank. -/
def keyword (word detail : String) : Suggestion :=
  { kind := .keyword, label := word, text := word ++ " ", detail, reopens := true }

/-- A mark between two parts of a query, followed by a blank. -/
def separator (mark name : String) : Suggestion :=
  { kind := .keyword, label := mark, text := mark ++ " ", detail := name ++ " (" ++ mark ++ ")",
    reopens := true, sortText? := some "1" }

def pipe : Suggestion := separator "|" "Pipe"

def comma : Suggestion := separator "," "Comma"

def assign : Suggestion :=
  { kind := .operator, label := "=", text := "= ", detail := "Assign (=)", reopens := true }

/-- A verb as the start of a command. -/
def command (verb : Verb) : Suggestion :=
  { kind := .command, label := verb.label, text := verb.label ++ " ", detail := verb.description,
    reopens := true }

/-- A column, quoted where that is needed, with its type. -/
def column (field : Field) : Suggestion :=
  { kind := .column, label := field.name, text := Text.Quoted.write field.name,
    detail := (field.type?.map (·.name)).getD "" }

/-- A call with the cursor between its parentheses, unless it takes no arguments. -/
def function (callable : Callable) : Suggestion :=
  let takesNone := callable.maxArgs? == some 0
  { kind := .function, label := Text.upper callable.name,
    text := callable.name ++ (if takesNone then "()" else "($0)"), detail := callable.description,
    reopens := !takesNone, snippet := !takesNone, sortText? := some "2" }

/-- An operator behind its operand; one that is a word is written in upper case. -/
def operator (callable : Callable) : Suggestion :=
  let isWord := callable.name.toList.head?.any Text.isAlphabetic
  let symbol := if isWord then Text.upper callable.name else callable.name
  { kind := .operator, label := symbol, text := symbol ++ " ", detail := callable.description,
    reopens := true, sortText? := some "3" }

/-- Characters that the name of a source may hold without quotes. -/
def isPlainSourceChar (c : Char) : Bool :=
  Text.isAlphanumeric c || ['-', '_', '.', '*', ':'].contains c

def source (index : Index) : Suggestion :=
  { kind := .source, label := index.name,
    text :=
      if index.name.toList.all isPlainSourceChar then index.name
      else String.ofList ('\x22' :: (index.name.toList ++ ['\x22'])),
    detail := if index.isLookup then "Lookup index" else "Index" }

def policy (policy : EnrichPolicy) : Suggestion :=
  { kind := .policy, label := policy.name, text := policy.name ++ " ",
    detail := "Policy on " ++ Text.join ", " policy.indices ++ ", matching " ++ policy.matchField,
    reopens := true }

/-- A value, inserted as it is written. -/
def value (text detail : String) : Suggestion := { kind := .value, label := text, text, detail }

/-- What an editor does once a reopening suggestion is accepted. -/
def reopenCommand : Json :=
  .record [("title", .text "Trigger Suggestion Dialog"),
    ("id", .text "editor.action.triggerSuggest")]

/-- The record of a suggestion; what is absent is left out. -/
def toJson (suggestion : Suggestion) : Json :=
  .record ([("label", .text suggestion.label), ("text", .text suggestion.text),
    ("kind", .text suggestion.kind.name), ("detail", .text suggestion.detail)]
    ++ (suggestion.filterText?.map fun text => ("filterText", Json.text text)).toList
    ++ (suggestion.range?.map fun span => ("rangeToReplace", span.toJson)).toList
    ++ (if suggestion.reopens then [("command", reopenCommand)] else [])
    ++ (if suggestion.snippet then [("asSnippet", .bool true)] else [])
    ++ (suggestion.sortText?.map fun text => ("sortText", Json.text text)).toList)

end Suggestion

end Esql
