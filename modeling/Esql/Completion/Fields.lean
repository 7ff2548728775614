import Esql.Completion.Expression
import Esql.Syntax.Command

/-!
# Completing computed fields

What may stand at the cursor in the commands whose arguments are expressions, numbers or patterns.
Where a field may be given a name, an assignment is offered behind the name first.
-/

namespace Esql.Draft

open Completion

/-- Suggestions with an assignment before them, if what was written may name a field. -/
def withNaming (draft : Draft) (suggestions : List Suggestion) : List Suggestion :=
  let word := draft.word
  if startsNamed word.before then Suggestion.assign.replacing word.range? :: suggestions
  else suggestions

/-- What may stand in a field at a place. -/
def suggestField (draft : Draft) (place : Place) : List Suggestion :=
  draft.expression place draft.word.before [.comma, .pipe]

/-- What may stand in a condition that rows have to meet. -/
def suggestWhere (draft : Draft) : List Suggestion :=
  draft.expression .where draft.word.before [.pipe]

/-- The keyword before groups. -/
def groupBy : Suggestion := .keyword "BY" "Group by"

/-- What may start an aggregated field: no column, since one stands under an aggregation only. -/
def aggregateStarts (draft : Draft) (suggestions : List Suggestion) : List Suggestion :=
  let word := draft.word
  let atStart := word.previous?.all fun last => last.kind == .comma || last.kind == .assign
  if atStart && !isNested word.before then
    (suggestions.filter fun suggestion => suggestion.kind != .column)
      ++ if word.before.isEmpty then [groupBy.replacing word.range?] else []
  else suggestions

/-- What may stand in an aggregated field. -/
def suggestAggregate (draft : Draft) : List Suggestion :=
  let follow := [.comma, groupBy, .keyword "WHERE" "Filter the aggregation", .pipe]
  draft.withNaming (draft.aggregateStarts (draft.expression .stats draft.word.before follow))

/-- What may stand in an aggregation: a field, its filter, or a group. -/
def suggestStats (draft : Draft) : List Suggestion :=
  let before := draft.word.before
  match lastClause? [.by, .where] before with
  | some (.by, _, _) =>
      draft.withNaming (draft.expression .statsBy before [.comma, .pipe])
  | some (.where, _, written) =>
      if hasComma 0 written then draft.suggestAggregate
      else draft.expression .statsWhere before [.comma, groupBy, .pipe]
  | _ => draft.suggestAggregate

/-- Where rows without a value come in the order. -/
def nullOrders : List Suggestion :=
  [.keyword "NULLS FIRST" "Nulls first", .keyword "NULLS LAST" "Nulls last"]

/-- What may follow what rows are sorted by. -/
def sortOrders : List Suggestion :=
  [.keyword "ASC" "Ascending order", .keyword "DESC" "Descending order"] ++ nullOrders
    ++ [.comma, .pipe]

/-- What may stand in an expression that rows are sorted by. -/
def suggestSortExpression (draft : Draft) : List Suggestion :=
  (draft.expression .sort draft.word.before sortOrders).map fun suggestion =>
    if suggestion.kind == .column then suggestion.reopening else suggestion

/-- What may stand in an order of rows. The tokens before the cursor come in reverse order. -/
def sortFollowers? (range? : Option Span) : List Token → Option (List Suggestion)
  | [] => none
  | last :: rest =>
      if last.isKeyword .nulls then
        some ([.keyword "FIRST" "Nulls first", .keyword "LAST" "Nulls last"].map
          (Suggestion.replacing range?))
      else if rest.head?.any (·.isKeyword .nulls) && (last.isWord "first" || last.isWord "last") then
        some [.comma, .pipe]
      else if last.isKeyword .asc || last.isKeyword .desc then some (nullOrders ++ [.comma, .pipe])
      else none

def suggestSort (draft : Draft) : List Suggestion :=
  let word := draft.word
  (sortFollowers? word.range? word.before.reverse).getD draft.suggestSortExpression

/-- What may stand in a command of one number, with some numbers to choose from. -/
def suggestNumber (draft : Draft) (numbers : List String) (detail : String) : List Suggestion :=
  match draft.word.previous? with
  | none => numbers.map fun number => (Suggestion.value (number ++ " ") detail).reopening
  | some previous => if endsOperand previous then [.pipe] else []

def suggestLimit (draft : Draft) : List Suggestion :=
  draft.suggestNumber ["10", "100", "1000"] "Row count"

def suggestSample (draft : Draft) : List Suggestion :=
  draft.suggestNumber [".001", ".01", ".1"] "Sampling probability"

/-- The part of an extraction that the cursor is in. -/
inductive ExtractionPart where
  | input
  | pattern
  | afterPattern
  | setting
  | other
deriving Repr, BEq, DecidableEq, ReflBEq, LawfulBEq

/-- A string with its closing quotes. -/
def isClosedString (token : Token) : Bool :=
  match token.kind with
  | .string _ terminated => terminated
  | _ => false

/-- The part behind a pattern. The tokens come in reverse order. -/
def settingPart : List Token → ExtractionPart
  | last :: previous :: _ =>
      if previous.kind.isName && last.kind == .assign then .setting
      else if previous.kind == .assign && endsOperand last then .afterPattern
      else .other
  | _ => .other

/-- The part of an extraction behind some tokens; the first closed string is the pattern. -/
def extractionPart (before : List Token) : ExtractionPart :=
  if before.any isClosedString then
    if (before.dropWhile fun token => !isClosedString token).length == 1 then .afterPattern
    else settingPart before.reverse
  else if before.isEmpty then .input
  else if (splitPath before).1.isEmpty then .pattern
  else .other

/-- The columns that hold texts. -/
def suggestText (draft : Draft) : List Suggestion :=
  (draft.columnSuggestions .string []).map fun column =>
    (column.replacing draft.word.range?).reopening

/-- The setting of the text between appended values. -/
def appendSeparator : Suggestion :=
  { kind := .keyword, label := "APPEND_SEPARATOR", text := "APPEND_SEPARATOR = ",
    detail := "Separator for appended fields", reopens := true }

/-- What may stand in an extraction by a dissect pattern. -/
def suggestDissect (draft : Draft) : List Suggestion :=
  let word := draft.word
  match extractionPart word.before with
  | .input => draft.suggestText
  | .pattern =>
      [(Suggestion.value "\"%\x7bfirstWord\x7d\" " "A dissect pattern").reopening]
  | .afterPattern =>
      let given := word.before.any fun token =>
        token.kind.name?.any fun name => Text.sameWord name "append_separator"
      (if given then [] else [appendSeparator.replacing word.range?]) ++ [.pipe]
  | .setting =>
      [":", ";", "-", " "].map fun mark =>
        (Suggestion.value ("\"" ++ mark ++ "\" ") "Separator").reopening
  | .other => []

/-- What may stand in an extraction by a grok pattern. -/
def suggestGrok (draft : Draft) : List Suggestion :=
  match extractionPart draft.word.before with
  | .input => draft.suggestText
  | .pattern =>
      [(Suggestion.value "\"%\x7bWORD:firstWord\x7d\" " "A grok pattern").reopening]
  | .afterPattern => [.pipe]
  | .setting | .other => []

/-- The start of a branch of a fork. -/
def openBranch : Suggestion :=
  { kind := .keyword, label := "(", text := "(", detail := "Open a new branch", reopens := true }

/-- What may stand in a fork outside its branches. -/
def suggestFork (draft : Draft) : List Suggestion :=
  match draft.tokens.getLast? with
  | none => [openBranch]
  | some last =>
      if last.kind != .closeParen then []
      else if 2 ≤ draft.command.branches.length then [openBranch, .pipe]
      else [openBranch]

end Esql.Draft
