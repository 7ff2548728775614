import Esql.Completion.Expression
import Esql.Meaning

/-!
# Completing names of columns

What may stand at the cursor in the commands that select, rename or analyse columns.
-/

namespace Esql.Draft

open Completion

/-- The columns that are accepted, in place of the word being typed. -/
def suggestColumns (draft : Draft) (wanted : ParamType) (listed : List String) :
    List Suggestion :=
  (draft.columnSuggestions wanted listed).map (Suggestion.replacing draft.word.range?)

/-- What may stand in a list of column patterns: a column that is not listed yet, or what follows
a pattern. -/
def suggestPatterns (draft : Draft) : List Suggestion :=
  let word := draft.word
  match word.previous?.filter fun previous => previous.kind != .comma with
  | some previous =>
      if endsOperand previous || previous.kind == .star then [.comma, .pipe] else []
  | none => draft.suggestColumns .any (draft.listed draft.command.columns word.range?)

/-- What may stand in a list of renamings. -/
def suggestRename (draft : Draft) : List Suggestion :=
  let (rest, path) := splitPath draft.word.before
  match rest.getLast?.map Token.kind with
  | none | some .comma =>
      if path.isEmpty then (draft.suggestColumns .any []).map Suggestion.reopening
      else [.keyword "AS" "Rename the column", .assign]
  | some .assign => if path.isEmpty then draft.suggestColumns .any [] else [.comma, .pipe]
  | some (.keyword .as) => if path.isEmpty then [] else [.comma, .pipe]
  | _ => []

/-- What may stand in a command of a single column. -/
def suggestSingle (draft : Draft) : List Suggestion :=
  match draft.word.previous? with
  | none => draft.suggestColumns .any []
  | some previous => if endsOperand previous then [.pipe] else []

/-- What may stand behind the word that introduces the names of added columns. -/
def suggestNames : List Token → List Suggestion
  | [] => [.value (changePointNames.1 ++ ", " ++ changePointNames.2 ++ " ") "Default names"]
  | [name] => if name.kind.isName then [.comma] else []
  | [_, separator, name] =>
      if separator.kind == .comma && name.kind.isName then [.pipe] else []
  | _ => []

/-- What may stand in a search for change points. -/
def suggestChangePoint (draft : Draft) : List Suggestion :=
  let before := draft.word.before
  let names : Suggestion := .keyword "AS" "Output column names"
  match lastClause? [.on, .as] before with
  | none =>
      if before.isEmpty then draft.suggestColumns .number []
      else [.keyword "ON" "Key column", names, .pipe]
  | some (.on, _, written) =>
      if written.isEmpty then draft.suggestColumns .any [] else [names, .pipe]
  | some (_, _, written) => suggestNames written

end Esql.Draft
