import Esql.Proofs.Grammar.Sources
import Esql.Proofs.Token.Quotes
import Esql.Schema.Snapshot

/-!
# The index that is asked about

A question about an index names the index in a query of its own. Quotes keep most names together,
but nothing stands for a backslash in them, and a name without quotes may be a reserved word that no
source begins with.
-/

namespace Esql.Schema

variable {name : String}

open Grammar Text.Source

/-- The name is read as it was written: in quotes its backslashes are kept, and without them it
begins like a source. -/
def readsBack (name : String) : Bool :=
  if isUnquoted name then opensBare name.toList else keepsBackslashes name.toList

theorem writeSource_of_isUnquoted (unquoted : isUnquoted name = true) : writeSource name = name :=
  if_pos unquoted

theorem toList_writeSource (quoted : ¬ isUnquoted name = true) :
    (writeSource name).toList =
      '\x22' :: (name.toList.flatMap writeSource.escaped ++ ['\x22']) := by
  have written : writeSource name =
      String.ofList ('\x22' :: (name.toList.flatMap writeSource.escaped ++ ['\x22'])) :=
    if_neg quoted
  rw [written, String.toList_ofList]

theorem escaped_of_ne (c : Char) (other : c ≠ '\x22') : writeSource.escaped c = [c] :=
  if_neg fun same => other (beq_iff_eq.mp same)

theorem sourceRun?_writeSource (nonempty : name ≠ "") (back : readsBack name = true)
    (glued : Bool) (offset : Nat) :
    sourceRun? (Token.scanFrom (writeSource name).toList 0 glued offset) =
      some (name, (Token.scanFrom (writeSource name).toList 0 glued offset).length, false) := by
  unfold readsBack at back
  split at back
  · rename_i unquoted
    rw [writeSource_of_isUnquoted unquoted]
    exact Token.sourceRun?_of_opensBare nonempty unquoted back glued offset
  · rename_i quoted
    obtain ⟨run, one⟩ := Token.sourceRun?_of_keepsBackslashes escaped_of_ne (fun _ => rfl) nonempty
      back glued offset
    rw [toList_writeSource quoted, run, one]

theorem readsBack_of_sourceRun? (nonempty : name ≠ "") {glued : Bool} {offset count : Nat}
    (run : sourceRun? (Token.scanFrom (writeSource name).toList 0 glued offset) =
      some (name, count, false)) : readsBack name = true := by
  unfold readsBack
  split
  · rename_i unquoted
    rw [writeSource_of_isUnquoted unquoted] at run
    exact Token.opensBare_of_sourceRun? nonempty unquoted run
  · rename_i quoted
    rw [toList_writeSource quoted] at run
    exact Token.keepsBackslashes_of_sourceRun? escaped_of_ne (fun _ => rfl) nonempty run

theorem toList_indexQuery (name : String) :
    (indexQuery name).toList = 'F' :: (['R', 'O', 'M'] ++ ' ' :: (writeSource name).toList) := by
  rw [indexQuery, String.toList_append]
  rfl

/-- The question about an index is a source command that refers to that index and to nothing else,
unless the name is not read back. The command then refers to something else, if to anything. -/
theorem indexQuery_refers (nonempty : name ≠ "") :
    (readsBack name = true → (parse (indexQuery name)).errors = [] ∧
      ∃ command, (parse (indexQuery name)).pipeline.commands = [command] ∧
        command.name = "from" ∧ command.RefersOnlyTo name) ∧
      (readsBack name = false → ∀ command ∈ (parse (indexQuery name)).pipeline.commands.head?,
        ¬ command.RefersTo name) := by
  constructor
  · intro back
    exact refersOnlyTo_of_from (toList_indexQuery name) (sourceRun?_writeSource nonempty back _ _)
  · intro lost command first refers
    obtain ⟨count, run⟩ := exists_sourceRun?_of_from (toList_indexQuery name) first refers
    rw [readsBack_of_sourceRun? nonempty run] at lost
    cases lost

/-- A quote and a backslash before a letter that it does not escape are read back. -/
theorem indexQuery_refers_quoted :
    (parse (indexQuery "a\x22\\d")).errors = [] ∧
      ∃ command, (parse (indexQuery "a\x22\\d")).pipeline.commands = [command] ∧
        command.name = "from" ∧ command.RefersOnlyTo "a\x22\\d" :=
  (indexQuery_refers (by decide)).1 (by decide +kernel)

/-- A reserved word that opens a clause is asked about as if there were no index. -/
theorem not_indexQuery_refers : ¬ ∀ name, name ≠ "" →
    ∃ command, (parse (indexQuery name)).pipeline.commands = [command] ∧
      command.name = "from" ∧ command.RefersOnlyTo name := by
  intro all
  obtain ⟨command, commands, -, -, source, args, -⟩ := all "metadata" (by decide)
  have read : (parse (indexQuery "metadata")).pipeline.commands.map (·.sources) = [[]] := by
    decide +kernel
  rw [commands, List.map_singleton, Command.sources, args] at read
  cases read

end Esql.Schema
