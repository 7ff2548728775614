import Esql.Completion.Suggestion
import Esql.Proofs.Grammar.Sources
import Esql.Proofs.Token.Quotes

/-!
# What an accepted name refers to

The name of an index or of a policy is read again once it is accepted. An index with an unusual
character in its name is put into quotes as it is, so a quote inside ends it early and a backslash
may be lost. The name of a policy is never quoted.
-/

namespace Esql

open Grammar Text.Source

namespace Suggestion

variable {index : Index}

/-- An index is read again under its name: without quotes it begins like a source, and in quotes it
holds none of them and keeps its backslashes. -/
def readsIndex (name : String) : Bool :=
  if isUnquoted name then opensBare name.toList
  else !name.toList.contains '\x22' && keepsBackslashes name.toList

theorem source_text_of_isUnquoted (unquoted : isUnquoted index.name = true) :
    (source index).text = index.name := if_pos unquoted

theorem source_text_of_quoted (quoted : ¬ isUnquoted index.name = true) :
    (source index).text.toList = '\x22' :: (index.name.toList ++ ['\x22']) := by
  have written : (source index).text =
      String.ofList ('\x22' :: (index.name.toList ++ ['\x22'])) := if_neg quoted
  rw [written, String.toList_ofList]

theorem sourceRun?_source (nonempty : index.name ≠ "") (reads : readsIndex index.name = true)
    (glued : Bool) (offset : Nat) :
    sourceRun? (Token.scanFrom (source index).text.toList 0 glued offset) =
      some (index.name, (Token.scanFrom (source index).text.toList 0 glued offset).length,
        false) := by
  unfold readsIndex at reads
  split at reads
  · rename_i unquoted
    rw [source_text_of_isUnquoted unquoted]
    exact Token.sourceRun?_of_opensBare nonempty unquoted reads glued offset
  · rename_i quoted
    obtain ⟨noQuote, kept⟩ := Bool.and_eq_true_iff.mp reads
    rw [Bool.not_eq_true', List.contains_eq_mem, decide_eq_false_iff_not] at noQuote
    obtain ⟨run, one⟩ := Token.sourceRun?_of_keepsBackslashes (fun _ _ => rfl)
      (fun inside => absurd inside noQuote) nonempty kept glued offset
    rw [List.flatMap_singleton'] at run one
    rw [source_text_of_quoted quoted, run, one]

theorem readsIndex_of_sourceRun? (nonempty : index.name ≠ "") {glued : Bool} {offset count : Nat}
    (run : sourceRun? (Token.scanFrom (source index).text.toList 0 glued offset) =
      some (index.name, count, false)) : readsIndex index.name = true := by
  unfold readsIndex
  split
  · rename_i unquoted
    rw [source_text_of_isUnquoted unquoted] at run
    exact Token.opensBare_of_sourceRun? nonempty unquoted run
  · rename_i quoted
    rw [source_text_of_quoted quoted] at run
    have noQuote : '\x22' ∉ index.name.toList := by
      intro inside
      obtain ⟨value, terminated, more, read⟩ :=
        Lexeme.exists_quotedString (index.name.toList ++ ['\x22'])
      rw [Token.sourceRun?_quote read] at run
      obtain ⟨rfl, -, closed⟩ := Prod.mk.inj (Option.some.inj run) |>.imp_right Prod.mk.inj
      rw [Bool.not_eq_false'] at closed
      subst closed
      exact Nat.lt_irrefl _ (Lexeme.length_lt_of_quotedString inside read)
    have absent : index.name.toList.contains '\x22' = false := by
      rwa [List.contains_eq_mem, decide_eq_false_iff_not]
    rw [← List.flatMap_singleton' index.name.toList] at run
    rw [absent]
    exact Token.keepsBackslashes_of_sourceRun? (fun _ _ => rfl)
      (fun inside => absurd inside noQuote) nonempty run

/-! ## Behind the name of a command -/

/-- A source command that goes on with an index as it is accepted. -/
def sourceQuery (index : Index) : String := "FROM " ++ (source index).text

/-- An enrich command that goes on with a policy as it is accepted. -/
def enrichQuery (accepted : EnrichPolicy) : String := "FROM a | ENRICH " ++ (policy accepted).text

theorem toList_sourceQuery (index : Index) :
    (sourceQuery index).toList =
      'F' :: (['R', 'O', 'M'] ++ ' ' :: (source index).text.toList) := by
  rw [sourceQuery, String.toList_append]
  rfl

theorem toList_enrichQuery (accepted : EnrichPolicy) :
    (enrichQuery accepted).toList =
      "FROM a |".toList ++ ' ' :: (Verb.enrich.label.toList ++ ' ' ::
        (accepted.name.toList ++ [' '])) := by
  have written : (policy accepted).text = accepted.name ++ " " := rfl
  rw [enrichQuery, written, String.toList_append, String.toList_append]
  rfl

/-- The source command refers to the index and to nothing else if it is read again, and does not
begin with it otherwise. -/
theorem sourceQuery_refers (nonempty : index.name ≠ "") :
    (readsIndex index.name = true → (parse (sourceQuery index)).errors = [] ∧
      ∃ command, (parse (sourceQuery index)).pipeline.commands = [command] ∧
        command.name = "from" ∧ command.RefersOnlyTo index.name) ∧
      (readsIndex index.name = false →
        ∀ command ∈ (parse (sourceQuery index)).pipeline.commands.head?,
          ¬ command.RefersTo index.name) := by
  have whole := toList_sourceQuery index
  constructor
  · intro reads
    exact refersOnlyTo_of_from whole (sourceRun?_source nonempty reads _ _)
  · intro lost command first refers
    obtain ⟨count, run⟩ := exists_sourceRun?_of_from whole first refers
    rw [readsIndex_of_sourceRun? nonempty run] at lost
    cases lost

/-- So does the enrich command with the policy, whose name has to be a bare one. -/
theorem enrichQuery_refers {accepted : EnrichPolicy} (nonempty : accepted.name ≠ "") :
    (isBareName accepted.name = true → (parse (enrichQuery accepted)).errors = [] ∧
      ∃ first command, (parse (enrichQuery accepted)).pipeline.commands = [first, command] ∧
        command.name = "enrich" ∧ command.RefersOnlyTo accepted.name) ∧
      (isBareName accepted.name = false →
        ∀ command ∈ (parse (enrichQuery accepted)).pipeline.commands[1]?,
          ¬ command.RefersTo accepted.name) := by
  have whole := toList_enrichQuery accepted
  have blank : Text.Blank [' '] := by
    rintro c ⟨⟩
    · decide
    · contradiction
  constructor
  · intro bare
    exact refersOnlyTo_of_enrich whole
      (Token.sourceRun?_of_isBareName blank (Nat.le_refl 1) nonempty bare _ _)
  · intro lost command second refers
    obtain ⟨count, run⟩ := exists_sourceRun?_of_enrich whole second refers
    rw [Token.isBareName_of_sourceRun? blank (Nat.le_refl 1) nonempty run] at lost
    cases lost

/-- Accepting an index or a policy refers to it in exactly these cases. -/
theorem accepted_refers (index : Index) (accepted : EnrichPolicy) (indexed : index.name ≠ "")
    (named : accepted.name ≠ "") :
    ((readsIndex index.name = true → (parse (sourceQuery index)).errors = [] ∧
      ∃ command, (parse (sourceQuery index)).pipeline.commands = [command] ∧
        command.name = "from" ∧ command.RefersOnlyTo index.name) ∧
      (readsIndex index.name = false →
        ∀ command ∈ (parse (sourceQuery index)).pipeline.commands.head?,
          ¬ command.RefersTo index.name)) ∧
    (isBareName accepted.name = true → (parse (enrichQuery accepted)).errors = [] ∧
      ∃ first command, (parse (enrichQuery accepted)).pipeline.commands = [first, command] ∧
        command.name = "enrich" ∧ command.RefersOnlyTo accepted.name) ∧
      (isBareName accepted.name = false →
        ∀ command ∈ (parse (enrichQuery accepted)).pipeline.commands[1]?,
          ¬ command.RefersTo accepted.name) :=
  ⟨sourceQuery_refers indexed, enrichQuery_refers named⟩

/-- A pipe in the name of an index stays in its quotes, and a reserved word that opens no clause is
a policy. -/
theorem accepted_refers_pipe :
    (∃ command, (parse (sourceQuery ⟨"logs | a", false, none⟩)).pipeline.commands = [command] ∧
      command.name = "from" ∧ command.RefersOnlyTo "logs | a") ∧
    ∃ first command,
      (parse (enrichQuery ⟨"in", [], "", []⟩)).pipeline.commands = [first, command] ∧
        command.name = "enrich" ∧ command.RefersOnlyTo "in" := by
  have accepted := accepted_refers ⟨"logs | a", false, none⟩ ⟨"in", [], "", []⟩ (by decide)
    (by decide)
  exact ⟨(accepted.1.1 (by decide +kernel)).2, (accepted.2.1 (by decide +kernel)).2⟩

/-- A quote in the name of an index ends it early, and a blank in the name of a policy does too. -/
theorem not_accepted_refers :
    (¬ ∀ index : Index, index.name ≠ "" →
      ∃ command ∈ (parse (sourceQuery index)).pipeline.commands, ∃ source ∈ command.sources,
        source.name = index.name) ∧
    ¬ ∀ accepted : EnrichPolicy, accepted.name ≠ "" →
      ∃ command ∈ (parse (enrichQuery accepted)).pipeline.commands, ∃ source ∈ command.sources,
        source.name = accepted.name := by
  constructor
  · intro all
    exact absurd (all ⟨"a\x22b", false, none⟩ (by decide)) (by decide +kernel)
  · intro all
    exact absurd (all ⟨"my policy", [], "", []⟩ (by decide)) (by decide +kernel)

end Suggestion

end Esql
