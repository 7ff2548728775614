import Esql.Diagnostic.Basic
import Mathlib.Data.List.Basic
import Mathlib.Data.List.Perm.Basic

/-!
# Wordings and their parameters

A template has one division, from left to right, into closed groups and the text between them, and
filling it replaces the groups that name a parameter, once and for all. A diagnostic can be worded
anew from its notice and its parameters alone, if the parameters are those that the wording names.
Every finding states exactly the facts that its notice asks for, some of them in another order.
-/

namespace Esql

namespace Template

/-! ## Filling a template -/

/-- A part of a template: text that stays as it is, or a closed group with the name in it. -/
inductive Part where
  | plain (text : List Char)
  | group (name : List Char)

/-- What a part becomes: a group becomes the value of the parameter that it names, and all else
stays. -/
def Part.filled (params : Params) : Part → List Char
  | .plain text => text
  | .group name =>
      match params.lookup (String.ofList name) with
      | some value => value.toList
      | none => '\x7b' :: (name ++ ['\x7d'])

/-- The division of a template, read from left to right. A group goes from the first opening brace
to the first closing one behind it; a brace that is not closed opens nothing. -/
inductive Divided : List Char → List Part → Prop where
  | last {text : List Char} (plain : '\x7b' ∉ text) : Divided text [.plain text]
  | unclosed {text left : List Char} (plain : '\x7b' ∉ text) (opened : '\x7d' ∉ left) :
      Divided (text ++ '\x7b' :: left) [.plain (text ++ '\x7b' :: left)]
  | group {text name rest : List Char} {parts : List Part} (plain : '\x7b' ∉ text)
      (closed : '\x7d' ∉ name) (behind : Divided rest parts) :
      Divided (text ++ '\x7b' :: (name ++ '\x7d' :: rest)) (.plain text :: .group name :: parts)

section

variable {params : Params} {text name read rest cs : List Char} {parts others : List Part}

/-- Up to the next opening brace everything stays. -/
theorem fillFrom_plain (plain : '\x7b' ∉ text) :
    fillFrom params (text ++ rest) none = text ++ fillFrom params rest none := by
  induction text with
  | nil => rfl
  | cons c text ih =>
      rw [List.mem_cons, not_or] at plain
      have other : (c == '\x7b') = false := by simpa using Ne.symm plain.1
      rw [List.cons_append, fillFrom, other, if_neg Bool.false_ne_true, ih plain.2]
      rfl

theorem fillFrom_opening (params : Params) (rest : List Char) :
    fillFrom params ('\x7b' :: rest) none = fillFrom params rest (some []) := rfl

/-- A group that is not closed stays. -/
theorem fillFrom_unclosed (opened : '\x7d' ∉ name) :
    fillFrom params name (some read) = '\x7b' :: (read ++ name) := by
  induction name generalizing read with
  | nil => rw [List.append_nil, fillFrom]
  | cons c name ih =>
      rw [List.mem_cons, not_or] at opened
      have other : (c == '\x7d') = false := by simpa using Ne.symm opened.1
      rw [fillFrom, other, if_neg Bool.false_ne_true, ih opened.2, List.append_assoc]
      rfl

/-- A group is replaced where it closes, and filling goes on behind it. -/
theorem fillFrom_closed (closed : '\x7d' ∉ name) :
    fillFrom params (name ++ '\x7d' :: rest) (some read) =
      (Part.group (read ++ name)).filled params ++ fillFrom params rest none := by
  induction name generalizing read with
  | nil =>
      rw [List.nil_append, List.append_nil, fillFrom, beq_self_eq_true, if_pos rfl]
      rfl
  | cons c name ih =>
      rw [List.mem_cons, not_or] at closed
      have other : (c == '\x7d') = false := by simpa using Ne.symm closed.1
      rw [List.cons_append, fillFrom, other, if_neg Bool.false_ne_true, ih closed.2,
        List.append_assoc]
      rfl

/-- A template is filled part by part. -/
theorem Divided.fillFrom_eq (divided : Divided cs parts) :
    fillFrom params cs none = parts.flatMap (Part.filled params) := by
  induction divided with
  | @last text plain =>
      have whole : fillFrom params (text ++ []) none = text ++ fillFrom params [] none :=
        fillFrom_plain plain
      rw [List.append_nil, fillFrom, List.append_nil] at whole
      rw [whole, List.flatMap_singleton]
      rfl
  | unclosed plain opened =>
      rw [fillFrom_plain plain, fillFrom_opening, fillFrom_unclosed opened,
        List.flatMap_singleton]
      rfl
  | group plain closed behind ih =>
      rw [fillFrom_plain plain, fillFrom_opening, fillFrom_closed closed, ih]
      rfl

theorem exists_divided (cs : List Char) : ∃ parts, Divided cs parts := by
  generalize length : cs.length = bound
  induction bound using Nat.strongRecOn generalizing cs with
  | ind bound ih =>
      by_cases opens : '\x7b' ∈ cs
      · obtain ⟨text, left, rfl, plain⟩ := List.eq_append_cons_of_mem opens
        by_cases closes : '\x7d' ∈ left
        · obtain ⟨name, rest, rfl, closed⟩ := List.eq_append_cons_of_mem closes
          have shorter : rest.length < bound := by
            simp only [List.length_append, List.length_cons] at length
            omega
          obtain ⟨parts, behind⟩ := ih rest.length shorter rest rfl
          exact ⟨_, .group plain closed behind⟩
        · exact ⟨_, .unclosed plain closes⟩
      · exact ⟨_, .last opens⟩

/-- A text is divided in one way at the first occurrence of a character. -/
theorem append_cons_inj {c : Char} {first second left right : List Char} (absent : c ∉ first)
    (absent' : c ∉ second) (same : first ++ c :: left = second ++ c :: right) :
    first = second ∧ left = right := by
  induction first generalizing second with
  | nil =>
      cases second with
      | nil => exact ⟨rfl, (List.cons.inj same).2⟩
      | cons d second => exact absurd (List.cons.inj same).1 (List.ne_of_not_mem_cons absent')
  | cons d first ih =>
      cases second with
      | nil => exact absurd (List.cons.inj same).1.symm (List.ne_of_not_mem_cons absent)
      | cons e second =>
          obtain ⟨rfl, tails⟩ := List.cons.inj same
          obtain ⟨rfl, behind⟩ := ih (List.not_mem_of_not_mem_cons absent)
            (List.not_mem_of_not_mem_cons absent') tails
          exact ⟨rfl, behind⟩

/-- There is one division of a template only. -/
theorem Divided.unique {ds : List Char} (divided : Divided cs parts) (other : Divided ds others)
    (same : cs = ds) : others = parts := by
  induction divided generalizing ds others with
  | last plain =>
      cases other with
      | last plain' => rw [same]
      | unclosed | group =>
          rw [same] at plain
          exact absurd (List.mem_append_right _ List.mem_cons_self) plain
  | unclosed plain opened =>
      cases other with
      | last plain' =>
          rw [← same] at plain'
          exact absurd (List.mem_append_right _ List.mem_cons_self) plain'
      | unclosed => rw [same]
      | group plain' closed behind =>
          rw [(append_cons_inj plain plain' same).2] at opened
          exact absurd (List.mem_append_right _ List.mem_cons_self) opened
  | group plain closed behind ih =>
      cases other with
      | last plain' =>
          rw [← same] at plain'
          exact absurd (List.mem_append_right _ List.mem_cons_self) plain'
      | unclosed plain' opened =>
          rw [← (append_cons_inj plain plain' same).2] at opened
          exact absurd (List.mem_append_right _ List.mem_cons_self) opened
      | group plain' closed' behind' =>
          obtain ⟨rfl, inside⟩ := append_cons_inj plain plain' same
          obtain ⟨rfl, rest⟩ := append_cons_inj closed closed' inside
          rw [ih behind' rest]

end

/-- Filling is one pass over the parts of a template, of which there is one division: the groups
that name a parameter are replaced by its value, and all other text stays. Where no group names a
parameter, the template stays as it is. -/
theorem fill_divided (template : String) :
    ∃ parts, (∀ others, Divided template.toList others ↔ others = parts) ∧
      ∀ params, (fill template params).toList = parts.flatMap (Part.filled params) ∧
        ((∀ name, .group name ∈ parts → params.lookup (String.ofList name) = none) →
          fill template params = template) := by
  obtain ⟨parts, divided⟩ := exists_divided template.toList
  refine ⟨parts, fun others => ⟨fun other => divided.unique other rfl, ?_⟩,
    fun params => ⟨?_, fun unnamed => ?_⟩⟩
  · rintro rfl
    exact divided
  · rw [fill, String.toList_ofList, divided.fillFrom_eq]
  · have unchanged : parts.flatMap (Part.filled params) = parts.flatMap (Part.filled []) := by
      refine List.flatMap_congr fun part member => ?_
      cases part with
      | plain text => rfl
      | group name => rw [Part.filled, unnamed name member, Part.filled, List.lookup_nil]
    rw [fill, divided.fillFrom_eq, unchanged, ← divided.fillFrom_eq, ← fill, fill_nil]

/-- A value is not filled again, and a brace before a group takes the group into its own name. -/
example : fill "\x7ba\x7d \x7b\x7bb\x7d \x7bb\x7d \x7ba" [("a", "\x7bb\x7d"), ("b", "1")] =
    "\x7bb\x7d \x7b\x7bb\x7d 1 \x7ba" := by decide +kernel

end Template

namespace Params

/-- Another parameter adds its name. -/
theorem mem_names_insert (key name value : String) (params : Params) :
    key ∈ (insert name value params).map Prod.fst ↔ key = name ∨ key ∈ params.map Prod.fst := by
  induction params with
  | nil => simp [insert]
  | cons param rest ih =>
      obtain ⟨other, held⟩ := param
      rw [insert]
      split
      · rename_i same
        rw [beq_iff_eq.mp same]
        simp
      · split
        · simp
        · rw [List.map_cons, List.mem_cons, ih, List.map_cons, List.mem_cons]
          exact or_left_comm

/-- The parameters have the names of the facts that they were made from. -/
theorem mem_names_ofList (key : String) (facts : List (String × String)) :
    key ∈ (ofList facts).map Prod.fst ↔ key ∈ facts.map Prod.fst := by
  have general (sorted : Params) :
      key ∈ (facts.foldl (fun sorted param => insert param.1 param.2 sorted) sorted).map Prod.fst ↔
        key ∈ facts.map Prod.fst ∨ key ∈ sorted.map Prod.fst := by
    induction facts generalizing sorted with
    | nil => simp
    | cons fact rest ih =>
        rw [List.foldl_cons, ih, mem_names_insert, List.map_cons, List.mem_cons, or_left_comm,
          or_assoc]
  rw [ofList, general, List.map_nil, List.mem_nil_iff, or_false]

end Params

/-- The parameters that a notice asks for, in the order in which its wording names them. -/
def Notice.asked : Notice → List String
  | .syntaxError => ["detail"]
  | .unknownColumn | .unknownIndex | .unknownFunction | .unknownPolicy => ["name"]
  | .unknownMetadataField => ["value", "available"]
  | .unknownInterval | .wrongDissectOptionArgumentType | .invalidSampleProbability => ["value"]
  | .unknownDissectKeyword => ["keyword"]
  | .wrongArgumentNumber => ["fn", "expected", "actual"]
  | .wrongArgumentType => ["fn", "expected", "value", "given"]
  | .expectedConstant => ["fn", "value"]
  | .unsupportedLiteralOption => ["value", "fn", "accepted"]
  | .unsupportedFunctionForCommand => ["command", "name"]
  | .unsupportedFunctionForCommandOption => ["command", "option", "name"]
  | .aggInAggFunction => ["nested", "outer"]
  | .noAggFunction | .expressionNotAggClosed => ["command", "expression"]
  | .statsNoArguments => ["command"]
  | .unsupportedColumnTypeForCommand => ["command", "expected", "column", "given"]
  | .wildcardNotSupportedForCommand => ["command", "value"]
  | .unsupportedSettingCommandValue => ["value", "command", "expected"]
  | .licenseRequired => ["name", "requiredLicense"]
  | .licenseRequiredForSignature => ["name", "signature", "requiredLicense"]
  | .invalidJoinIndex => ["identifier"]
  | .unsupportedFieldType => ["field"]
  | .schemaUnavailable => ["reason"]
  | .dropAllColumnsError | .tooManyForks | .forkTooFewBranches | .metadataBracketsDeprecation => []

/-- The names in a text that is given as its characters. -/
theorem Template.names_ofList (cs : List Char) : names (String.ofList cs) = namesFrom cs none := by
  rw [names, String.toList_ofList]

set_option maxRecDepth 1000 in
-- The longest wording has more characters than the default depth.
theorem Notice.names_wording (notice : Notice) : Template.names notice.wording = notice.asked := by
  cases notice
  -- The characters of a wording are taken from the literal, not out of its bytes.
  all_goals
    delta wording
    dsimp only [String.reduceAppend]
    refine (Template.names_ofList _).trans ?_
    decide +kernel

namespace Finding

/-- The facts of a finding are those that its notice asks for. -/
theorem facts_perm (finding : Finding) :
    (finding.facts.map Prod.fst).Perm finding.notice.asked := by
  cases finding with
  | unsupportedLiteralOption => exact .swap _ _ _
  | unsupportedSetting => exact .swap _ _ _
  | _ => exact .refl _

/-- The parameters of a diagnostic are those that its wording names. -/
theorem mem_names_about (finding : Finding) (span : Span) (key : String) :
    key ∈ (finding.about span).params.map Prod.fst ↔
      key ∈ Template.names (finding.about span).notice.wording := by
  rw [about, Diagnostic.worded, Params.mem_names_ofList, Notice.names_wording]
  exact finding.facts_perm.mem_iff

end Finding

end Esql
