import Esql.Proofs.Extraction.Dissect
import Esql.Proofs.Text.Bare
import Mathlib.Data.List.Infix

/-!
# Columns of grok patterns

A grok pattern is made of literals with parts between them: references in braces, named groups, and
lookbehind assertions, which begin like a named group. References are found as they are written. A
scan for named groups takes a lookbehind for the beginning of a group, and takes what stands up to
the next angle bracket for its name. So an assertion with an angle bracket behind it gives a column
of its own, and a group that begins before that bracket is not seen.
-/

namespace Esql.Extraction

/-! ## Patterns -/

/-- What is written in the braces of a reference: the name of a pattern, maybe that of a column,
and then maybe that of a type. -/
def referenceChars (pattern : List Char) : Option (List Char × Option (List Char)) → List Char
  | none => pattern
  | some (name, none) => pattern ++ ':' :: name
  | some (name, some type) => pattern ++ ':' :: (name ++ ':' :: type)

/-- A reference ends at the first closing brace, and no group begins in it. -/
structure GrokReference where
  pattern : List Char
  named? : Option (List Char × Option (List Char))
  noColon : ':' ∉ pattern
  single : ∀ named ∈ named?, ':' ∉ named.1
  closed : '\x7d' ∉ referenceChars pattern named?
  opensNone : ¬ ['(', '?', '<'] <:+: referenceChars pattern named?

namespace GrokReference

variable (reference : GrokReference)

def chars : List Char := referenceChars reference.pattern reference.named?

/-- The column of the reference, if there is a name for it. -/
def column? : Option String :=
  (reference.named?.map fun named => String.ofList named.1).filter fun name => !name.isEmpty

end GrokReference

/-- The character that makes a lookbehind of what begins like a named group. -/
def lookbehindSign (negated : Bool) : Char := if negated then '!' else '='

/-- It begins like the inside of a lookbehind. -/
def Signed (cs : List Char) : Prop := ∃ negated, cs.head? = some (lookbehindSign negated)

instance (cs : List Char) : Decidable (Signed cs) :=
  inferInstanceAs (Decidable (∃ negated, cs.head? = some (lookbehindSign negated)))

/-- The name of a group. It ends at the first angle bracket, and no reference begins in it. -/
structure GroupName where
  chars : List Char
  nonempty : chars ≠ []
  unsigned : ¬ Signed chars
  closed : '>' ∉ chars
  opensNone : ¬ ['%', '\x7b'] <:+: chars

/-- What a grok pattern holds besides literals. What is asserted by a lookbehind, and the closing
parenthesis of a group or a lookbehind, are literals like any other text. -/
inductive GrokPart where
  | reference (reference : GrokReference)
  | group (name : GroupName)
  | lookbehind (negated : Bool)

namespace GrokPart

def chars : GrokPart → List Char
  | reference inner => '%' :: '\x7b' :: (inner.chars ++ ['\x7d'])
  | group name => '(' :: '?' :: '<' :: (name.chars ++ ['>'])
  | lookbehind negated => ['(', '?', '<', lookbehindSign negated]

def reference? : GrokPart → Option GrokReference
  | reference inner => some inner
  | group _ | lookbehind _ => none

def group? : GrokPart → Option (List Char)
  | group name => some name.chars
  | reference _ | lookbehind _ => none

end GrokPart

/-- A stretch of a grok pattern in which no reference and no group begins. -/
structure GrokLiteral where
  chars : List Char
  opensNoReference : ¬ ['%', '\x7b'] <:+: chars
  opensNoGroup : ¬ ['(', '?', '<'] <:+: chars

/-- The text of some parts, each with the literal behind it. -/
def partsText (parts : List (GrokPart × GrokLiteral)) : List Char :=
  parts.flatMap fun part => part.1.chars ++ part.2.chars

/-- A grok pattern: a literal, and parts with a literal behind each. -/
structure GrokPattern where
  lead : GrokLiteral
  parts : List (GrokPart × GrokLiteral)

namespace GrokPattern

variable (pattern : GrokPattern)

def text : String := String.ofList (pattern.lead.chars ++ partsText pattern.parts)

/-- The columns of the references that name one. -/
def references : List String :=
  pattern.parts.filterMap fun part => part.1.reference?.bind GrokReference.column?

/-- The names of the groups. -/
def groups : List String :=
  pattern.parts.filterMap fun part => part.1.group?.map String.ofList

end GrokPattern

/-! ## Captures -/

/-- The characters go on the name of a group, up to an angle bracket if there is one among them. The
group stays open with a longer name, or is closed and gives its name. -/
def captureIn (taken cs : List Char) : Option (List Char) × List (List Char) :=
  if '>' ∈ cs then (none, [taken ++ cs.takeWhile (· != '>')]) else (some (taken ++ cs), [])

/-- What is captured at a part with the literal behind it, given the name of the group that is open.
A lookbehind opens a group. -/
def GrokPart.capture (part : GrokPart) (literal : List Char) :
    Option (List Char) → Option (List Char) × List (List Char)
  | some taken => captureIn taken (part.chars ++ literal)
  | none =>
      match part with
      | reference _ => (none, [])
      | group name => (none, [name.chars])
      | lookbehind negated => captureIn [lookbehindSign negated] literal

/-- What is captured at some parts one after the other. A group that is never closed gives no
name. -/
def capturesFrom : Option (List Char) → List (GrokPart × GrokLiteral) → List (List Char)
  | _, [] => []
  | open?, (part, literal) :: rest =>
      (part.capture literal.chars open?).2 ++ capturesFrom (part.capture literal.chars open?).1 rest

/-- The names that are taken for those of groups. -/
def GrokPattern.captures (pattern : GrokPattern) : List String :=
  (capturesFrom none pattern.parts).map String.ofList

/-- An angle bracket stands somewhere behind a lookbehind. -/
def RunsOn (parts : List (GrokPart × GrokLiteral)) : Prop :=
  ∃ negated literal rest, (GrokPart.lookbehind negated, literal) :: rest <:+ parts ∧
    '>' ∈ literal.chars ++ partsText rest

/-! ## References -/

theorem reference?_chars (reference : GrokReference) :
    (reference? reference.chars).map Prod.fst =
      reference.named?.map fun named => String.ofList named.1 := by
  obtain ⟨pattern, named?, noColon, single, -, -⟩ := reference
  rcases named? with _ | ⟨name, _ | type⟩
  · rw [reference?, GrokReference.chars, referenceChars, Text.pieces_of_notMem noColon]
    rfl
  · rw [reference?, GrokReference.chars, referenceChars, Text.pieces_append noColon,
      Text.pieces_of_notMem (single _ rfl)]
    rfl
  · rw [reference?, GrokReference.chars, referenceChars, Text.pieces_append noColon,
      Text.pieces_append (single _ rfl)]
    rfl

/-- No group begins in a reference or in the literal behind it. -/
theorem not_groupMark_reference (reference : GrokReference) (literal : GrokLiteral) :
    ¬ ['(', '?', '<'] <:+: (GrokPart.reference reference).chars ++ literal.chars := by
  have inner : ¬ ['(', '?', '<'] <:+: reference.chars ++ '\x7d' :: literal.chars :=
    Text.not_infix_append_cons (List.cons_ne_nil _ _) (by decide) reference.opensNone
      literal.opensNoGroup
  have whole : ¬ ['(', '?', '<'] <:+:
      ['%'] ++ '\x7b' :: (reference.chars ++ '\x7d' :: literal.chars) :=
    Text.not_infix_append_cons (List.cons_ne_nil _ _) (by decide) (by decide) inner
  simpa [GrokPart.chars] using whole

/-- No reference begins in a group or a lookbehind, or in the literal behind it. -/
theorem not_referenceMark_of_group (part : GrokPart) (other : part.reference? = none)
    (literal : GrokLiteral) : ¬ ['%', '\x7b'] <:+: part.chars ++ literal.chars := by
  have opened {cs : List Char} (inner : ¬ ['%', '\x7b'] <:+: cs) :
      ¬ ['%', '\x7b'] <:+: ['(', '?'] ++ '<' :: cs :=
    Text.not_infix_append_cons (List.cons_ne_nil _ _) (by decide) (by decide) inner
  cases part with
  | reference inner => cases other
  | group name =>
      have inner : ¬ ['%', '\x7b'] <:+: name.chars ++ '>' :: literal.chars :=
        Text.not_infix_append_cons (List.cons_ne_nil _ _) (by decide) name.opensNone
          literal.opensNoReference
      simpa [GrokPart.chars] using opened inner
  | lookbehind negated =>
      have inner : ¬ ['%', '\x7b'] <:+: [] ++ lookbehindSign negated :: literal.chars :=
        Text.not_infix_append_cons (List.cons_ne_nil _ _) (by cases negated <;> decide) (by decide)
          literal.opensNoReference
      simpa [GrokPart.chars] using opened inner

/-- No mark that begins in a literal goes on in the part behind it. -/
theorem head?_partsText (parts : List (GrokPart × GrokLiteral)) :
    ∀ c ∈ (partsText parts).head?, c ∉ ['\x7b'] ∧ c ∉ ['?', '<'] := by
  rcases parts with _ | ⟨⟨_ | _ | _, literal⟩, rest⟩
  · exact nofun
  all_goals
    rintro _ ⟨⟩
    decide

theorem partsText_cons (part : GrokPart) (literal : GrokLiteral)
    (rest : List (GrokPart × GrokLiteral)) :
    partsText ((part, literal) :: rest) = part.chars ++ literal.chars ++ partsText rest := by
  rw [partsText, List.flatMap_cons]
  rfl

theorem length_le_partsText (parts : List (GrokPart × GrokLiteral)) :
    parts.length ≤ (partsText parts).length := by
  induction parts with
  | nil => exact Nat.zero_le _
  | cons part rest ih =>
      have some : 0 < part.1.chars.length := by
        rcases part with ⟨_ | _ | _, _⟩ <;> exact Nat.zero_lt_succ _
      rw [partsText_cons, List.length_append, List.length_append, List.length_cons]
      omega

theorem groupsUpTo_reference (reference : GrokReference) (literal : GrokLiteral) (fuel : Nat)
    {rest : List Char} (apart : ∀ c ∈ rest.head?, c ∉ ['\x7b']) :
    groupsUpTo ['%', '\x7b'] ['\x7d'] (fuel + 1)
        ((GrokPart.reference reference).chars ++ literal.chars ++ rest) =
      reference.chars :: groupsUpTo ['%', '\x7b'] ['\x7d'] fuel rest := by
  have written : (GrokPart.reference reference).chars ++ literal.chars ++ rest =
      ['%', '\x7b'] ++ (reference.chars ++ ['\x7d'] ++ (literal.chars ++ rest)) := by
    simp [GrokPart.chars]
  have closed : ¬ ['\x7d'] <:+: reference.chars :=
    mt (List.singleton_infix_iff _ _).mp reference.closed
  rw [written, groupsUpTo_group List.not_mem_nil closed,
    groupsUpTo_pass literal.opensNoReference apart]

/-- The references are found one after the other, whatever stands between them. -/
theorem groupsUpTo_references (parts : List (GrokPart × GrokLiteral)) {fuel : Nat}
    (enough : parts.length ≤ fuel) :
    groupsUpTo ['%', '\x7b'] ['\x7d'] fuel (partsText parts) =
      (parts.filterMap fun part => part.1.reference?).map GrokReference.chars := by
  induction parts generalizing fuel with
  | nil => cases fuel <;> rfl
  | cons part rest ih =>
      obtain ⟨part, literal⟩ := part
      have apart := fun c first => (head?_partsText rest c first).1
      rw [partsText_cons]
      cases found : part.reference? with
      | none =>
          rw [groupsUpTo_pass (not_referenceMark_of_group part found literal) apart,
            ih (Nat.le_of_succ_le enough), List.filterMap_cons, found]
      | some reference =>
          cases part <;> cases found
          cases fuel with
          | zero => cases enough
          | succ fuel =>
              rw [groupsUpTo_reference reference literal fuel apart,
                ih (Nat.le_of_succ_le_succ enough)]
              rfl

theorem braced_text (pattern : GrokPattern) :
    braced pattern.text =
      (pattern.parts.filterMap fun part => part.1.reference?).map GrokReference.chars := by
  have opens : "%\x7b".toList = ['%', '\x7b'] := by decide
  have closes : "\x7d".toList = ['\x7d'] := by decide
  have enough := length_le_partsText pattern.parts
  rw [braced, groups, opens, closes, GrokPattern.text, String.toList_ofList,
    groupsUpTo_pass pattern.lead.opensNoReference fun c first => (head?_partsText _ c first).1]
  exact groupsUpTo_references _ (by rw [List.length_append]; omega)

/-! ## Groups -/

/-- A scan for groups inside or outside of one. -/
def scanFrom (open? : Option (List Char)) (fuel : Nat) (cs : List Char) : List (List Char) :=
  match open? with
  | none => groupsUpTo ['(', '?', '<'] ['>'] fuel cs
  | some taken => resumed ['(', '?', '<'] ['>'] taken fuel cs

/-- A scan up to an angle bracket passes over what holds none. -/
theorem bne_bracket {cs : List Char} (absent : '>' ∉ cs) : ∀ c ∈ cs, (c != '>') = true :=
  fun _ inside => bne_iff_ne.mpr (ne_of_mem_of_not_mem inside absent)

theorem not_groupMark_tail {cs : List Char} (none : ¬ ['(', '?', '<'] <:+: cs) :
    ¬ ['(', '?', '<'] <:+: (cs.dropWhile (· != '>')).tail := fun found =>
  none (found.trans ((List.tail_suffix _).trans (List.dropWhile_suffix _)).isInfix)

/-- Nothing behind the first angle bracket of a part and the literal behind it begins a group. -/
theorem not_groupMark_behind (part : GrokPart) (literal : GrokLiteral) :
    ¬ ['(', '?', '<'] <:+: ((part.chars ++ literal.chars).dropWhile (· != '>')).tail := by
  cases part with
  | reference inner => exact not_groupMark_tail (not_groupMark_reference inner literal)
  | group name =>
      have split : ((GrokPart.group name).chars ++ literal.chars).dropWhile (· != '>') =
          '>' :: literal.chars := by
        change (name.chars ++ ['>'] ++ literal.chars).dropWhile (· != '>') = _
        rw [List.append_assoc, List.dropWhile_append_of_pos (bne_bracket name.closed)]
        rfl
      rw [split]
      exact literal.opensNoGroup
  | lookbehind negated =>
      have passed : ((GrokPart.lookbehind negated).chars ++ literal.chars).dropWhile (· != '>') =
          literal.chars.dropWhile (· != '>') := by
        cases negated <;> rfl
      rw [passed]
      exact not_groupMark_tail literal.opensNoGroup

section

variable {rest : List Char} (apart : ∀ c ∈ rest.head?, c ∉ ['?', '<'])

include apart

/-- A scan inside a group, over characters behind whose first angle bracket no group begins. -/
theorem scanFrom_captureIn {cs : List Char} (taken : List Char) (fuel : Nat)
    (behind : ¬ ['(', '?', '<'] <:+: (cs.dropWhile (· != '>')).tail) :
    scanFrom (some taken) fuel (cs ++ rest) =
      (captureIn taken cs).2 ++ scanFrom (captureIn taken cs).1 fuel rest := by
  rw [captureIn]
  split
  · rename_i closes
    obtain ⟨front, back, rfl, absent⟩ := List.eq_append_cons_of_mem closes
    have unclosed : ¬ ['>'] <:+: front := mt (List.singleton_infix_iff _ _).mp absent
    have plain := bne_bracket absent
    have word : (front ++ '>' :: back).takeWhile (· != '>') = front :=
      (List.takeWhile_append_of_pos plain).trans (List.append_nil front)
    have bare : ¬ ['(', '?', '<'] <:+: back := by
      rw [List.dropWhile_append_of_pos plain] at behind
      exact behind
    have split : front ++ '>' :: back ++ rest = front ++ ['>'] ++ (back ++ rest) := by simp
    rw [split, word, scanFrom, scanFrom, resumed_closing taken List.not_mem_nil unclosed,
      groupsUpTo_pass bare apart]
    rfl
  · rename_i absent
    exact resumed_pass taken (mt (List.singleton_infix_iff _ _).mp absent) fun _ _ =>
      List.not_mem_nil

theorem scanFrom_group (name : GroupName) (literal : GrokLiteral) (fuel : Nat) :
    scanFrom none (fuel + 1) ((GrokPart.group name).chars ++ literal.chars ++ rest) =
      name.chars :: scanFrom none fuel rest := by
  have written : (GrokPart.group name).chars ++ literal.chars ++ rest =
      ['(', '?', '<'] ++ (name.chars ++ ['>'] ++ (literal.chars ++ rest)) := by
    simp [GrokPart.chars]
  have closed : ¬ ['>'] <:+: name.chars := mt (List.singleton_infix_iff _ _).mp name.closed
  rw [written, scanFrom, scanFrom, groupsUpTo_group List.not_mem_nil closed,
    groupsUpTo_pass literal.opensNoGroup apart]

theorem scanFrom_lookbehind (negated : Bool) (literal : GrokLiteral) (fuel : Nat) :
    scanFrom none (fuel + 1) ((GrokPart.lookbehind negated).chars ++ literal.chars ++ rest) =
      (captureIn [lookbehindSign negated] literal.chars).2 ++
        scanFrom (captureIn [lookbehindSign negated] literal.chars).1 fuel rest := by
  have written : (GrokPart.lookbehind negated).chars ++ literal.chars ++ rest =
      ['(', '?', '<'] ++ ([lookbehindSign negated] ++ (literal.chars ++ rest)) := by
    simp [GrokPart.chars]
  have unclosed : ¬ ['>'] <:+: [lookbehindSign negated] := by cases negated <;> decide
  rw [written, scanFrom, groupsUpTo_opening (List.cons_ne_nil _ _),
    resumed_pass [] unclosed fun _ _ => List.not_mem_nil]
  exact scanFrom_captureIn apart _ fuel (not_groupMark_tail literal.opensNoGroup)

end

/-- What a scan captures at some parts, starting inside or outside of a group. -/
theorem scanFrom_partsText (parts : List (GrokPart × GrokLiteral)) (open? : Option (List Char))
    {fuel : Nat} (enough : parts.length ≤ fuel) :
    scanFrom open? fuel (partsText parts) = capturesFrom open? parts := by
  induction parts generalizing open? fuel with
  | nil =>
      cases open? with
      | none => cases fuel <;> rfl
      | some taken => rfl
  | cons part rest ih =>
      obtain ⟨part, literal⟩ := part
      have apart := fun c first => (head?_partsText rest c first).2
      rw [partsText_cons, capturesFrom]
      cases open? with
      | some taken =>
          rw [scanFrom_captureIn apart taken fuel (not_groupMark_behind part literal),
            ih _ (Nat.le_of_succ_le enough)]
          rfl
      | none =>
          cases part with
          | reference inner =>
              rw [scanFrom, groupsUpTo_pass (not_groupMark_reference inner literal) apart]
              exact ih none (Nat.le_of_succ_le enough)
          | group name =>
              cases fuel with
              | zero => cases enough
              | succ fuel =>
                  rw [scanFrom_group apart, ih none (Nat.le_of_succ_le_succ enough)]
                  rfl
          | lookbehind negated =>
              cases fuel with
              | zero => cases enough
              | succ fuel =>
                  rw [scanFrom_lookbehind apart, ih _ (Nat.le_of_succ_le_succ enough)]
                  rfl

theorem groups_text (pattern : GrokPattern) :
    groups "(?<" ">" pattern.text = capturesFrom none pattern.parts := by
  have opens : "(?<".toList = ['(', '?', '<'] := by decide
  have closes : ">".toList = ['>'] := by decide
  have enough := length_le_partsText pattern.parts
  rw [groups, opens, closes, GrokPattern.text, String.toList_ofList,
    groupsUpTo_pass pattern.lead.opensNoGroup fun c first => (head?_partsText _ c first).2]
  exact scanFrom_partsText _ none (by rw [List.length_append]; omega)

/-! ## What is captured -/

theorem Signed.append {taken : List Char} (signed : Signed taken) (cs : List Char) :
    Signed (taken ++ cs) := by
  obtain ⟨negated, first⟩ := signed
  exact ⟨negated, by rw [List.head?_append, first]; rfl⟩

theorem Signed.ne_nil {cs : List Char} (signed : Signed cs) : cs ≠ [] := by
  rintro rfl
  obtain ⟨negated, first⟩ := signed
  cases first

theorem signed_captureIn {taken : List Char} (signed : Signed taken) (cs : List Char) :
    (∀ capture ∈ (captureIn taken cs).2, Signed capture) ∧
      ∀ name ∈ (captureIn taken cs).1, Signed name := by
  rw [captureIn]
  split
  · refine ⟨?_, nofun⟩
    rw [List.forall_mem_singleton]
    exact signed.append _
  · refine ⟨List.forall_mem_nil _, ?_⟩
    rintro _ ⟨⟩
    exact signed.append _

/-- A group that is open was opened by a lookbehind. So whatever is captured is the name of a group
or begins like the inside of a lookbehind. -/
theorem signed_capture (part : GrokPart) (literal : List Char) {open? : Option (List Char)}
    (opened : ∀ taken ∈ open?, Signed taken) :
    (∀ capture ∈ (part.capture literal open?).2, Signed capture ∨ part.group? = some capture) ∧
      ∀ taken ∈ (part.capture literal open?).1, Signed taken := by
  cases open? with
  | some taken =>
      obtain ⟨captured, left⟩ := signed_captureIn (opened taken rfl) (part.chars ++ literal)
      exact ⟨fun capture member => .inl (captured capture member), left⟩
  | none =>
      cases part with
      | reference inner => exact ⟨List.forall_mem_nil _, nofun⟩
      | group name =>
          refine ⟨?_, nofun⟩
          exact List.forall_mem_singleton.mpr (.inr rfl)
      | lookbehind negated =>
          have signed : Signed [lookbehindSign negated] := ⟨negated, rfl⟩
          obtain ⟨captured, left⟩ := signed_captureIn signed literal
          exact ⟨fun capture member => .inl (captured capture member), left⟩

theorem signed_or_group_of_capturesFrom {parts : List (GrokPart × GrokLiteral)}
    {open? : Option (List Char)} (opened : ∀ taken ∈ open?, Signed taken) {capture : List Char}
    (captured : capture ∈ capturesFrom open? parts) :
    Signed capture ∨ ∃ part ∈ parts, part.1.group? = some capture := by
  induction parts generalizing open? with
  | nil => cases captured
  | cons part rest ih =>
      obtain ⟨here, left⟩ := signed_capture part.1 part.2.chars opened
      rcases List.mem_append.mp captured with first | later
      · exact (here capture first).imp_right fun group => ⟨part, .head _, group⟩
      · exact (ih left later).imp_right fun ⟨other, member, group⟩ => ⟨other, .tail _ member, group⟩

theorem ne_nil_of_captured {parts : List (GrokPart × GrokLiteral)} :
    ∀ capture ∈ capturesFrom none parts, capture ≠ [] := by
  intro capture captured
  have closed : ∀ taken ∈ (none : Option (List Char)), Signed taken := nofun
  rcases signed_or_group_of_capturesFrom closed captured with signed | ⟨part, -, group⟩
  · exact signed.ne_nil
  · rcases part with ⟨_ | name | _, literal⟩ <;> cases group
    exact name.nonempty

/-- A group that is open takes everything up to the next angle bracket, in whatever part that
stands, and nothing is captured without one. -/
theorem head?_captureIn (taken cs : List Char) (parts : List (GrokPart × GrokLiteral)) :
    ((captureIn taken cs).2 ++ capturesFrom (captureIn taken cs).1 parts).head? =
      if '>' ∈ cs ++ partsText parts then
        some (taken ++ (cs ++ partsText parts).takeWhile (· != '>'))
      else none := by
  induction parts generalizing taken cs with
  | nil =>
      rw [captureIn, partsText, List.flatMap_nil, List.append_nil]
      split <;> rfl
  | cons part rest ih =>
      rw [captureIn]
      split
      · rename_i closes
        obtain ⟨front, back, rfl, absent⟩ := List.eq_append_cons_of_mem closes
        have plain := bne_bracket absent
        rw [if_pos (List.mem_append_left _ closes), List.append_assoc,
          List.takeWhile_append_of_pos plain, List.takeWhile_append_of_pos plain]
        rfl
      · rename_i absent
        have later : '>' ∈ cs ++ partsText (part :: rest) ↔
            '>' ∈ part.1.chars ++ part.2.chars ++ partsText rest := by
          rw [List.mem_append, or_iff_right absent]
          rfl
        rw [List.takeWhile_append_of_pos (bne_bracket absent), ← List.append_assoc]
        simp only [later]
        exact ih (taken ++ cs) (part.1.chars ++ part.2.chars)

/-! ## Lookbehinds with an angle bracket behind them -/

section

variable {literal : GrokLiteral} {rest : List (GrokPart × GrokLiteral)}

theorem runsOn_lookbehind {negated : Bool} :
    RunsOn ((.lookbehind negated, literal) :: rest) ↔ '>' ∈ literal.chars ++ partsText rest := by
  constructor
  · rintro ⟨other, behind, back, ends, closes⟩
    rcases List.suffix_cons_iff.mp ends with same | later
    · cases same
      exact closes
    · refine List.mem_append_right _ (List.mem_flatMap.mpr ?_)
      rcases List.mem_append.mp closes with here | further
      · exact ⟨_, later.subset (.head _), List.mem_append_right _ here⟩
      · obtain ⟨part, member, holds⟩ := List.mem_flatMap.mp further
        exact ⟨part, later.subset (.tail _ member), holds⟩
  · intro closes
    exact ⟨negated, literal, rest, List.suffix_rfl, closes⟩

theorem runsOn_cons (part : GrokPart) (other : ∀ negated, part ≠ .lookbehind negated) :
    RunsOn ((part, literal) :: rest) ↔ RunsOn rest := by
  constructor
  · rintro ⟨negated, behind, back, ends, closes⟩
    rcases List.suffix_cons_iff.mp ends with same | later
    · exact absurd (Prod.mk.inj (List.cons.inj same).1).1.symm (other negated)
    · exact ⟨negated, behind, back, later, closes⟩
  · rintro ⟨negated, behind, back, ends, closes⟩
    exact ⟨negated, behind, back, ends.trans (List.suffix_cons _ _), closes⟩

theorem head?_capturesFrom_lookbehind (negated : Bool) (literal : GrokLiteral)
    (rest : List (GrokPart × GrokLiteral)) :
    (capturesFrom none ((.lookbehind negated, literal) :: rest)).head? =
      if '>' ∈ literal.chars ++ partsText rest then
        some (lookbehindSign negated :: (literal.chars ++ partsText rest).takeWhile (· != '>'))
      else none :=
  head?_captureIn [lookbehindSign negated] literal.chars rest

end

/-- A group holds an angle bracket. -/
theorem group?_eq_none {parts : List (GrokPart × GrokLiteral)} (absent : '>' ∉ partsText parts) :
    ∀ part ∈ parts, part.1.group? = none := by
  intro part member
  rcases part with ⟨_ | name | _, literal⟩
  · rfl
  · refine absurd (List.mem_flatMap.mpr ⟨_, member, List.mem_append_left _ ?_⟩) absent
    simp [GrokPart.chars]
  · rfl

/-- Without an angle bracket behind a lookbehind, the names of the groups are captured. -/
theorem capturesFrom_eq {parts : List (GrokPart × GrokLiteral)} (closed : ¬ RunsOn parts) :
    capturesFrom none parts = parts.filterMap fun part => part.1.group? := by
  induction parts with
  | nil => rfl
  | cons part rest ih =>
      obtain ⟨part, literal⟩ := part
      cases part with
      | reference inner => exact ih (mt (runsOn_cons (.reference inner) nofun).mpr closed)
      | group name => exact congrArg (_ :: ·) (ih (mt (runsOn_cons (.group name) nofun).mpr closed))
      | lookbehind negated =>
          have absent := mt runsOn_lookbehind.mpr closed
          have first := head?_capturesFrom_lookbehind negated literal rest
          rw [if_neg absent, List.head?_eq_none_iff] at first
          have none := group?_eq_none fun inside => absent (List.mem_append_right _ inside)
          rw [first, List.filterMap_cons, List.filterMap_eq_nil_iff.mpr none]
          rfl

/-- With an angle bracket behind a lookbehind, the inside of a lookbehind is captured. -/
theorem exists_signed_of_runsOn {parts : List (GrokPart × GrokLiteral)} (runsOn : RunsOn parts) :
    ∃ capture ∈ capturesFrom none parts, Signed capture := by
  induction parts with
  | nil =>
      obtain ⟨_, _, _, ends, _⟩ := runsOn
      cases List.suffix_nil.mp ends
  | cons part rest ih =>
      obtain ⟨part, literal⟩ := part
      cases part with
      | reference inner => exact ih ((runsOn_cons (.reference inner) nofun).mp runsOn)
      | group name =>
          obtain ⟨capture, captured, signed⟩ := ih ((runsOn_cons (.group name) nofun).mp runsOn)
          exact ⟨capture, .tail _ captured, signed⟩
      | lookbehind negated =>
          have first := head?_capturesFrom_lookbehind negated literal rest
          rw [if_pos (runsOn_lookbehind.mp runsOn)] at first
          exact ⟨_, List.mem_of_head? first, negated, rfl⟩

/-! ## Columns -/

/-- Columns are listed by their names, each name once and none that is empty. -/
theorem names_listNamed (columns : List (String × FieldType)) :
    (columns.foldl listNamed []).map Prod.fst =
      ((columns.map Prod.fst).filter fun name => !name.isEmpty).eraseDups := by
  induction columns using List.reverseRecOn with
  | nil => rfl
  | append_singleton columns column ih =>
      have known : ((columns.foldl listNamed []).any fun listed => listed.1 == column.1) = true ↔
          column.1 ∈ (columns.map Prod.fst).filter fun name => !name.isEmpty := by
        rw [← List.mem_eraseDups, ← ih, List.any_eq_true, List.mem_map]
        simp only [beq_iff_eq]
      rw [List.foldl_append, List.foldl_cons, List.foldl_nil, List.map_append, List.filter_append,
        List.map_singleton, List.filter_singleton, listNamed]
      cases column.1.isEmpty with
      | true => exact ih.trans (congrArg List.eraseDups (List.append_nil _).symm)
      | false =>
          by_cases listed : column.1 ∈ (columns.map Prod.fst).filter fun name => !name.isEmpty
          · rw [Bool.false_or, if_pos (known.mpr listed), ih]
            exact (eraseDups_append_of_mem listed).symm
          · rw [Bool.false_or, if_neg (mt known.mp listed), List.map_append, ih]
            exact (eraseDups_append_of_notMem listed).symm

theorem names_references (pattern : GrokPattern) :
    (((braced pattern.text).filterMap reference?).map Prod.fst).filter (fun name => !name.isEmpty) =
      pattern.references := by
  rw [braced_text, List.filterMap_map, List.map_filterMap, List.filter_filterMap,
    List.filterMap_filterMap, GrokPattern.references]
  refine List.filterMap_congr fun part _ => ?_
  cases part.1.reference? with
  | none => rfl
  | some reference =>
      change ((reference? reference.chars).map Prod.fst).filter _ = reference.column?
      rw [reference?_chars]
      rfl

theorem names_captures (pattern : GrokPattern) :
    (((groups "(?<" ">" pattern.text).map namedGroup).map Prod.fst).filter
      (fun name => !name.isEmpty) = pattern.captures := by
  rw [groups_text, List.map_map, GrokPattern.captures]
  refine List.filter_eq_self.mpr fun name member => ?_
  obtain ⟨capture, captured, rfl⟩ := List.mem_map.mp member
  have nonempty := ne_nil_of_captured capture captured
  simpa [namedGroup] using nonempty

/-- The columns of a grok pattern are those of its references and what is captured of its groups,
each once and in this order. The captures are the names of the groups if no angle bracket stands
behind a lookbehind. With one there, a column comes out that no group names: the inside of a
lookbehind. -/
theorem grokFields_text (pattern : GrokPattern) :
    Firsts (pattern.references ++ pattern.captures) ((grokFields pattern.text).map Prod.fst) ∧
      (¬ RunsOn pattern.parts → pattern.captures = pattern.groups) ∧
      (RunsOn pattern.parts → ∃ capture ∈ pattern.captures, capture ∉ pattern.groups) := by
  have groupNames : pattern.groups =
      (pattern.parts.filterMap fun part => part.1.group?).map String.ofList := by
    rw [List.map_filterMap]
    rfl
  refine ⟨?_, fun closed => ?_, fun runsOn => ?_⟩
  · rw [grokFields, names_listNamed, List.map_append, List.filter_append, names_references,
      names_captures]
    exact firsts_eraseDups _
  · rw [GrokPattern.captures, capturesFrom_eq closed, groupNames]
  · obtain ⟨capture, captured, signed⟩ := exists_signed_of_runsOn runsOn
    refine ⟨String.ofList capture, List.mem_map_of_mem captured, fun listed => ?_⟩
    rw [groupNames] at listed
    obtain ⟨chars, named, same⟩ := List.mem_map.mp listed
    obtain rfl := String.ofList_injective same
    obtain ⟨⟨part, literal⟩, -, group⟩ := List.mem_filterMap.mp named
    rcases part with _ | name | _ <;> cases group
    exact name.unsigned signed

/-- A group, references with and without a type, one to a column that is named already, and a
lookbehind behind which no angle bracket stands. -/
theorem grokFields_text_closed :
    ∃ pattern : GrokPattern,
      pattern.text = "(?<user>a+) %\x7bWORD\x7d%\x7bINT:n:int\x7d(?<= )%\x7bIP:user\x7d" ∧
        ¬ RunsOn pattern.parts ∧ pattern.references = ["n", "user"] ∧ pattern.groups = ["user"] ∧
        (grokFields pattern.text).map Prod.fst = ["n", "user"] ∧
        Firsts (pattern.references ++ pattern.groups) ((grokFields pattern.text).map Prod.fst) := by
  let group : GroupName :=
    ⟨"user".toList, by decide, by decide, by decide, by decide⟩
  let word : GrokReference := ⟨"WORD".toList, none, by decide, nofun, by decide, by decide⟩
  let number : GrokReference :=
    ⟨"INT".toList, some ("n".toList, some "int".toList), by decide, by decide, by decide, by decide⟩
  let address : GrokReference :=
    ⟨"IP".toList, some ("user".toList, none), by decide, by decide, by decide, by decide⟩
  let literal : GrokLiteral := ⟨[], by decide, by decide⟩
  let pattern : GrokPattern := ⟨literal,
    [(.group group, ⟨"a+) ".toList, by decide, by decide⟩), (.reference word, literal),
      (.reference number, literal), (.lookbehind false, ⟨" )".toList, by decide, by decide⟩),
      (.reference address, literal)]⟩
  have closed : ¬ RunsOn pattern.parts := by
    rw [runsOn_cons (.group group) nofun, runsOn_cons (.reference word) nofun,
      runsOn_cons (.reference number) nofun, runsOn_lookbehind]
    decide
  obtain ⟨firsts, captured, -⟩ := grokFields_text pattern
  rw [captured closed] at firsts
  refine ⟨pattern, by decide, closed, by decide, by decide, ?_, firsts⟩
  decide +kernel

/-- Behind a lookbehind a group is hidden, and what hides it is a column. -/
theorem not_grokFields_text :
    ¬ ∀ (pattern : GrokPattern) (name : String),
      name ∈ (grokFields pattern.text).map Prod.fst ↔
        name ∈ pattern.references ++ pattern.groups := by
  intro exact
  let group : GroupName :=
    ⟨"name".toList, by decide, by decide, by decide, by decide⟩
  let pattern : GrokPattern := ⟨⟨[], by decide, by decide⟩,
    [(.lookbehind false, ⟨"x)".toList, by decide, by decide⟩),
      (.group group, ⟨"y)".toList, by decide, by decide⟩)]⟩
  have text : pattern.text = "(?<=x)(?<name>y)" := by decide
  have listed : (grokFields "(?<=x)(?<name>y)").map Prod.fst = ["=x)(?<name"] := by decide +kernel
  have found := (exact pattern "name").mpr (by decide)
  rw [text, listed] at found
  exact absurd found (by decide)

end Esql.Extraction
