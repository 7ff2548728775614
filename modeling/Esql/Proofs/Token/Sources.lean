import Esql.Proofs.Token.Lexemes

/-!
# Scanning source names

The tokens at the front of a text that make one source are compared with its characters. Without
quotes they give back all characters exactly if the text reads as a bare name, and fewer otherwise.
-/

namespace Esql

open Text.Source Grammar

namespace Token

variable {glued : Bool} {c : Char} {cs tail : List Char} {kind : TokenKind} {more offset : Nat}

theorem scanFrom_token (read : Lexeme.read glued c cs = .token kind more) (offset : Nat) :
    scanFrom (c :: cs) 0 glued offset =
      ⟨kind, String.ofList (c :: cs.take more),
        ⟨offset, offset + Text.width (c :: cs.take more)⟩⟩ ::
        scanFrom (cs.drop more) 0 true (offset + Text.width (c :: cs.take more)) := by
  rw [scanFrom, read, Text.width_cons, ← Nat.add_assoc, ← scanFrom_pending]
  change _ :: _ = _
  rw [Text.width_cons, ← Nat.add_assoc]
  rfl

theorem scanFrom_passed (skipped : (Lexeme.read glued c cs).kind? = none) (offset : Nat) :
    ∃ more later, offset < later ∧
      scanFrom (c :: cs) 0 glued offset = scanFrom (cs.drop more) 0 false later := by
  refine ⟨(Lexeme.read glued c cs).more, offset + c.utf8Size +
    Text.width (cs.take (Lexeme.read glued c cs).more), ?_, ?_⟩
  · have positive := c.utf8Size_pos
    omega
  · rw [scanFrom, skipped, ← scanFrom_pending]

/-- No token of a scan starts before the scan. -/
theorem le_start_of_mem_head? {token : Token}
    (first : token ∈ (scanFrom cs 0 glued offset).head?) : offset ≤ token.span.start := by
  obtain ⟨others, scanned⟩ := List.head?_eq_some_iff.mp first
  obtain ⟨gap, -, -, -, -, -, -, starts⟩ := exists_scanned_gap scanned
  omega

/-- Nothing stands side by side with what lies behind a gap. -/
theorem runFrom_passed {member : TokenKind → Bool} {previous : Token}
    (skipped : (Lexeme.read glued c cs).kind? = none) :
    runFrom member previous (scanFrom (c :: cs) 0 glued previous.span.stop) = [] := by
  obtain ⟨more, later, beyond, same⟩ := scanFrom_passed skipped previous.span.stop
  rw [same]
  cases scanned : scanFrom (cs.drop more) 0 false later with
  | nil => rfl
  | cons token others =>
      have starts := le_start_of_mem_head? (List.head?_eq_some_iff.mpr ⟨others, scanned⟩)
      have apart : previous.adjoins token = false := by
        refine beq_eq_false_iff_ne.mpr fun same => ?_
        omega
      rw [runFrom, apart, Bool.false_and]
      rfl

section

variable {member : TokenKind → Bool} {previous : Token}

/-- A run goes on with a token that belongs. -/
theorem runFrom_token (previous : Token) (read : Lexeme.read glued c cs = .token kind more)
    (belongs : member kind = true) :
    ∃ span, runFrom member previous (scanFrom (c :: cs) 0 glued previous.span.stop) =
        ⟨kind, String.ofList (c :: cs.take more), span⟩ ::
          runFrom member ⟨kind, String.ofList (c :: cs.take more), span⟩
            (scanFrom (cs.drop more) 0 true span.stop) ∧
      scanFrom (c :: cs) 0 glued previous.span.stop =
        ⟨kind, String.ofList (c :: cs.take more), span⟩ ::
          scanFrom (cs.drop more) 0 true span.stop := by
  refine ⟨_, ?_, scanFrom_token read _⟩
  have adjoins (text : String) (stop : Nat) :
      previous.adjoins ⟨kind, text, ⟨previous.span.stop, stop⟩⟩ = true := beq_self_eq_true _
  rw [scanFrom_token read, runFrom, adjoins, belongs]
  rfl

theorem runFrom_other (read : Lexeme.read glued c cs = .token kind more)
    (outside : member kind = false) :
    runFrom member previous (scanFrom (c :: cs) 0 glued previous.span.stop) = [] := by
  rw [scanFrom_token read, runFrom, outside, Bool.and_false]
  rfl

/-- Where a run goes on, it does so with what is read there. -/
theorem exists_read_of_runFrom (previous : Token)
    (goes : runFrom member previous (scanFrom (c :: cs) 0 glued previous.span.stop) ≠ []) :
    ∃ kind more, Lexeme.read glued c cs = .token kind more ∧ member kind = true := by
  cases read : Lexeme.read glued c cs with
  | mk kind? more =>
      cases kind? with
      | none => exact absurd (runFrom_passed (by rw [read])) goes
      | some kind =>
          refine ⟨kind, more, rfl, ?_⟩
          by_contra outside
          exact goes (runFrom_other read (Bool.eq_false_iff.mpr outside))

end

theorem sourceSegment_eq_text {token : Token} (plain : isQuoted token.kind = false) :
    sourceSegment token = token.text := by
  rw [sourceSegment]
  split
  · rename_i kind
    rw [kind] at plain
    cases plain
  · rfl

/-- What some tokens add to the name of a source. -/
def segments (run : List Token) : List Char := run.flatMap fun token => (sourceSegment token).toList

theorem toList_foldl_sourceSegment (run : List Token) (name : String) :
    (run.foldl (fun name token => name ++ sourceSegment token) name).toList =
      name.toList ++ segments run := by
  induction run generalizing name with
  | nil => exact (List.append_nil _).symm
  | cons token run ih =>
      rw [List.foldl_cons, ih, String.toList_append, List.append_assoc]
      rfl

/-- The tokens of some characters give back all of them as one run if the characters are read as a
bare name; otherwise a run at their front with all its quotes closed gives back fewer. -/
structure Renders (cs : List Char) (run tokens : List Token) : Prop where
  whole : isBareFrom false cs = true → run = tokens
  same : isBareFrom false cs = true → segments run = cs
  closed : isBareFrom false cs = true → ∀ token ∈ run, isUnclosed token.kind = false
  fewer : isBareFrom false cs = false → (∀ token ∈ run, isUnclosed token.kind = false) →
    (segments run).length < cs.length

namespace Renders

variable {run tokens : List Token}

theorem length_le (renders : Renders cs run tokens)
    (closed : ∀ token ∈ run, isUnclosed token.kind = false) :
    (segments run).length ≤ cs.length := by
  cases bare : isBareFrom false cs with
  | true => exact Nat.le_of_eq (congrArg List.length (renders.same bare))
  | false => exact Nat.le_of_lt (renders.fewer bare closed)

/-- What is no bare name is rendered by any run that gives back less. -/
theorem lost (lost : isBareFrom false cs = false)
    (fewer : (∀ token ∈ run, isUnclosed token.kind = false) → (segments run).length < cs.length) :
    Renders cs run tokens where
  whole bare := absurd (lost.symm.trans bare) Bool.false_ne_true
  same bare := absurd (lost.symm.trans bare) Bool.false_ne_true
  closed bare := absurd (lost.symm.trans bare) Bool.false_ne_true
  fewer _ := fewer

/-- A part of a source without quotes gives back its own characters. -/
theorem cons (closed : isQuoted kind = false) (span : Span)
    (behind : isBareFrom false (c :: cs) = isBareFrom false (cs.drop more))
    (renders : Renders (cs.drop more) run tokens) :
    Renders (c :: cs) (⟨kind, String.ofList (c :: cs.take more), span⟩ :: run)
      (⟨kind, String.ofList (c :: cs.take more), span⟩ :: tokens) := by
  have shown (others : List Token) :
      segments (⟨kind, String.ofList (c :: cs.take more), span⟩ :: others) =
        c :: (cs.take more ++ segments others) := by
    rw [segments, List.flatMap_cons, sourceSegment_eq_text closed, String.toList_ofList]
    rfl
  have unclosed : isUnclosed kind = false := by cases kind <;> first | rfl | cases closed
  constructor
  · exact fun bare => congrArg _ (renders.whole (behind ▸ bare))
  · intro bare
    rw [shown, renders.same (behind ▸ bare), List.take_append_drop]
  · exact fun bare => List.forall_mem_cons.mpr ⟨unclosed, renders.closed (behind ▸ bare)⟩
  · intro lost all
    have fewer := renders.fewer (behind ▸ lost) (List.forall_mem_cons.mp all).2
    have taken := List.length_take_le more cs
    rw [List.length_drop] at fewer
    rw [shown, List.length_cons, List.length_append, List.length_take, List.length_cons]
    omega

end Renders

/-- What is read behind a token as one source renders the characters behind the token. -/
theorem renders_runFrom (blank : Text.Blank tail) (short : tail.length ≤ 1) (cs : List Char)
    (glued : Bool) (previous : Token) :
    Renders cs (runFrom isSourcePart previous (scanFrom (cs ++ tail) 0 glued previous.span.stop))
      (scanFrom (cs ++ tail) 0 glued previous.span.stop) := by
  induction length : cs.length using Nat.strongRecOn generalizing cs glued previous with
  | ind size ih =>
      cases cs with
      | nil =>
          rw [List.nil_append, scanFrom_blanks blank]
          exact ⟨fun _ => rfl, fun _ => rfl, fun _ => List.forall_mem_nil _, nofun⟩
      | cons c cs =>
          rw [List.length_cons] at length
          by_cases skipped : (Lexeme.read glued c (cs ++ tail)).kind? = none
          · rw [List.cons_append, runFrom_passed skipped]
            refine .lost ?_ fun _ => Nat.succ_pos _
            rcases Lexeme.read_skipped skipped with first | ⟨rfl, rest, opens⟩
            · exact isBareFrom_of_ends (by rw [ends, first, Bool.true_or]) cs
            · obtain ⟨inner, rfl | rfl⟩ := opens_of_append blank opens
              · exact isBareFrom_comment rfl
              · exact isBareFrom_comment rfl
          by_cases tick : c = '\x60'
          · subst tick
            refine .lost (isBareFrom_of_ends (by decide) cs) fun closed => ?_
            obtain ⟨name, terminated, more, quoted⟩ := Lexeme.exists_quotedName (cs ++ tail)
            have read := (Lexeme.read_tick glued (cs ++ tail)).trans quoted
            have part : isSourcePart (.quoted name terminated) = true := rfl
            obtain ⟨span, run, -⟩ := runFrom_token previous read part
            rw [List.cons_append, run] at closed ⊢
            rw [List.forall_mem_cons] at closed
            obtain rfl : terminated = true := by
              cases terminated with
              | false => cases closed.1
              | true => rfl
            have shorter := Lexeme.quotedName_closed quoted
            rw [List.length_append] at shorter
            rw [segments, List.flatMap_cons, List.length_append, List.length_cons]
            change name.toList.length + (segments _).length < _
            by_cases within : more ≤ cs.length
            · rw [List.drop_append_of_le_length within] at closed ⊢
              have fewer : (cs.drop more).length < size := by
                rw [List.length_drop]
                omega
              have left := (ih _ fewer _ true _ rfl).length_le closed.2
              refine Nat.lt_of_le_of_lt (Nat.add_le_add_left left _) ?_
              rw [List.length_drop]
              omega
            · have nothing : (cs ++ tail).drop more = [] :=
                List.drop_eq_nil_of_le (by rw [List.length_append]; omega)
              rw [nothing, scanFrom_nil, runFrom, segments, List.flatMap_nil, List.length_nil]
              omega
          by_cases quote : c = '\x22'
          · subst quote
            obtain ⟨value, terminated, more, read⟩ := Lexeme.exists_quotedString (cs ++ tail)
            rw [← Lexeme.read_quote glued] at read
            rw [List.cons_append, runFrom_other read rfl]
            exact .lost (isBareFrom_of_ends (by decide) cs) fun _ => Nat.succ_pos _
          have noBlank : Text.isBlank c = false := by
            refine Bool.eq_false_iff.mpr fun blank => skipped ?_
            rw [Lexeme.read, if_pos blank]
            rfl
          have noComment : (c == '/' && opensComment cs) = false := by
            refine Bool.eq_false_iff.mpr fun comment => skipped ?_
            obtain ⟨rfl, opens⟩ := Bool.and_eq_true_iff.mp comment |>.imp_left beq_iff_eq.mp
            obtain ⟨rest, slash | star⟩ := Lexeme.exists_of_opensComment opens
            · have behind : cs ++ tail = '/' :: (rest ++ tail) := by rw [slash, List.cons_append]
              exact Lexeme.read_comment (.inl behind) glued
            · have behind : cs ++ tail = '*' :: (rest ++ tail) := by rw [star, List.cons_append]
              exact Lexeme.read_comment (.inr behind) glued
          obtain ⟨kind, more, read, closed, within, behind⟩ :=
            Lexeme.read_decides noBlank tick quote noComment glued
          rw [← Lexeme.read_unquoted blank tick quote noComment] at read
          cases part : isSourcePart kind with
          | false =>
              rw [List.cons_append, runFrom_other read part]
              refine .lost ?_ fun _ => Nat.succ_pos _
              rw [behind, part, Bool.false_and]
          | true =>
              obtain ⟨span, run, tokens⟩ := runFrom_token previous read part
              rw [List.take_append_of_le_length within, List.drop_append_of_le_length within]
                at run tokens
              rw [List.cons_append, run, tokens]
              rw [part, Bool.true_and] at behind
              refine .cons closed span behind (ih _ ?_ _ true _ rfl)
              rw [List.length_drop]
              omega

/-! ## The source at the front -/

theorem keyword?_nameKind (chars : List Char) :
    (nameKind chars).keyword? = Keyword.ofWord? (String.ofList chars) := by
  rw [nameKind]
  split
  · rename_i found
    exact found.symm
  · rename_i found
    exact found.symm

/-- Only what starts like a name is a reserved word. -/
theorem startsName_of_keyword? {keyword : Keyword}
    (read : Lexeme.read glued c cs = .token kind more)
    (found : kind.keyword? = some keyword) : Text.startsName c = true := by
  have naming : Lexeme.isNaming kind = true := by
    rw [Lexeme.isNaming, found]
    exact Bool.or_true _
  rcases Lexeme.read_isNaming read naming with starts | ⟨-, quoted⟩ | ⟨-, rfl, -⟩
  · exact starts
  · cases quoted
    cases found
  · cases found

/-- Which reserved word the first token is, if it stands at the front. -/
theorem keyword?_scanFrom (blank : Text.Blank tail)
    (read : Lexeme.read glued c (cs ++ tail) = .token kind more) :
    kind.keyword? = Keyword.ofWord? (String.ofList ((c :: cs).takeWhile Text.continuesName)) := by
  cases starts : Text.startsName c with
  | false =>
      rw [ofWord?_takeWhile_eq_none starts]
      refine Option.eq_none_iff_forall_ne_some.mpr fun keyword found => ?_
      rw [startsName_of_keyword? read found] at starts
      cases starts
  | true =>
      have ends : ∀ d ∈ tail.head?, Text.continuesName d = false := fun d first =>
        Text.not_continuesName_of_isBlank (blank d (List.mem_of_mem_head? first))
      rw [read_name starts, takeWhile_append_stop ends] at read
      obtain ⟨rfl, -⟩ := Lexeme.mk.inj read |>.imp_left Option.some.inj
      rw [keyword?_nameKind]
      cases continues : Text.continuesName c with
      | true => rw [List.takeWhile_cons_of_pos continues]
      | false =>
          have sign : c = '@' := (continuesName_of_startsName starts).resolve_left
            (Bool.eq_false_iff.mp continues)
          rw [List.takeWhile_cons_of_neg (Bool.eq_false_iff.mp continues), sign, Keyword.ofWord?_at]
          decide

/-- A run that begins with a part of a source is one unless METADATA begins it, or ON or WITH stands
alone. -/
theorem startsBareSource_eq {first : Token} {others : List Token}
    (part : isSourcePart first.kind = true) (joined : runFrom isSourcePart first others = others) :
    startsBareSource first others =
      (first.kind.keyword? != some .metadata &&
        !(others.isEmpty && [some .on, some .with].contains first.kind.keyword?)) := by
  have goes : (others.head?.any fun next => first.adjoins next && isSourcePart next.kind) =
      !others.isEmpty := by
    cases others with
    | nil => rfl
    | cons next others =>
        rw [runFrom] at joined
        split at joined
        · assumption
        · cases joined
  rw [startsBareSource]
  split
  · rename_i reserved kind
    rw [kind, keywordStartsSource.eq_def]
    split
    · rfl
    · rw [goes]
      cases others <;> rfl
    · rw [goes]
      cases others <;> rfl
    · rename_i noMetadata noOn noWith
      cases reserved <;> first | contradiction | (cases others <;> rfl)
  · rename_i other
    cases kind : first.kind with
    | keyword reserved => exact absurd kind (other reserved)
    | _ =>
        rw [kind] at part
        rw [part]
        cases others <;> rfl

theorem isUnclosed_of_all {run : List Token}
    (closed : ∀ token ∈ run, isUnclosed token.kind = false) :
    run.any (fun token => isUnclosed token.kind) = false :=
  List.any_eq_false.mpr fun token member => by
    rw [closed token member]
    exact Bool.false_ne_true

theorem not_continuesName_of_blank (blank : Text.Blank tail) :
    ∀ d ∈ tail.head?, Text.continuesName d = false := fun d first =>
  Text.not_continuesName_of_isBlank (blank d (List.mem_of_mem_head? first))

/-- A reserved word stands alone exactly if all characters belong to it. -/
theorem isEmpty_iff_of_keyword (blank : Text.Blank tail) {first : Token} {others : List Token}
    {keyword : Keyword} (read : Lexeme.read glued c (cs ++ tail) = .token first.kind more)
    (scanned : scanFrom (c :: (cs ++ tail)) 0 glued offset = first :: others)
    (same : segments (first :: others) = c :: cs) (found : first.kind.keyword? = some keyword) :
    others.isEmpty = true ↔ (c :: cs).takeWhile Text.continuesName = c :: cs := by
  have starts := startsName_of_keyword? read found
  have ends := not_continuesName_of_blank blank
  have word := found.symm.trans (keyword?_scanFrom blank read)
  have continues : Text.continuesName c = true := by
    by_contra stops
    have none : Keyword.ofWord? (String.ofList []) = none := by decide
    rw [List.takeWhile_cons_of_neg stops, none] at word
    cases word
  rw [List.takeWhile_cons_of_pos continues, List.isEmpty_iff]
  constructor
  · rintro rfl
    have plain : isQuoted first.kind = false := by
      cases kind : first.kind <;> first | rfl | (rw [kind] at found; cases found)
    rw [segments, List.flatMap_cons, List.flatMap_nil, List.append_nil,
      sourceSegment_eq_text plain] at same
    rw [scanFrom_token (read_name starts glued _), ← Lexeme.runLength, Lexeme.take_runLength,
      takeWhile_append_stop ends] at scanned
    rw [← same, ← (List.cons.inj scanned).1, String.toList_ofList]
  · intro all
    have inside := List.takeWhile_eq_self_iff.mp (List.cons.inj all).2
    rw [scanFrom_name starts inside ends, scanFrom_blanks blank] at scanned
    exact (List.cons.inj scanned).2.symm

/-- The first token of a bare name goes on to its end. -/
theorem exists_first_of_bare (blank : Text.Blank tail) (short : tail.length ≤ 1)
    (bare : isBareFrom false (c :: cs) = true) (glued : Bool) (offset : Nat) :
    ∃ first others more, scanFrom (c :: (cs ++ tail)) 0 glued offset = first :: others ∧
      Lexeme.read glued c (cs ++ tail) = .token first.kind more ∧
      isSourcePart first.kind = true ∧ runFrom isSourcePart first others = others ∧
      segments (first :: others) = c :: cs ∧
      ∀ token ∈ first :: others, isUnclosed token.kind = false := by
  let previous : Token := ⟨.dot, "", ⟨offset, offset⟩⟩
  have renders : Renders (c :: cs)
      (runFrom isSourcePart previous (scanFrom (c :: (cs ++ tail)) 0 glued offset))
      (scanFrom (c :: (cs ++ tail)) 0 glued offset) :=
    renders_runFrom blank short (c :: cs) glued previous
  have whole := renders.whole bare
  have same := renders.same bare
  have closed := renders.closed bare
  rw [whole] at same closed
  have goes : runFrom isSourcePart previous (scanFrom (c :: (cs ++ tail)) 0 glued offset) ≠ [] := by
    rw [whole]
    intro none
    rw [none] at same
    cases same
  obtain ⟨kind, more, read, part⟩ := exists_read_of_runFrom previous goes
  obtain ⟨span, run, tokens⟩ := runFrom_token previous read part
  change scanFrom _ 0 glued offset = _ at tokens
  change runFrom isSourcePart previous (scanFrom _ 0 glued offset) = _ at run
  rw [whole, tokens] at run
  rw [tokens] at same closed
  exact ⟨_, _, more, tokens, read, part, (List.cons.inj run).2.symm, same, closed⟩

/-- What is read as a bare name is one source, unless a reserved word keeps it from being one. -/
theorem sourceRun?_of_bare (blank : Text.Blank tail) (short : tail.length ≤ 1)
    (nonempty : cs ≠ []) (bare : isBareFrom false cs = true) (glued : Bool) (offset : Nat) :
    sourceRun? (scanFrom (cs ++ tail) 0 glued offset) =
      if opensBare cs then
        some (String.ofList cs, (scanFrom (cs ++ tail) 0 glued offset).length, false)
      else none := by
  cases cs with
  | nil => contradiction
  | cons c cs =>
      obtain ⟨first, others, more, scanned, read, part, joined, same, closed⟩ :=
        exists_first_of_bare blank short bare glued offset
      have named : (first :: others).foldl (fun name token => name ++ sourceSegment token) "" =
          String.ofList (c :: cs) := by
        rw [← String.toList_inj, toList_foldl_sourceSegment, same, String.toList_ofList,
          String.toList_ofList]
        rfl
      have opens : startsBareSource first others = opensBare (c :: cs) := by
        rw [startsBareSource_eq part joined, opensBare, ofWord?_eq (c :: cs),
          ← keyword?_scanFrom blank read]
        cases found : first.kind.keyword? with
        | none => simp
        | some keyword =>
            have alone := isEmpty_iff_of_keyword blank read scanned same found
            cases empty : others.isEmpty with
            | true =>
                rw [if_pos (alone.mp empty), Bool.true_and]
            | false =>
                rw [if_neg fun all => by rw [alone.mpr all] at empty; cases empty]
                rfl
      rw [List.cons_append, scanned, sourceRun?]
      split
      · rename_i string
        rw [string] at part
        cases part
      · dsimp only
        rw [opens, joined, isUnclosed_of_all closed, named]

theorem isSourcePart_of_startsBareSource {first : Token} {others : List Token}
    (starts : startsBareSource first others = true) : isSourcePart first.kind = true := by
  rw [startsBareSource] at starts
  split at starts
  · rename_i kind
    rw [kind]
    rfl
  · exact starts

/-- A source that is no bare name is shorter than what it is read from: a string is without its
quotes, and a run gives back less. -/
theorem length_lt_of_token (blank : Text.Blank tail) (short : tail.length ≤ 1)
    (lost : isBareFrom false (c :: cs) = false)
    (read : Lexeme.read glued c (cs ++ tail) = .token kind more) {name : String} {count : Nat}
    (run : sourceRun? (scanFrom (c :: (cs ++ tail)) 0 glued offset) = some (name, count, false)) :
    name.toList.length < (c :: cs).length := by
  let previous : Token := ⟨.dot, "", ⟨offset, offset⟩⟩
  have renders : Renders (c :: cs)
      (runFrom isSourcePart previous (scanFrom (c :: (cs ++ tail)) 0 glued offset))
      (scanFrom (c :: (cs ++ tail)) 0 glued offset) :=
    renders_runFrom blank short (c :: cs) glued previous
  have scanned := scanFrom_token read offset
  rw [scanned, sourceRun?] at run
  split at run
  · rename_i value terminated string
    obtain rfl : kind = .string value terminated := string
    obtain ⟨rfl, -, closed⟩ : value = name ∧ 1 = count ∧ (!terminated) = false := by
      simpa using run
    rw [Bool.not_eq_false'] at closed
    subst closed
    have shorter := Lexeme.quotedString_closed (Lexeme.read_string read)
    rw [List.length_append] at shorter
    rw [List.length_cons]
    omega
  · split at run
    · rename_i starts
      have part : isSourcePart kind = true := isSourcePart_of_startsBareSource starts
      obtain ⟨span, goes, tokens⟩ := runFrom_token previous read part
      change scanFrom _ 0 glued offset = _ at tokens
      change runFrom isSourcePart previous (scanFrom _ 0 glued offset) = _ at goes
      obtain ⟨same, others⟩ := List.cons.inj (scanned.symm.trans tokens)
      rw [goes, ← same, ← others] at renders
      obtain ⟨named, -, closed⟩ := Prod.mk.inj (Option.some.inj run) |>.imp_right Prod.mk.inj
      rw [← named, toList_foldl_sourceSegment]
      refine renders.fewer lost fun token member => ?_
      exact Bool.eq_false_iff.mpr (List.any_eq_false.mp closed token member)
    · cases run

/-- The name of a source that is read where no bare name stands is shorter than what stands
there. -/
theorem length_lt_of_sourceRun? (blank : Text.Blank tail) (short : tail.length ≤ 1)
    (lost : isBareFrom false cs = false) {name : String} {count : Nat}
    (run : sourceRun? (scanFrom (cs ++ tail) 0 glued offset) = some (name, count, false)) :
    name.toList.length < cs.length := by
  induction length : cs.length using Nat.strongRecOn generalizing cs tail glued offset with
  | ind size ih =>
      cases cs with
      | nil => cases lost
      | cons c cs =>
          rw [← length]
          rw [List.cons_append] at run
          cases read : Lexeme.read glued c (cs ++ tail) with
          | mk kind? more =>
              cases kind? with
              | some kind => exact length_lt_of_token blank short lost read run
              | none =>
                  obtain ⟨more, later, -, same⟩ := scanFrom_passed (by rw [read]) offset
                  rw [same, List.drop_append] at run
                  have left : Text.Blank (tail.drop (more - cs.length)) :=
                    fun d member => blank d (List.mem_of_mem_drop member)
                  have fewer : (tail.drop (more - cs.length)).length ≤ 1 := by
                    rw [List.length_drop]
                    omega
                  have shorter : (cs.drop more).length < (c :: cs).length := by
                    rw [List.length_drop, List.length_cons]
                    omega
                  refine Nat.lt_of_le_of_lt ?_ shorter
                  cases bare : isBareFrom false (cs.drop more) with
                  | false => exact Nat.le_of_lt (ih _ (length ▸ shorter) left fewer bare run rfl)
                  | true =>
                      by_cases empty : cs.drop more = []
                      · rw [empty, List.nil_append, scanFrom_blanks left] at run
                        cases run
                      · rw [sourceRun?_of_bare left fewer empty bare] at run
                        split at run
                        · obtain ⟨rfl, -⟩ := Prod.mk.inj (Option.some.inj run)
                          rw [String.toList_ofList]
                        · cases run

theorem sourceRun?_of_isBareName (blank : Text.Blank tail) (short : tail.length ≤ 1)
    {name : String} (nonempty : name ≠ "") (bare : isBareName name = true) (glued : Bool)
    (offset : Nat) :
    sourceRun? (scanFrom (name.toList ++ tail) 0 glued offset) =
      some (name, (scanFrom (name.toList ++ tail) 0 glued offset).length, false) := by
  have present : name.toList ≠ [] := mt String.toList_eq_nil_iff.mp nonempty
  obtain ⟨inside, opens⟩ := Bool.and_eq_true_iff.mp bare
  rw [sourceRun?_of_bare blank short present inside, if_pos opens, String.ofList_toList]

/-- No other name is read as one source without quotes. -/
theorem isBareName_of_sourceRun? (blank : Text.Blank tail) (short : tail.length ≤ 1)
    {name : String} (nonempty : name ≠ "") {count : Nat}
    (run : sourceRun? (scanFrom (name.toList ++ tail) 0 glued offset) = some (name, count, false)) :
    isBareName name = true := by
  have present : name.toList ≠ [] := mt String.toList_eq_nil_iff.mp nonempty
  cases bare : isBareFrom false name.toList with
  | false => exact absurd (length_lt_of_sourceRun? blank short bare run) (Nat.lt_irrefl _)
  | true =>
      rw [sourceRun?_of_bare blank short present bare] at run
      split at run
      · rename_i opens
        rw [isBareName, bare, opens]
        rfl
      · cases run

/-- A name that needs no quotes is read as one source if it opens like one, -/
theorem sourceRun?_of_opensBare {name : String} (nonempty : name ≠ "")
    (unquoted : isUnquoted name = true) (opens : opensBare name.toList = true) (glued : Bool)
    (offset : Nat) :
    sourceRun? (scanFrom name.toList 0 glued offset) =
      some (name, (scanFrom name.toList 0 glued offset).length, false) := by
  rw [← isBareName_of_isUnquoted unquoted] at opens
  have blank : Text.Blank [] := nofun
  have run := sourceRun?_of_isBareName blank (Nat.zero_le 1) nonempty opens glued offset
  rwa [List.append_nil] at run

/-- and only then. -/
theorem opensBare_of_sourceRun? {name : String} (nonempty : name ≠ "")
    (unquoted : isUnquoted name = true) {count : Nat}
    (run : sourceRun? (scanFrom name.toList 0 glued offset) = some (name, count, false)) :
    opensBare name.toList = true := by
  rw [← isBareName_of_isUnquoted unquoted]
  have blank : Text.Blank [] := nofun
  rw [← List.append_nil name.toList] at run
  exact isBareName_of_sourceRun? blank (Nat.zero_le 1) nonempty run

end Token

end Esql
