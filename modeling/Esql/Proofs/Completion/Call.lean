import Esql.Proofs.Completion.Word
import Esql.Proofs.Grammar.Items

/-!
# The call at the end of a text

Completion finds the innermost open call in the tokens alone: it keeps a stack of the parentheses
that are open, and counts the commas behind each of them. The grammar reads the same tokens as
items of listings in listings. The two agree on the parentheses, so they find the same call where a
listing of arguments misses its next item. But a comma in brackets separates the items of a list,
and completion counts it as if it separated two arguments of the call around the list. And where an
argument leaves a parenthesis open, as an interval may, it is that parenthesis that completion looks
behind.
-/

namespace Esql

open Grammar

namespace Completion.OpenCall

/-! ## Scanning tokens -/

/-- How many commas stand in brackets but not in parentheses, behind tokens that left some of both
open. -/
def listCommas (parens brackets : Nat) : List Token → Nat
  | [] => 0
  | token :: rest =>
      match token.kind with
      | .openParen => listCommas (parens + 1) brackets rest
      | .closeParen => listCommas (parens - 1) brackets rest
      | .openBracket => listCommas parens (brackets + 1) rest
      | .closeBracket => listCommas parens (brackets - 1) rest
      | .comma =>
          (if parens = 0 ∧ 0 < brackets then 1 else 0) + listCommas parens brackets rest
      | _ => listCommas parens brackets rest

/-- The open parentheses with the innermost one some arguments further. -/
def advanceBy (count : Nat) (opened : List (Option OpenCall)) : List (Option OpenCall) :=
  Nat.repeat advance count opened

section

variable {opened : List (Option OpenCall)} {call? : Option OpenCall} {previous? : Option Token}
  {tokens rest : List Token}

theorem advanceBy_add (first second : Nat) :
    advanceBy second (advanceBy first opened) = advanceBy (first + second) opened := by
  induction second with
  | zero => rfl
  | succ second ih => exact congrArg advance ih

theorem tail_advanceBy (count : Nat) : (advanceBy count (call? :: opened)).tail = opened := by
  suffices ∃ other?, advanceBy count (call? :: opened) = other? :: opened by
    obtain ⟨other?, same⟩ := this
    rw [same, List.tail_cons]
  induction count with
  | zero => exact ⟨call?, rfl⟩
  | succ count ih =>
      obtain ⟨other?, same⟩ := ih
      change ∃ next?, advance (advanceBy count (call? :: opened)) = next? :: opened
      rw [same]
      cases other? with
      | none => exact ⟨none, rfl⟩
      | some call => exact ⟨_, rfl⟩

theorem advanceBy_call (written? : Option String) (count : Nat) :
    advanceBy count ((written?.map fun written => ⟨written, 0⟩) :: opened) =
      (written?.map fun written => ⟨written, count⟩) :: opened := by
  induction count with
  | zero => rfl
  | succ count ih =>
      change advance (advanceBy count _) = _
      rw [ih]
      cases written? <;> rfl

theorem openedFrom_append (tokens : List Token) :
    openedFrom opened previous? (tokens ++ rest) =
      openedFrom (openedFrom opened previous? tokens) (tokens.getLast?.or previous?) rest := by
  induction tokens generalizing opened previous? with
  | nil => rfl
  | cons token tokens ih =>
      rw [List.cons_append, openedFrom, ih, openedFrom, List.getLast?_cons]
      cases tokens.getLast? <;> rfl

theorem step_of_flat {token : Token} (flat : closing token.kind = 0)
    (other : token.kind ≠ .comma) : step opened previous? token = opened := by
  unfold step
  cases mark : token.kind <;>
    first | rfl | exact absurd mark other | (rw [mark] at flat; cases flat)

/-- Tokens that close the parentheses that they open move the innermost open one by as many
arguments as they have commas outside of these. -/
theorem openedFrom_balanced {commas : Nat} (balanced : Balanced tokens commas) :
    openedFrom opened previous? tokens = advanceBy commas opened := by
  induction balanced generalizing opened previous? with
  | nil => rfl
  | plain flat other later ih => rw [openedFrom, step_of_flat flat other, ih]
  | @comma token rest commas found later ih =>
      have further : step opened previous? token = advanceBy 1 opened := by
        rw [step, found]
        rfl
      rw [openedFrom, further, ih, advanceBy_add, Nat.add_comm]
  | @parens opening close inner rest inside commas opens enclosed closes later ihInner ih =>
      have push : ∃ call?, step opened previous? opening = call? :: opened := by
        rw [step, opens]
        exact ⟨_, rfl⟩
      obtain ⟨call?, push⟩ := push
      have pop {calls : List (Option OpenCall)} {before? : Option Token} :
          step calls before? close = calls.tail := by
        rw [step, closes]
      rw [openedFrom, push, openedFrom_append, ihInner, openedFrom, pop, tail_advanceBy, ih]

/-- Only the commas of lists are counted on the level where the count starts. -/
theorem listCommas_level {separators inLists : Nat} (level : Level tokens separators inLists)
    (parens brackets : Nat) :
    listCommas parens brackets (tokens ++ rest) =
      (if parens = 0 then (if 0 < brackets then separators + inLists else inLists) else 0) +
        listCommas parens brackets rest := by
  induction level generalizing parens brackets rest with
  | nil => cases parens <;> simp
  | @plain token tail separators inLists other later ih =>
      rw [List.cons_append, listCommas]
      cases mark : token.kind <;> first
        | exact ih parens brackets
        | (rw [mark] at other; cases other)
  | @comma token tail separators inLists found later ih =>
      rw [List.cons_append, listCommas, found]
      simp only [ih]
      by_cases outside : parens = 0 <;> by_cases listed : 0 < brackets <;>
        simp only [outside, listed, true_and, false_and, and_false, if_true, if_false] <;> omega
  | @parens opening close inner tail _ _ separators inLists opens enclosed closes later ihInner
      ih =>
      rw [List.cons_append, List.append_assoc, listCommas, opens]
      simp only [ihInner, List.cons_append, listCommas, closes, ih, Nat.add_sub_cancel]
      rw [if_neg (Nat.succ_ne_zero parens), Nat.zero_add]
  | @brackets opening close inner tail inside deeper _ _ opens enclosed closes later ihInner ih =>
      rw [List.cons_append, List.append_assoc, listCommas, opens]
      simp only [ihInner, List.cons_append, listCommas, closes, ih, Nat.add_sub_cancel,
        Nat.succ_pos, if_true]
      by_cases outside : parens = 0 <;> by_cases listed : 0 < brackets <;>
        simp only [outside, listed, if_true, if_false] <;> omega

end

/-- The word that some tokens end with. -/
def lastWord? (tokens : List Token) : Option String :=
  tokens.getLast?.bind fun token =>
    match token.kind with
    | .word written => some written
    | _ => none

/-- Where behind an open parenthesis all others are closed, the call of the word before it is
found, if there is a word. -/
theorem find?_of_balanced {before inside : List Token} {opening : Token} {commas : Nat}
    (opens : opening.kind = .openParen) (balanced : Balanced inside commas) :
    find? (before ++ opening :: inside) =
      (lastWord? before).map fun written => ⟨written, commas⟩ := by
  have push {opened : List (Option OpenCall)} : step opened before.getLast? opening =
      ((lastWord? before).map fun written => ⟨written, 0⟩) :: opened := by
    rw [step, opens, lastWord?]
    cases before.getLast? with
    | none => rfl
    | some token => cases mark : token.kind <;> simp [mark]
  rw [find?, openedFrom_append, Option.or_none, openedFrom, push, openedFrom_balanced balanced,
    advanceBy_call]
  rfl

end Completion.OpenCall

/-! ## Calls that break off -/

section

variable {text name : String}

/-- What a call was read from that breaks off behind so many arguments, where one is missing. -/
structure BreaksOff (name : String) (count : Nat) (word opening : Token) (inside : List Token) :
    Prop where
  named : word.kind = .word word.text
  lower : word.lower = name
  opens : opening.kind = .openParen
  unclosed : Unclosed count inside
  missing : ¬ EndsItem inside

theorem Token.text_of_word {word : Token} (member : word ∈ scan text) {written : String}
    (named : word.kind = .word written) : word.text = written := by
  have part : continuesColumn false word.kind = true := by
    rw [named]
    rfl
  have writes := writes_of_mem_scan member (by rw [named]; rfl)
  rw [(spelled_of_writes writes part).bare (by rw [named]; rfl), named]
  rfl

/-- Nothing is left behind the last token of the text. -/
theorem Grammar.Reached.rest_eq_nil {t : Reading} (reached : Reached text t) {last : Token}
    (ends : (Token.scan text).getLast? = some last) (stop : t.lastStop = last.span.stop) :
    t.rest = [] := by
  have row := (ready_start text).placed.row
  have final : ((Token.scan text).map Token.span).getLast? = some last.span := by
    rw [List.getLast?_map, ends]
    rfl
  rw [← reached.dropWhile_eq, List.dropWhile_eq_nil_iff]
  intro token member
  have wide := (Token.sound_of_mem_scan member).nonempty
  have within : token.span.stop ≤ last.span.stop :=
    row.stop_le_getLast final (List.mem_map_of_mem member)
  exact decide_eq_true (by omega)

/-- A call that ends with the last token of the text, where an argument is missing. -/
theorem Expr.Called.exists_breaksOff {args : List Expr} {span : Span} {last : Token}
    (called : Called text name args span) (ends : (Token.scan text).getLast? = some last)
    (stops : span.stop = last.span.stop) (mark : last.kind = .openParen ∨ last.kind = .comma)
    (complete : ∀ arg ∈ args, arg.incomplete = false) :
    ∃ before word opening inside, Token.scan text = before ++ word :: opening :: inside ∧
      word.span.start = span.start ∧ BreaksOff name args.length word opening inside := by
  obtain ⟨reached, front, named, opens, listed⟩ := called
  rename_i bound s word opening rest written read t
  obtain ⟨inside, here⟩ : ItemsRead .closeParen (s.skip 2) read t := by
    have items := (itemRules bound).listing .closeParen true (s.skip 2)
    unfold Ensures at items
    rwa [listed] at items
  have nothing := ((reached.skip 2).follow ⟨inside, here.leads⟩).rest_eq_nil ends stops
  have tokens : rest = inside := by
    rw [← List.append_nil inside, ← nothing, ← here.leads.rest, Reading.rest_skip, front]
    rfl
  subst tokens
  obtain ⟨before, whole⟩ := reached.suffix
  rw [front] at whole
  have spelled := Token.text_of_word (whole ▸ List.mem_append_right _ (.head _)) named
  -- The last token of the text is no closing parenthesis, and it ends no item.
  rw [← whole, List.getLast?_append_cons, List.getLast?_cons_cons, List.getLast?_cons] at ends
  have broken : read.complete = false := by
    refine Bool.eq_false_iff.mpr fun closed => ?_
    obtain ⟨items, closing, separators, rfl, closes, -⟩ := here.closed closed
    rw [List.getLast?_concat] at ends
    obtain rfl : closing = last := Option.some.inj ends
    rw [closes] at mark
    rcases mark with mark | mark <;> cases mark
  refine ⟨before, word, opening, _, whole.symm, rfl, spelled ▸ named, rfl, opens,
    here.broken broken complete, ?_⟩
  rintro ⟨final, there, other⟩
  rw [there] at ends
  cases ends
  exact mark.elim other.2 other.1

namespace BreaksOff

open Completion

variable {count : Nat} {word opening : Token} {inside : List Token}
  (here : BreaksOff name count word opening inside)

include here

theorem excess_eq : excess (word :: opening :: inside) = -1 + excess inside := by
  rw [excess_cons, excess_cons, here.named, here.opens]
  simp only [closing]
  omega

/-- If only the parenthesis of the call is open, the call is found. -/
theorem find?_of_even (even : excess (word :: opening :: inside) = -1) (front : List Token) :
    OpenCall.find? (front ++ word :: opening :: inside) =
      some ⟨word.text, count + OpenCall.listCommas 0 0 inside⟩ := by
  rw [here.excess_eq] at even
  obtain ⟨inLists, level⟩ := here.unclosed.level here.missing (by omega)
  have counted : OpenCall.listCommas 0 0 (inside ++ []) = _ + OpenCall.listCommas 0 0 [] :=
    OpenCall.listCommas_level level 0 0
  rw [List.append_nil] at counted
  have called : OpenCall.lastWord? (front ++ [word]) = some word.text := by
    rw [OpenCall.lastWord?, List.getLast?_concat, Option.bind_some, here.named]
  rw [List.append_cons, OpenCall.find?_of_balanced here.opens level.balanced, called, counted]
  rfl

/-- Behind another parenthesis no call is found. -/
theorem find?_of_odd (odd : excess (word :: opening :: inside) ≠ -1) {last : Token}
    (ends : (word :: opening :: inside).getLast? = some last) (group : last.kind = .openParen)
    (front : List Token) : OpenCall.find? (front ++ word :: opening :: inside) = none := by
  rw [here.excess_eq] at odd
  rw [List.getLast?_cons_cons, List.getLast?_cons] at ends
  cases final : inside.getLast? with
  | none =>
      rw [List.getLast?_eq_none_iff.mp final] at odd
      exact absurd rfl odd
  | some token =>
      rw [final] at ends
      cases ends
      obtain ⟨inner, previous, tokens, kinds⟩ :=
        here.unclosed.exists_previous here.missing here.opens final group
      have nameless : OpenCall.lastWord? (front ++ word :: inner ++ [previous]) = none := by
        rw [OpenCall.lastWord?, List.getLast?_concat, Option.bind_some]
        rcases kinds with kind | kind <;> rw [kind]
      have split : front ++ word :: opening :: inside =
          (front ++ word :: inner ++ [previous]) ++ token :: [] := by
        rw [tokens]
        simp
      have last : token.kind = .openParen := group
      rw [split, OpenCall.find?_of_balanced last .nil, nameless]
      rfl

/-- If another parenthesis is open, what is found is the call of the innermost one. -/
theorem exists_inner (odd : excess (word :: opening :: inside) ≠ -1) :
    ∃ before inner behind commas, word :: opening :: inside = before ++ inner :: behind ∧
      2 ≤ before.length ∧ inner.kind = .openParen ∧ Balanced behind commas ∧
      ∀ front, OpenCall.find? (front ++ word :: opening :: inside) =
        (OpenCall.lastWord? before).map fun written => ⟨written, commas⟩ := by
  rw [here.excess_eq] at odd
  have most := here.unclosed.excess_le here.missing
  obtain ⟨before, inner, behind, commas, whole, opens, balanced⟩ :=
    exists_opening (show excess inside < 0 by omega)
  refine ⟨word :: opening :: before, inner, behind, commas, by rw [whole]; rfl, by simp, opens,
    balanced, fun front => ?_⟩
  have split : front ++ word :: opening :: inside =
      (front ++ word :: opening :: before) ++ inner :: behind := by
    rw [whole]
    simp
  have same : OpenCall.lastWord? (front ++ word :: opening :: before) =
      OpenCall.lastWord? (word :: opening :: before) := by
    rw [OpenCall.lastWord?, List.getLast?_append_cons, OpenCall.lastWord?]
  rw [split, OpenCall.find?_of_balanced opens balanced, same]

end BreaksOff

/-! ## The call that is found -/

/-- Whatever lies in an argument starts behind the start of the argument. -/
theorem Argument.Nested.start_le {argument : Argument} (nested : argument.Nested text)
    {expr : Expr} (below : Node.expr expr ∈ argument.walk) :
    argument.span.start ≤ expr.span.start := by
  cases nested with
  | @expr other nested =>
      obtain ⟨_, inside, same⟩ := List.mem_map.mp below
      cases same
      exact ((Span.covers_iff _ _).mp (nested.of_mem_walk expr inside).2).1
  | plain noTree fits text operands =>
      cases argument with
      | expr e => cases noTree.1
      | _ =>
          obtain other | inside := List.mem_cons.mp below
          · cases other
          · obtain ⟨_, inside, same⟩ := List.mem_map.mp inside
            cases same
            rw [Expr.walkAll_eq_flatMap] at inside
            obtain ⟨operand, given, deeper⟩ := List.mem_flatMap.mp inside
            have covers := ((operands.sound operand given).of_mem_walk expr deeper).2
            have bounds := operands.row.bounds (List.mem_map_of_mem given)
            exact Nat.le_trans bounds.1 ((Span.covers_iff _ _).mp covers).1
  | branch nested =>
      obtain other | inside := List.mem_cons.mp below
      · cases other
      · cases inside

/-- Whatever lies in a command of a text stands behind its name. -/
theorem Command.stop_le_of_walk {command : Command}
    (visited : command ∈ Command.visitedIn (parse text).pipeline.commands) {expr : Expr}
    (below : Node.expr expr ∈ command.walk) : command.nameSpan.stop ≤ expr.span.start := by
  obtain same | inside := List.mem_cons.mp below
  · cases same
  obtain ⟨argument, given, deeper⟩ := List.mem_flatMap.mp inside
  have bounds := (named_visited text command visited).row.bounds (List.mem_map_of_mem given)
  obtain ⟨fits, _, row, args⟩ := nested_visited text command visited
  exact Nat.le_trans bounds.1 ((args argument given).start_le deeper)

end

open Completion

/-- Where an opening parenthesis or a comma of a call ends a text, and all arguments of the call
are complete, the call is found if its own parenthesis is the only one among its tokens that is not
closed. The position of the argument is the number of arguments and of the commas in lists of these
arguments. Otherwise the call of the innermost parenthesis that is not closed is found, if a word
stands before it, and behind a parenthesis of a group no call is found. -/
theorem openCall_at_end {text name : String} {command : Command} {args : List Expr}
    {extent : Extent} {last : Token} (visited : command ∈ (parse text).pipeline.visited)
    (below : Node.expr (.apply name .call args extent) ∈ command.walk)
    (ends : (Token.scan text).getLast? = some last) (stops : extent.span.stop = last.span.stop)
    (mark : last.kind = .openParen ∨ last.kind = .comma)
    (complete : ∀ arg ∈ args, arg.incomplete = false) :
    (excess (extent.span.tokens text) = -1 → ∃ written, Text.lower written = name ∧
      OpenCall.find? (command.written text) = some ⟨written,
        args.length + OpenCall.listCommas 0 0 ((extent.span.tokens text).drop 2)⟩) ∧
    (excess (extent.span.tokens text) ≠ -1 → last.kind = .openParen →
      OpenCall.find? (command.written text) = none) ∧
    (excess (extent.span.tokens text) ≠ -1 → ∃ before opening behind commas,
      extent.span.tokens text = before ++ opening :: behind ∧ 2 ≤ before.length ∧
        opening.kind = .openParen ∧ Balanced behind commas ∧
        OpenCall.find? (command.written text) =
          (OpenCall.lastWord? before).map fun written => ⟨written, commas⟩) := by
  rw [Pipeline.visited_eq] at visited
  have called : Expr.Called text name args extent.span := by
    cases (traced_visited visited below : Expr.Applied text name .call args extent.span) with
    | call called => exact called
    | operator form args span named other => exact absurd rfl other
  obtain ⟨before, word, opening, inside, whole, starts, here⟩ :=
    called.exists_breaksOff ends stops mark complete
  have final : (word :: opening :: inside).getLast? = some last := by
    rw [whole, List.getLast?_append_cons] at ends
    exact ends
  have under : extent.span.tokens text = word :: opening :: inside := by
    have covered := Token.filter_covers_run whole rfl final
    rw [starts, ← stops] at covered
    exact covered
  obtain ⟨front, behind⟩ : ∃ front, command.written text = front ++ word :: opening :: inside := by
    have after : ¬ decide (word.span.start < command.nameSpan.stop) = true := by
      rw [decide_eq_true_iff, Nat.not_lt, starts]
      exact Command.stop_le_of_walk visited below
    rw [Command.written, whole, List.dropWhile_append]
    split
    · exact ⟨[], List.dropWhile_cons_of_neg after⟩
    · exact ⟨_, rfl⟩
  rw [under, behind]
  refine ⟨fun even => ⟨word.text, here.lower, here.find?_of_even even front⟩,
    fun odd group => here.find?_of_odd odd final group front, fun odd => ?_⟩
  obtain ⟨before, inner, behind, commas, tokens, far, opens, balanced, found⟩ :=
    here.exists_inner odd
  exact ⟨before, inner, behind, commas, tokens, far, opens, balanced, found front⟩

/-- The interval leaves its parenthesis open, so the one that closes the call of `g` closes that. -/
example : OpenCall.find? (Token.scan "f(g([(1 day]), ") = some ⟨"g", 1⟩ := by
  decide +kernel

/-- A call of a text whose arguments are complete, by what can be told of it. -/
theorem exists_call (text name : String) (span : Span) (count : Nat) (holds : Command → Bool)
    (checked : (parse text).pipeline.visited.any (fun command => holds command &&
      command.walk.any fun node => match node with
        | .expr (.apply called .call args extent) =>
            called == name && args.length == count && extent.span == span && extent.incomplete &&
              args.all fun arg => !arg.incomplete
        | _ => false) = true) :
    ∃ command ∈ (parse text).pipeline.visited, holds command = true ∧ ∃ args extent,
      Node.expr (.apply name .call args extent) ∈ command.walk ∧ args.length = count ∧
        extent.span = span ∧ extent.incomplete = true ∧ ∀ arg ∈ args, arg.incomplete = false := by
  obtain ⟨command, visited, found⟩ := List.any_eq_true.mp checked
  rw [Bool.and_eq_true] at found
  obtain ⟨node, below, facts⟩ := List.any_eq_true.mp found.2
  split at facts
  · rename_i called args extent
    simp only [Bool.and_eq_true, beq_iff_eq, List.all_eq_true, Bool.not_eq_true'] at facts
    obtain ⟨⟨⟨⟨rfl, length⟩, place⟩, incomplete⟩, complete⟩ := facts
    exact ⟨command, visited, found.1, args, extent, below, length, place, incomplete, complete⟩
  · cases facts

/-- A comma that ends a text, by its end. -/
theorem exists_comma (text : String) (stop : Nat)
    (last : (Token.scan text).getLast?.map (fun token => (token.span.stop, token.kind)) =
      some (stop, .comma)) :
    ∃ comma, (Token.scan text).getLast? = some comma ∧ comma.span.stop = stop ∧
      comma.kind = .comma := by
  obtain ⟨comma, ends, same⟩ := Option.map_eq_some_iff.mp last
  obtain ⟨stops, mark⟩ := Prod.mk.inj same
  exact ⟨comma, ends, stops, mark⟩

/-- The arguments so far are a list of two items and a call. -/
theorem openCall_at_end_listed :
    ∃ command ∈ (parse "FROM a | EVAL x = F([1, 2], g(3), ").pipeline.visited, ∃ args extent,
      Node.expr (.apply "f" .call args extent) ∈ command.walk ∧ args.length = 2 ∧
        ∃ written, Text.lower written = "f" ∧
          OpenCall.find? (command.written "FROM a | EVAL x = F([1, 2], g(3), ") =
            some ⟨written, 3⟩ := by
  obtain ⟨command, visited, -, args, extent, below, length, span, -, complete⟩ :=
    exists_call "FROM a | EVAL x = F([1, 2], g(3), " "f" ⟨18, 33⟩ 2 (fun _ => true)
      (by decide +kernel)
  obtain ⟨comma, ends, stop, mark⟩ :=
    exists_comma "FROM a | EVAL x = F([1, 2], g(3), " 33 (by decide +kernel)
  have stops : extent.span.stop = comma.span.stop := by rw [span, stop]
  have found := (openCall_at_end visited below ends stops (.inr mark) complete).1
  rw [span, length] at found
  exact ⟨command, visited, args, extent, below, length, found (by decide +kernel)⟩

/-- A comma in a list is counted as if it separated two arguments. -/
theorem not_openCall_at_end :
    ¬ ∀ (text name : String) (command : Command) (args : List Expr) (extent : Extent)
      (last : Token), command ∈ (parse text).pipeline.visited →
      Node.expr (.apply name .call args extent) ∈ command.walk → extent.incomplete = true →
      (Token.scan text).getLast? = some last → extent.span.stop = last.span.stop →
      last.kind = .openParen ∨ last.kind = .comma → (∀ arg ∈ args, arg.incomplete = false) →
        ∃ written, Text.lower written = name ∧
          OpenCall.find? (command.written text) = some ⟨written, args.length⟩ := by
  intro claimed
  obtain ⟨command, visited, argument, args, extent, below, length, span, incomplete, complete⟩ :=
    exists_call "FROM a | EVAL x = coalesce([1, 2], " "coalesce" ⟨18, 34⟩ 1 (fun command =>
      (OpenCall.find? (command.written "FROM a | EVAL x = coalesce([1, 2], ")).map (·.argument) ==
        some 2) (by decide +kernel)
  obtain ⟨comma, ends, stop, mark⟩ :=
    exists_comma "FROM a | EVAL x = coalesce([1, 2], " 34 (by decide +kernel)
  have stops : extent.span.stop = comma.span.stop := by rw [span, stop]
  obtain ⟨written, -, found⟩ := claimed _ "coalesce" command args extent comma visited below
    incomplete ends stops (.inr mark) complete
  rw [found, length] at argument
  cases argument

end Esql
