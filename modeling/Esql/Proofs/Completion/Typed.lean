import Esql.Completion.Query
import Esql.Proofs.Grammar.Continued
import Esql.Proofs.Token.Continued

/-!
# The verbs offered for a word

Behind the last pipe of a text the verbs are offered that may start a command. A word that is typed
there is replaced by the verb, but it is itself read as a command, and the verbs are chosen with
that command in the query: the word `fork` takes the place of the one fork that a query may have.
-/

namespace Esql

namespace Text

theorem fitting_width (cs : List Char) : fitting cs (width cs) = cs := by
  induction cs with
  | nil => rfl
  | cons c cs ih => rw [width, fitting, if_pos (Nat.le_add_right _ _), Nat.add_sub_cancel_left, ih]

theorem before_byteLength (text : String) : before text (byteLength text) = text := by
  rw [before, byteLength, fitting_width, String.ofList_toList]

end Text

namespace Completion

/-! ## Verbs and their suggestions -/

/-- Suggestions with different labels are all listed. -/
theorem foldl_listOnce {listed suggestions : List Suggestion}
    (distinct : ((listed ++ suggestions).map (·.label)).Nodup) :
    suggestions.foldl listOnce listed = listed ++ suggestions := by
  induction suggestions generalizing listed with
  | nil => rw [List.foldl_nil, List.append_nil]
  | cons suggestion suggestions ih =>
      have new : (listed.any fun known =>
          known.text == suggestion.text && known.label == suggestion.label) = false := by
        rw [List.map_append, List.map_cons, List.nodup_append] at distinct
        refine List.any_eq_false.mpr fun known member => ?_
        have apart := distinct.2.2 _ (List.mem_map_of_mem member) _ List.mem_cons_self
        simp [apart]
      rw [← List.singleton_append, ← List.append_assoc] at distinct ⊢
      rw [List.foldl_append, List.foldl_cons, List.foldl_nil, listOnce, new,
        if_neg Bool.false_ne_true, ih distinct]

/-- Behind a pipe all verbs are offered that process rows, without a second fork. An open branch is
a branch of a fork. -/
theorem verbs_stage (query : Pipeline) :
    verbs query .stage = (Verb.suggestable false).filter fun verb =>
      !(verb == .fork && query.commands.any fun command => command.name == "fork") := by
  have allowed : (Verb.suggestable false).filter Verb.allowedInFork =
      (Verb.suggestable false).filter (· != .fork) := by decide
  cases forked : query.commands.any fun command => command.name == "fork" with
  | true =>
      rw [verbs, allowed, forked, if_pos rfl, ite_self]
      refine congrArg (List.filter · _) (funext fun verb => ?_)
      rw [Bool.and_true]
      rfl
  | false =>
      have closed : query.openBranch? = none := by
        refine Option.bind_eq_none_iff.mpr fun fork found => ?_
        obtain ⟨last, named⟩ := Option.filter_eq_some_iff.mp found
        have member := List.mem_of_getLast? last
        have other := List.any_eq_false.mp forked fork member
        exact absurd named other
      simp only [verbs, closed, forked, Option.isSome_none, Bool.and_false, Bool.not_false,
        Bool.false_eq_true, if_false]
      exact (List.filter_eq_self.mpr fun _ _ => rfl).symm

/-- The verbs with a range to replace, as they are listed. -/
theorem foldl_listOnce_verbs (query : Pipeline) (range? : Option Span) :
    ((verbs query .stage).map fun verb => (Suggestion.command verb).replacing range?).foldl listOnce
        [] =
      (verbs query .stage).map fun verb => (Suggestion.command verb).replacing range? := by
  have distinct : ((Verb.suggestable false).map Verb.label).Nodup := by decide +kernel
  refine foldl_listOnce ?_
  rw [List.nil_append, List.map_map, verbs_stage]
  exact distinct.sublist (List.filter_sublist.map Verb.label)

/-- Behind a pipe, and in a word behind one, the verbs are offered. -/
theorem atEnd_behind_pipe {text : String} {front : List Token} {pipe : Token}
    {typed? : Option Token} (tokens : Token.scan text = front ++ pipe :: typed?.toList)
    (found : pipe.kind = .pipe)
    (typing : ∀ typed ∈ typed?, typed.endsAt (Text.byteLength text) = true ∧
      (typed.kind.isName || typed.kind.keyword?.isSome) = true)
    (query : Pipeline) (snapshot : Snapshot) :
    atEnd text query snapshot = (verbs query .stage).map fun verb =>
      (Suggestion.command verb).replacing (typed?.map (·.span)) := by
  have start : start? query (front ++ [pipe]) = some .stage := by
    rw [start?, List.getLast?_concat]
    simp only [found]
  unfold atEnd
  cases typed? with
  | none =>
      have last : (Token.scan text).getLast? = some pipe := by
        rw [tokens]
        exact List.getLast?_concat
      have none : ((Token.scan text).getLast?.filter fun token =>
          token.endsAt (Text.byteLength text) &&
            (token.kind.isName || token.kind.keyword?.isSome)) = none := by
        rw [last, Option.filter_some, found]
        simp [TokenKind.isName, TokenKind.name?, TokenKind.keyword?]
      simp only [none]
      rw [tokens]
      simp [start]
  | some typed =>
      have last : (Token.scan text).getLast? = some typed := by
        rw [tokens]
        simp
      have some : ((Token.scan text).getLast?.filter fun token =>
          token.endsAt (Text.byteLength text) &&
            (token.kind.isName || token.kind.keyword?.isSome)) = some typed := by
        obtain ⟨ends, named⟩ := typing typed rfl
        rw [last, Option.filter_some, ends, named]
        rfl
      simp only [some]
      rw [tokens]
      simp [start]

end Completion

/-! ## What is offered -/

/-- At the end of a text the verbs are offered, each in place of the range if there is one, whatever
the collaborator answers. -/
def Offers (text : String) (verbs : List Verb) (range? : Option Span) : Prop :=
  ∀ (m : Type → Type) [Monad m] (collaborator : Collaborator m),
    suggest collaborator text (Text.byteLength text) = do
      let _ ← Snapshot.collect collaborator text (parse text).pipeline
      pure (verbs.map fun verb => (Suggestion.command verb).replacing range?)

/-- The verbs that may start a command behind the last pipe of a text. -/
def startable (text : String) : List Verb := Completion.verbs (parse text).pipeline .stage

theorem offers_behind_pipe {text : String} {front : List Token} {pipe : Token}
    {typed? : Option Token} (tokens : Token.scan text = front ++ pipe :: typed?.toList)
    (found : pipe.kind = .pipe)
    (typing : ∀ typed ∈ typed?, typed.endsAt (Text.byteLength text) = true ∧
      (typed.kind.isName || typed.kind.keyword?.isSome) = true) :
    Offers text (startable text) (typed?.map (·.span)) := by
  intro m _ collaborator
  rw [suggest, Text.before_byteLength]
  refine congrArg _ (funext fun snapshot => congrArg pure ?_)
  rw [Completion.atEnd_behind_pipe tokens found typing, Completion.foldl_listOnce_verbs]
  rfl

/-! ## The word in the query -/

/-- The word behind a text is read as a fork of the query itself. -/
def startsFork (text word : String) : Bool :=
  Text.lower word == "fork" && (parse (text ++ " " ++ word)).pipeline.commands.any fun command =>
    command.name == "fork" && command.nameSpan.start == Text.byteLength text + 1

/-- The place of a word behind a text and a blank, if no comment takes it in. -/
def typedSpan? (text word : String) : Option Span :=
  if Token.Commented text then none
  else some ⟨Text.byteLength text + 1, Text.byteLength text + 1 + Text.byteLength word⟩

/-- The token that a word is at that place. -/
theorem eq_of_mem_typed {text word : String} {kind : TokenKind} {token : Token}
    (member : token ∈ (typedSpan? text word).map (Token.mk kind word)) :
    token = ⟨kind, word, ⟨Text.byteLength text + 1, Text.byteLength (text ++ " " ++ word)⟩⟩ := by
  obtain ⟨span, found, rfl⟩ := Option.map_eq_some_iff.mp member
  obtain ⟨-, same⟩ := Option.ite_none_left_eq_some.mp found
  have length : Text.byteLength (text ++ " " ++ word) =
      Text.byteLength text + 1 + Text.byteLength word := by
    have blank : Text.width " ".toList = 1 := by decide
    simp only [Text.byteLength, String.toList_append, Text.width_append, blank]
  rw [length, ← Option.some.inj same]

/-- The query with the word has a fork if the query without it has one or the word is one. -/
theorem any_fork_typed {text word : String} {word? : Option Token}
    (continues : Grammar.Continues word? (parse (text ++ " ")).pipeline.commands
      (parse (text ++ " " ++ word)).pipeline.commands)
    (typed : ∀ token ∈ word?, token.text = word ∧ token.span.start = Text.byteLength text + 1) :
    ((parse (text ++ " " ++ word)).pipeline.commands.any fun command => command.name == "fork") =
      (((parse (text ++ " ")).pipeline.commands.any fun command => command.name == "fork") ||
        startsFork text word) := by
  unfold startsFork
  revert continues
  generalize (parse (text ++ " ")).pipeline.commands = earlier
  generalize (parse (text ++ " " ++ word)).pipeline.commands = later
  intro continues
  have forks (command : Command) (starts : (command.name == "fork" &&
      command.nameSpan.start == Text.byteLength text + 1) = true) :
      (command.name == "fork") = true := (Bool.and_eq_true_iff.mp starts).1
  rcases continues with same | ⟨front, command, token, rfl, same, found, named, placed⟩
  · rw [← Grammar.any_eq_of_names same, Bool.eq_iff_iff, Bool.or_eq_true, Bool.and_eq_true]
    refine ⟨.inl, fun forked => forked.elim id fun starts => ?_⟩
    obtain ⟨command, member, found⟩ := List.any_eq_true.mp starts.2
    exact List.any_eq_true.mpr ⟨command, member, forks command found⟩
  · obtain ⟨whole, starts⟩ := typed token found
    have name : command.name = Text.lower word := by rw [named, Token.lower, whole]
    have start : command.nameSpan.start = Text.byteLength text + 1 := by rw [placed, starts]
    rw [← Grammar.any_eq_of_names same, List.any_append, List.any_append, List.any_cons, List.any_cons,
      name, start]
    cases Text.lower word == "fork" <;> simp

/-- The verbs are the same with and without the word, but for the fork that the word is. -/
theorem startable_typed {text word : String} {word? : Option Token}
    (continues : Grammar.Continues word? (parse (text ++ " ")).pipeline.commands
      (parse (text ++ " " ++ word)).pipeline.commands)
    (typed : ∀ token ∈ word?, token.text = word ∧ token.span.start = Text.byteLength text + 1) :
    startable (text ++ " " ++ word) =
      if startsFork text word then (startable (text ++ " ")).filter (· != .fork)
      else startable (text ++ " ") := by
  unfold startable
  rw [Completion.verbs_stage, Completion.verbs_stage, any_fork_typed continues typed]
  cases startsFork text word with
  | false => rw [Bool.or_false, if_neg Bool.false_ne_true]
  | true =>
      rw [Bool.or_true, if_pos rfl, List.filter_filter]
      refine congrArg (List.filter · _) (funext fun verb => ?_)
      rw [bne]
      cases verb == .fork <;> rfl

/-! ## With and without the word -/

section

variable {text word : String} {kind : TokenKind}
  (ends : (Token.scan text).getLast?.map (·.kind) = some .pipe)
  (single : Token.scan word = [⟨kind, word, ⟨0, Text.byteLength word⟩⟩])
  (named : (kind.isName || kind.keyword?.isSome) = true)
  (within : Token.Commented text → Grammar.isQuoted kind = true →
    '\n' ∉ word.toList ∧ '*' ∉ word.toList)

include ends

theorem scan_blank : Token.scan (text ++ " ") = Token.scan text := by
  have whole : text ++ " " = text ++ " " ++ "" := String.append_empty.symm
  rw [whole]
  by_cases commented : Token.Commented text
  · exact Token.scan_commented ends commented (by simp) (by simp)
  · rw [Token.scan_typed ends commented]
    exact List.append_nil _

include single named within

theorem scan_word : Token.scan (text ++ " " ++ word) =
    Token.scan text ++ ((typedSpan? text word).map (Token.mk kind word)).toList := by
  unfold typedSpan?
  by_cases commented : Token.Commented text
  · have plain : '\n' ∉ word.toList ∧ '*' ∉ word.toList := by
      cases quoted : Grammar.isQuoted kind with
      | true => exact within commented quoted
      | false =>
          have outside {d : Char} := Token.not_mem_of_single (d := d) single rfl named quoted
          exact ⟨outside (by decide +kernel) (by decide +kernel),
            outside (by decide +kernel) (by decide +kernel)⟩
    rw [if_pos commented, Token.scan_commented ends commented plain.1 plain.2]
    exact (List.append_nil _).symm
  · rw [if_neg commented, Token.scan_typed ends commented, single]
    simp [Token.shift, Span.shift, Nat.add_comm]

/-- Behind the last pipe of a text the same verbs are offered with and without a word, in place of
the word. Only a word that is read as a fork of the query itself takes the fork from the list. -/
theorem offers_typed :
    Offers (text ++ " ") (startable (text ++ " ")) none ∧
      Offers (text ++ " " ++ word)
        (if startsFork text word then (startable (text ++ " ")).filter (· != .fork)
          else startable (text ++ " "))
        (typedSpan? text word) := by
  obtain ⟨pipe, last, found⟩ := Option.map_eq_some_iff.mp ends
  obtain ⟨front, tokens⟩ := List.getLast?_eq_some_iff.mp last
  have earlier : Token.scan (text ++ " ") = front ++ pipe :: (none : Option Token).toList :=
    (scan_blank ends).trans tokens
  have later : Token.scan (text ++ " " ++ word) =
      front ++ pipe :: ((typedSpan? text word).map (Token.mk kind word)).toList := by
    rw [scan_word ends single named within, tokens, List.append_assoc]
    rfl
  have continues := continues_parse found (fun token member pipe => by
    rw [eq_of_mem_typed member] at pipe
    rw [show kind = .pipe from pipe] at named
    cases named) earlier later
  have offers := offers_behind_pipe later found fun token member => by
    rw [eq_of_mem_typed member]
    exact ⟨beq_self_eq_true _, named⟩
  rw [startable_typed continues fun token member => by
    rw [eq_of_mem_typed member]
    exact ⟨rfl, rfl⟩] at offers
  refine ⟨offers_behind_pipe earlier found nofun, ?_⟩
  rwa [Option.map_map, show (·.span) ∘ Token.mk kind word = id from rfl, Option.map_id] at offers

end

/-- `ke` changes nothing but the range. -/
theorem offers_typed_keep :
    Offers "FROM a | " (Verb.suggestable false) none ∧
      Offers "FROM a | ke" (Verb.suggestable false) (some ⟨9, 11⟩) := by
  have ends : (Token.scan "FROM a |").getLast?.map (·.kind) = some .pipe := by decide +kernel
  have single : Token.scan "ke" = [⟨.word "ke", "ke", ⟨0, Text.byteLength "ke"⟩⟩] := by
    decide +kernel
  have verbs : startable ("FROM a |" ++ " ") = Verb.suggestable false := by decide +kernel
  have other : startsFork "FROM a |" "ke" = false := by decide +kernel
  have range : typedSpan? "FROM a |" "ke" = some ⟨9, 11⟩ := by decide +kernel
  have offers := offers_typed ends single rfl fun _ quoted => by cases quoted
  rw [verbs, other, if_neg Bool.false_ne_true, range] at offers
  exact offers

/-- `fork` is offered behind a pipe, but no longer once it is typed. -/
theorem not_offers_typed_fork :
    ¬ ∃ verbs range?, Offers "FROM a | " verbs none ∧ Offers "FROM a | fork" verbs range? := by
  rintro ⟨verbs, range?, without, typed⟩
  let collaborator : Collaborator Id := ⟨fun _ => .ok none, .ok none, .ok none, .ok none⟩
  have length {text : String} {verbs others : List Verb} {range? range'? : Option Span}
      (first : Offers text verbs range?) (second : Offers text others range'?) :
      verbs.length = others.length := by
    have both : verbs.map _ = others.map _ :=
      (first Id collaborator).symm.trans (second Id collaborator)
    simpa using congrArg List.length both
  have blank : Token.scan "FROM a | " = Token.scan "FROM a " ++ ⟨.pipe, "|", ⟨7, 8⟩⟩ ::
      (none : Option Token).toList := by decide +kernel
  have word : Token.scan "FROM a | fork" = Token.scan "FROM a " ++ ⟨.pipe, "|", ⟨7, 8⟩⟩ ::
      (some ⟨.word "fork", "fork", ⟨9, 13⟩⟩ : Option Token).toList := by decide +kernel
  have more := length without (offers_behind_pipe blank rfl nofun)
  have less := length typed (offers_behind_pipe word rfl (by rintro _ ⟨⟩; decide +kernel))
  have lost : (startable "FROM a | ").length = (startable "FROM a | fork").length + 1 := by
    decide +kernel
  omega

end Esql
