import Esql.Proofs.Grammar.Visited
import Esql.Proofs.Token.Spelled

/-!
# Leaves and the tokens they were read from

A column is read from tokens of the text that stand side by side, and a literal from one token, with
the signs directly before a number. Every rule of the grammar hands on the leaves of its parts, and
at most marks them as closed early. So each leaf of a tree can be traced to its tokens. In between
there are calls, the operators that the grammar knows, and the assignments and filters of fields.
-/

namespace Esql

theorem Token.sound_of_mem_scan {text : String} {token : Token} (member : token ∈ scan text) :
    token.Sound text :=
  (Grammar.ready_start text).placed.sound token member

namespace Grammar

/-- A state on the way through a text. -/
def Reached (text : String) (s : Reading) : Prop := Follows (.start text (Token.scan text)) s

namespace Reached

variable {text : String} {s t : Reading}

theorem follow (reached : Reached text s) (follows : Follows s t) : Reached text t :=
  reached.trans follows

theorem advance (reached : Reached text s) : Reached text s.advance :=
  reached.follow (follows_skip s 1)

theorem skip (reached : Reached text s) (count : Nat) : Reached text (s.skip count) :=
  reached.follow (follows_skip s count)

/-- The tokens left are the last ones of the text. -/
theorem suffix (reached : Reached text s) : s.rest <:+ Token.scan text := by
  obtain ⟨read, leads⟩ := reached
  exact ⟨read, leads.rest.symm⟩

theorem mem_scan (reached : Reached text s) {token : Token} (member : token ∈ s.rest) :
    token ∈ Token.scan text :=
  reached.suffix.mem member

theorem source (reached : Reached text s) : s.source = text := Follows.source reached

theorem sound (reached : Reached text s) {token : Token} (member : token ∈ s.rest) :
    token.Sound text :=
  Token.sound_of_mem_scan (reached.mem_scan member)

end Reached

theorem joined_runFrom (member : TokenKind → Bool) (previous : Token) (tokens : List Token) :
    Joined previous.span.stop (runFrom member previous tokens)
      (Token.stopAfter previous.span.stop (runFrom member previous tokens)) := by
  induction tokens generalizing previous with
  | nil => exact .nil _
  | cons token rest ih =>
      rw [runFrom]
      split
      · rename_i goesOn
        have adjoins := ((Bool.and_eq_true _ _).mp goesOn).1
        exact .cons (beq_iff_eq.mp adjoins).symm (ih token)
      · exact .nil _

/-- The tokens of a column name at the front stand side by side. The first starts one, and all of
them are part of it. -/
theorem columnRun_joined {stars : Bool} {tokens others : List Token} {first : Token}
    (run : columnRun stars tokens = first :: others) :
    (∃ rest, tokens = first :: (others ++ rest)) ∧
      Joined first.span.start (first :: others) (Token.stopAfter first.span.stop others) ∧
      startsColumn stars first.kind = true ∧
      ∀ token ∈ first :: others, continuesColumn stars token.kind = true := by
  unfold columnRun at run
  split at run
  · cases run
  rename_i token tokens
  split at run
  · rename_i starts
    obtain ⟨rfl, rfl⟩ := List.cons.inj run
    obtain ⟨rest, same, members⟩ := runFrom_append (continuesColumn stars) token tokens
    exact ⟨⟨rest, congrArg _ same⟩, .cons rfl (joined_runFrom _ _ _), starts,
      List.forall_mem_cons.mpr ⟨continuesColumn_of_startsColumn starts, members⟩⟩
  · cases run

/-- The tokens that a column was read from, each of which may belong to a column pattern. -/
structure ColumnAt (run : List Token) (column : Column) : Prop where
  nonempty : run ≠ []
  joined : Joined column.span.start run column.span.stop
  continues : ∀ token ∈ run, continuesColumn true token.kind = true

theorem continuesColumn_stars {stars : Bool} {kind : TokenKind}
    (continues : continuesColumn stars kind = true) : continuesColumn true kind = true := by
  cases stars with
  | true => exact continues
  | false =>
      rw [continuesColumn, Bool.false_and, Bool.or_false] at continues
      rw [continuesColumn, continues, Bool.true_or]

theorem column?_run (stars : Bool) (s : Reading) :
    Ensures (column? stars) s fun x t =>
      ∃ run, Leads s run t ∧ (x.isNone = true → run = []) ∧ ∀ column ∈ x, ColumnAt run column := by
  unfold column?
  rw [ensures_tokens]
  split
  · exact ⟨[], .refl s, fun _ => rfl, fun _ absent => absurd absent (Option.not_mem_none _)⟩
  · rename_i first others run
    obtain ⟨⟨rest, front⟩, joined, -, continues⟩ := columnRun_joined run
    have leads := leads_skip s (first :: others).length
    rw [front, ← List.cons_append, List.take_left'] at leads
    have here (column : Column) (starts : column.span.start = first.span.start)
        (stops : column.span.stop = (s.skip (first :: others).length).lastStop) :
        ColumnAt (first :: others) column := by
      refine ⟨List.cons_ne_nil _ _, ?_, fun token member =>
        continuesColumn_stars (continues token member)⟩
      rw [starts, stops, leads.stop]
      exact joined
    have recorded (error : SyntaxError) :
        Leads s (first :: others) ((s.skip (first :: others).length).record error) := by
      have both := leads.trans (.record _ error)
      rwa [List.append_nil] at both
    have one {name : String} {parts : List String} {quoted incomplete : Bool} : ∀ column ∈ some
        (Column.mk ((s.skip (first :: others).length).extent first.span.start incomplete) name parts
          quoted), ColumnAt (first :: others) column := by
      rintro _ ⟨⟩
      exact here _ rfl rfl
    simp only [ensures_skip, ensures_extent]
    split
    · exact ⟨_, recorded _, Bool.noConfusion, one⟩
    split
    · exact ⟨_, recorded _, Bool.noConfusion, one⟩
    · exact ⟨_, leads, Bool.noConfusion, one⟩
    · rfl

/-- A column that was read from tokens of a text. It is complete only if each quote is closed and a
name follows the last point. -/
structure ColumnRead (text : String) (stars : Bool) (first : Token) (others : List Token)
    (column : Column) : Prop where
  within : first :: others <:+: Token.scan text
  starts : startsColumn stars first.kind = true
  continues : ∀ token ∈ first :: others, continuesColumn stars token.kind = true
  joined : Joined column.span.start (first :: others) column.span.stop
  text : column.text = column.span.slice text
  parts : column.parts = columnParts (first :: others)
  name : column.name = Text.join "." column.parts
  quoted : column.quoted = (first :: others).any fun token => isQuoted token.kind
  closed : column.incomplete = false → ∀ token ∈ first :: others, isUnclosed token.kind = false
  ended : column.incomplete = false → column.parts.getLast? ≠ some ""

end Grammar

/-- The kind and the value of the literal that a token is by itself. -/
def Token.literal? (token : Token) : Option (LiteralKind × String) :=
  match token.kind with
  | .integer => some (.integer, token.text)
  | .decimal => some (.decimal, token.text)
  | .string value _ => some (.string, value)
  | .keyword .true | .keyword .false => some (.boolean, token.lower)
  | .keyword .null => some (.null, token.lower)
  | .param name => some (.param, name)
  | _ => none

/-- The column was read from some tokens of the text. -/
def Column.Traced (text : String) (column : Column) : Prop :=
  ∃ stars first others, Grammar.ColumnRead text stars first others column

/-- The literal was read from a token of the text, or from a sign and the number directly behind
it. -/
inductive Literal.Traced (text : String) : Literal → Prop where
  | token {token : Token} {kind : LiteralKind} {value : String} (incomplete : Bool)
      (within : token ∈ Token.scan text) (literal : token.literal? = some (kind, value)) :
      Traced text ⟨⟨token.span, token.text, incomplete⟩, kind, value⟩
  | signed {sign : Token} {name : String} {number : Literal} (within : sign ∈ Token.scan text)
      (mark : (sign.kind = .minus ∧ name = "-") ∨ (sign.kind = .plus ∧ name = "+"))
      (numeric : number.isNumeric = true) (joined : number.span.start = sign.span.stop)
      (read : Traced text number) :
      Traced text ⟨⟨⟨sign.span.start, number.span.stop⟩, sign.text ++ number.text, false⟩,
        number.kind, Grammar.signedValue name number.value⟩
  | marked {literal : Literal} (read : Traced text literal) :
      Traced text { literal with incomplete := true }

/-- The operators of expressions. -/
def Grammar.operatorNames : List String :=
  ["or", "and", "not", "==", "!=", "<", "<=", ">", ">=", ":", "in", "not in", "like", "not like",
    "rlike", "not rlike", "is null", "is not null", "+", "-", "*", "/", "%"]

namespace Expr

/-- A call was read from a word and an opening parenthesis on, and its arguments are what was read
of the listing behind them. -/
inductive Called (text : String) : String → List Expr → Span → Prop where
  | intro {bound : Nat} {s : Grammar.Reading} {word opening : Token} {rest : List Token}
      {written : String} (reached : Grammar.Reached text s)
      (front : s.rest = word :: opening :: rest) (named : word.kind = .word written)
      (opens : opening.kind = .openParen) {read : Grammar.Parts Expr} {t : Grammar.Reading}
      (listed : (Grammar.listing bound .closeParen true).run (s.skip 2) = (read, t)) :
      Called text word.lower read.items ⟨word.span.start, t.lastStop⟩

/-- What the grammar applies, in which form, to what and where. -/
inductive Applied (text : String) : String → Form → List Expr → Span → Prop where
  | call {name : String} {args : List Expr} {span : Span} (called : Called text name args span) :
      Applied text name .call args span
  | operator {name : String} (form : Form) (args : List Expr) (span : Span)
      (named : name ∈ Grammar.operatorNames) (other : form ≠ .call) :
      Applied text name form args span
  | assignment (target : Column) (value : Option Expr) (span : Span) :
      Applied text "=" .binary (Grammar.operands [.column target] value) span
  | filter (field : Expr) (condition : Option Expr) (span : Span) :
      Applied text "where" .binary (Grammar.operands [field] condition) span

/-- The target of an assignment is a column. -/
theorem Applied.exists_target {text name : String} {form : Form} {args : List Expr} {span : Span}
    (applied : Applied text name form args span) (equals : name = "=") (binary : form = .binary)
    {target : Expr} {values : List Expr} (front : args = target :: values) :
    ∃ column, target = .column column := by
  cases applied with
  | call called => cases binary
  | operator form args span named other => exact absurd (equals ▸ named) (by decide)
  | assignment column value => exact ⟨column, (List.cons.inj front).1.symm⟩
  | filter field condition => exact absurd equals (by decide)

/-- A leaf was read from tokens of the text, and an application is one that the grammar makes. -/
def NodeTraced (text : String) : Expr → Prop
  | .column c => c.Traced text
  | .literal l => l.Traced text
  | .apply name form args extent => Applied text name form args extent.span
  | .list .. | .interval _ | .cast .. => True

/-- All leaves of an expression were read from tokens of the text, and all its applications are made
by the grammar. -/
def Traced (text : String) (expr : Expr) : Prop := ∀ node ∈ expr.walk, node.NodeTraced text

variable {text : String} {expr : Expr}

theorem Traced.here (traced : expr.Traced text) : expr.NodeTraced text :=
  traced expr expr.mem_walk

theorem Traced.part {part : Expr} (traced : expr.Traced text)
    (member : part ∈ expr.children) : part.Traced text :=
  fun node below => traced node (walk_subset_of_child member below)

theorem traced_iff :
    expr.Traced text ↔ expr.NodeTraced text ∧ ∀ part ∈ expr.children, part.Traced text := by
  unfold Traced
  rw [walk_eq, walkAll_eq_flatMap, List.forall_mem_cons]
  simp only [List.mem_flatMap, forall_exists_index, and_imp]
  exact and_congr_right' ⟨fun all part inside node below => all node part inside below,
    fun all node part inside => all part inside node⟩

theorem traced_column {column : Column} : (Expr.column column).Traced text ↔ column.Traced text :=
  List.forall_mem_singleton

theorem traced_literal {literal : Literal} :
    (Expr.literal literal).Traced text ↔ literal.Traced text :=
  List.forall_mem_singleton

/-- An expression that is no leaf is traced with its parts. -/
theorem Traced.of_children (here : expr.NodeTraced text)
    (parts : ∀ part ∈ expr.children, part.Traced text) : expr.Traced text :=
  traced_iff.mpr ⟨here, parts⟩

theorem Traced.markIncomplete (traced : expr.Traced text) : expr.markIncomplete.Traced text := by
  obtain ⟨leaf, parts⟩ := traced_iff.mp traced
  refine traced_iff.mpr ?_
  cases expr with
  | column column =>
      obtain ⟨stars, first, others, read⟩ := leaf
      exact ⟨⟨stars, first, others, { read with closed := nofun, ended := nofun }⟩, parts⟩
  | literal literal => exact ⟨.marked leaf, parts⟩
  | _ => exact ⟨leaf, parts⟩

end Expr

/-- All leaves of an argument were read from tokens of the text, and all its applications are made
by the grammar. -/
def Argument.Traced (text : String) (argument : Argument) : Prop :=
  ∀ node ∈ argument.walk, ∀ expr ∈ node.expr?, expr.NodeTraced text

namespace Argument

variable {text : String}

theorem traced_expr {expr : Expr} : (Argument.expr expr).Traced text ↔ expr.Traced text := by
  unfold Traced Expr.Traced
  rw [walk]
  simp only [List.mem_map, forall_exists_index, and_imp, forall_apply_eq_imp_iff₂]
  exact forall₂_congr fun node _ => ⟨fun all => all node rfl, fun here _ same =>
    Option.some.inj same ▸ here⟩

/-- An argument that is no expression is traced with its operands. -/
theorem traced_of_operands {argument : Argument} (other : argument.expr? = none)
    (operands : ∀ operand ∈ argument.operands, operand.Traced text) : argument.Traced text := by
  have walked : argument.walk = .argument argument ::
      (Expr.walkAll argument.operands).map .expr := by
    cases argument with
    | expr e => cases other
    | _ => rfl
  intro node member expr same
  rw [walked, Expr.walkAll_eq_flatMap] at member
  rcases List.mem_cons.mp member with rfl | below
  · cases same
  · obtain ⟨inner, inside, rfl⟩ := List.mem_map.mp below
    obtain ⟨operand, found, deeper⟩ := List.mem_flatMap.mp inside
    obtain rfl : inner = expr := Option.some.inj same
    exact operands operand found inner deeper

end Argument

namespace Grammar

/-- On the way through a text, the result of a rule satisfies a condition, and reading goes on. -/
def Finds {α : Type} (text : String) (rule : Rule α) (holds : α → Prop) : Prop :=
  ∀ s, Reached text s → Ensures rule s fun x t => holds x ∧ Reached text t

namespace Finds

variable {α β : Type} {text : String} {rule : Rule α} {next : α → Rule β} {middle : α → Prop}
  {holds : β → Prop}

theorem pure {x : β} (here : holds x) : Finds text (pure x) holds :=
  fun _ reached => ⟨here, reached⟩

theorem bind (first : Finds text rule middle) (second : ∀ x, middle x → Finds text (next x) holds) :
    Finds text (rule >>= next) holds :=
  fun s reached => (first s reached).bind fun x t found => second x found.1 t found.2

/-- The result of the first rule does not matter. -/
theorem after (first : Forward rule) (second : ∀ x, Finds text (next x) holds) :
    Finds text (rule >>= next) holds :=
  fun s reached => (first s).bind fun x t follows => second x t (reached.follow follows)

theorem get {next : Reading → Rule β} (second : ∀ s, Finds text (next s) holds) :
    Finds text (get >>= next) holds :=
  fun s reached => second s s reached

theorem tokens {next : List Token → Rule β} (second : ∀ tokens, Finds text (next tokens) holds) :
    Finds text (tokens >>= next) holds :=
  fun s reached => second s.rest s reached

theorem extent {start : Nat} {incomplete : Bool} {next : Extent → Rule β}
    (second : ∀ extent, Finds text (next extent) holds) :
    Finds text (extent start incomplete >>= next) holds :=
  fun s reached => second (s.extent start incomplete) s reached

theorem skip {count : Nat} {next : Unit → Rule β} (second : Finds text (next ()) holds) :
    Finds text (skip count >>= next) holds :=
  fun s reached => second (s.skip count) (reached.skip count)

end Finds

/-- All items of a sequence satisfy a condition. -/
def AllItems {α : Type} (holds : α → Prop) (read : Parts α) : Prop :=
  ∀ item ∈ read.items, holds item

section

variable {α : Type} {text : String} {holds : α → Prop} {first second item : Rule (Parts α)}

theorem finds_halt (what : Expectation) : Finds text (halt what) (AllItems holds) :=
  .after (.expected what) fun _ => .pure nofun

theorem finds_andThen (here : Finds text first (AllItems holds))
    (there : Finds text second (AllItems holds)) :
    Finds text (andThen first second) (AllItems holds) := by
  refine here.bind fun read before => ?_
  split
  · exact there.bind fun others behind => .pure (List.forall_mem_append.mpr ⟨before, behind⟩)
  · exact .pure before

theorem finds_separated (here : Finds text item (AllItems holds)) :
    Finds text (separated item) (AllItems holds) := by
  refine .tokens fun tokens => ?_
  generalize tokens.length + 1 = bound
  induction bound with
  | zero => exact finds_halt .expression
  | succ bound ih =>
      refine finds_andThen here (.after (.accept .comma) fun comma => ?_)
      split
      · exact ih
      · exact .pure nofun

end

end Grammar

end Esql
