import Esql.Proofs.Token.Quoted
import Esql.Proofs.Traced.Arguments
import Mathlib.Data.List.Forall2

/-!
# Columns as they are written

The text of a column is that of the tokens that it was read from, and the name of the column is what
is read of it. Of these tokens only the last may be a name in backticks that is not closed, for such
a name takes all that is left.

A column that is complete is written as closed tokens. So its parts are what is read of the
stretches between the points of its text, in order. Only the last part is looked at before the
column is taken to be complete: a part before it is empty where two points stand side by side, or
where a pair of backticks stands for it.
-/

namespace Esql

open Text.Quoted

namespace Column

variable {text : String} {column : Column} {stars : Bool} {first : Token} {others : List Token}

/-- The tokens of a complete column are written as their kinds demand. -/
theorem writes_of_read (read : Grammar.ColumnRead text stars first others column)
    (whole : column.incomplete = false) :
    ∀ token ∈ first :: others, Lexeme.Writes token.kind token.text.toList := by
  intro token member
  exact Token.writes_of_mem_scan (read.within.mem member)
    (Token.isWritten_of_continuesColumn (read.continues token member)
      (read.closed whole token member))

/-- The text of a column is what its tokens are written as. -/
theorem written_of_read (read : Grammar.ColumnRead text stars first others column) :
    column.text.toList = Token.written (first :: others) := by
  have sound : ∀ token ∈ first :: others, token.Sound text :=
    fun token member => Token.sound_of_mem_scan (read.within.mem member)
  rw [read.text, ← Token.slice_of_joined read.joined sound]

end Column

namespace Token

theorem isPlain_word {c : Char} {body : List Char} (starts : Text.startsName c = true)
    (continues : ∀ d ∈ body, Text.continuesName d = true) : IsPlain (c :: body) := by
  refine List.forall_mem_cons.mpr ⟨⟨?_, ?_⟩, fun d member => ⟨?_, ?_⟩⟩
  · rintro rfl
    exact absurd starts (by decide)
  · rintro rfl
    exact absurd starts (by decide)
  · rintro rfl
    exact absurd (continues _ member) (by decide)
  · rintro rfl
    exact absurd (continues _ member) (by decide)

/-- A token that is written has characters. -/
theorem ne_nil_of_writes {kind : TokenKind} {chars : List Char}
    (writes : Lexeme.Writes kind chars) : chars ≠ [] := by
  cases writes with
  | integer some all => exact some
  | _ => exact List.cons_ne_nil _ _

variable {text : String} {stars : Bool} {token : Token} {rest : List Token} {start stop : Nat}

/-- A token that starts a column name is written with no point in front. -/
theorem head?_ne_point_of_writes {kind : TokenKind} {chars : List Char}
    (writes : Lexeme.Writes kind chars) (starts : Grammar.startsColumn stars kind = true) :
    chars.head? ≠ some '.' := by
  cases writes with
  | word first continues =>
      intro same
      rw [Option.some.inj same] at first
      exact absurd first (by decide)
  | quoted | star => exact nofun
  | integer | plus | minus | dot => cases stars <;> cases starts

/-- What stands behind a closed name in backticks, in a run of tokens side by side, starts with no
backtick. -/
theorem head?_written_ne_tick {name : String} (within : token :: rest <:+: scan text)
    (joined : Joined start (token :: rest) stop) (quoted : token.kind = .quoted name true) :
    (written rest).head? ≠ some '\x60' := by
  cases rest with
  | nil => exact nofun
  | cons next rest =>
      have found := within.mem (.tail _ (.head _))
      obtain ⟨left, right, whole⟩ := within
      cases joined with
      | cons starts behind =>
          cases behind with
          | cons adjoins behind =>
              rw [List.append_assoc] at whole
              have other := head?_ne_tick_of_quoted whole.symm quoted adjoins
              obtain ⟨-, c, chars, more, -, same⟩ := exists_read_of_mem_scanFrom found
              rw [same, String.toList_ofList] at other
              rw [written, List.flatMap_cons, same, String.toList_ofList]
              exact other

/-- The parts that closed tokens side by side make up stand for the stretches of what they are
written as. -/
theorem stands_columnParts {run : List Token} (within : run <:+: scan text)
    (joined : Joined start run stop)
    (continues : ∀ token ∈ run, Grammar.continuesColumn stars token.kind = true)
    (writes : ∀ token ∈ run, Lexeme.Writes token.kind token.text.toList) :
    List.Forall₂ Stands (stretches false (written run)) (Grammar.columnParts run) := by
  induction run generalizing start with
  | nil => exact .cons stands_nil .nil
  | cons token rest ih =>
      rw [List.forall_mem_cons] at continues writes
      have further : rest <:+: scan text := (List.suffix_cons token rest).isInfix.trans within
      have inner : List.Forall₂ Stands (stretches false (written rest))
          (Grammar.columnParts rest) := by
        cases joined with
        | cons starts behind => exact ih further behind continues.2 writes.2
      obtain ⟨stretch, more, divided⟩ := exists_stretches false (written rest)
      obtain ⟨part, parts, behind⟩ := Grammar.exists_columnParts rest
      rw [divided, behind, List.forall₂_cons] at inner
      obtain ⟨stands, later⟩ := inner
      have closed {name : String} (quoted : token.kind = .quoted name true) :
          stretch.head? ≠ some '\x60' := fun tick =>
        head?_written_ne_tick within joined quoted (head?_of_stretches divided tick)
      rw [written, List.flatMap_cons, ← written]
      have here := continues.1
      have writes := writes.1
      generalize found : token.kind = kind at here writes closed
      generalize token.text.toList = chars at writes
      -- A word and a star lengthen the first stretch and the first part by the same characters.
      have plain (some : chars ≠ []) (plain : IsPlain chars) (noPoint : kind ≠ .dot)
          (same : Grammar.segment kind = String.ofList chars) :
          List.Forall₂ Stands (stretches false (chars ++ written rest))
            (Grammar.columnParts (token :: rest)) := by
        rw [stretches_plain plain divided, Grammar.columnParts_cons (found ▸ noPoint) behind, found,
          same]
        exact .cons (stands.plain some plain) later
      cases writes with
      | word starts continues =>
          exact plain (List.cons_ne_nil _ _) (isPlain_word starts continues)
            TokenKind.noConfusion rfl
      | star =>
          exact plain (List.cons_ne_nil _ _) (List.forall_mem_singleton.mpr (by decide))
            TokenKind.noConfusion rfl
      | dot =>
          rw [Grammar.columnParts_point found, behind]
          change List.Forall₂ Stands (stretches false ('.' :: written rest)) _
          rw [stretches_point, divided]
          exact .cons stands_nil (.cons stands later)
      | quoted name =>
          rw [Grammar.columnParts_cons (found ▸ TokenKind.noConfusion) behind, found,
            List.cons_append, List.append_assoc, List.singleton_append,
            stretches_quoted name divided]
          exact .cons (stands.quoted name (closed rfl)) later
      | integer | plus | minus => cases stars <;> cases here

/-- A name in backticks that is not closed is the last token. What is written for it is read as what
it holds. -/
theorem decode_of_isUnclosed {left right : List Token}
    (scanned : scan text = left ++ token :: right)
    (unclosed : Grammar.isUnclosed token.kind = true) :
    right = [] ∧ decode false token.text.toList = (shown token.kind).toList := by
  obtain ⟨glued, c, cs, more, read, same, behind⟩ := exists_read_of_scanFrom scanned
  generalize token.kind = kind at read unclosed
  cases kind with
  | quoted name terminated =>
      obtain ⟨rfl, body⟩ := Lexeme.read_quoted read
      have runsOut : (Lexeme.quotedBody cs).2.2 = false := by
        rw [body]
        exact (Bool.not_eq_true' _).mp unclosed
      have all := Lexeme.quotedBody_open runsOut
      have held := Lexeme.decode_eq cs
      rw [body] at all held
      obtain rfl : more = cs.length := all
      rw [List.drop_length, scanFrom_nil] at behind
      rw [List.drop_length, decode, List.append_nil] at held
      refine ⟨behind.symm, ?_⟩
      rw [same, String.toList_ofList, List.take_length, decode_tick, held]
      rfl
  | _ => cases unclosed

/-- What a closed token of a column name is written as is read as what it adds to the name. -/
theorem decode_of_writes {kind : TokenKind} {chars behind : List Char}
    (writes : Lexeme.Writes kind chars) (part : Grammar.continuesColumn stars kind = true)
    (closed : ∀ name, kind = .quoted name true → behind.head? ≠ some '\x60') :
    decode false (chars ++ behind) = (shown kind).toList ++ decode false behind := by
  cases writes with
  | word starts continues =>
      rw [decode_plain (isPlain_word starts continues)]
      exact congrArg (· ++ _) String.toList_ofList.symm
  | quoted name =>
      rw [List.cons_append, List.append_assoc, List.singleton_append, decode_tick,
        decode_encode_append name _ (closed _ rfl)]
      exact congrArg (· ++ _) String.toList_ofList.symm
  | dot | star => exact decode_outside _ _
  | integer | plus | minus => cases stars <;> cases part

/-- The tokens of a column name, closed or not, are written as what is read as the name. -/
theorem decode_written {run : List Token} (within : run <:+: scan text)
    (joined : Joined start run stop)
    (continues : ∀ token ∈ run, Grammar.continuesColumn stars token.kind = true) :
    decode false (written run) = named run := by
  induction run generalizing start with
  | nil => rfl
  | cons token rest ih =>
      rw [List.forall_mem_cons] at continues
      have further : rest <:+: scan text := (List.suffix_cons token rest).isInfix.trans within
      have inner : decode false (written rest) = named rest := by
        cases joined with
        | cons starts behind => exact ih further behind continues.2
      rw [written, List.flatMap_cons, ← written, named, List.flatMap_cons, ← named, ← inner]
      -- A token that is not closed is the last one, so nothing stands behind it to be read.
      cases unclosed : Grammar.isUnclosed token.kind with
      | true =>
          obtain ⟨left, right, whole⟩ := within
          rw [List.append_assoc] at whole
          obtain ⟨none, alone⟩ := decode_of_isUnclosed whole.symm unclosed
          obtain ⟨rfl, -⟩ := List.append_eq_nil_iff.mp none
          rw [← alone]
          exact (congrArg _ (List.append_nil _)).trans (List.append_nil _).symm
      | false =>
          have writes := writes_of_mem_scan (within.mem (.head _))
            (isWritten_of_continuesColumn continues.1 unclosed)
          exact decode_of_writes writes continues.1 fun _ => head?_written_ne_tick within joined

end Token

namespace Column

/-- For every text, each complete column of its tree has its parts, with points between them, as its
name. Each part is what is read of the stretch between two points of the text of the column, and is
empty if and only if the stretch is empty or a pair of backticks. Neither the first stretch nor the
last part is empty. -/
theorem stands_of_visited {text : String} {command : Command}
    (visited : command ∈ Command.visitedIn (parse text).pipeline.commands) {column : Column}
    (below : Node.expr (.column column) ∈ command.walk) (whole : column.incomplete = false) :
    column.name = Text.join "." column.parts ∧
      List.Forall₂ Stands (stretches false column.text.toList) column.parts ∧
      (stretches false column.text.toList).head? ≠ some [] ∧
      column.parts.getLast? ≠ some "" := by
  obtain ⟨stars, first, others, read⟩ : column.Traced text := traced_visited visited below
  have writes := writes_of_read read whole
  refine ⟨read.name, ?_, ?_, read.ended whole⟩
  · rw [written_of_read read, read.parts]
    exact Token.stands_columnParts read.within read.joined read.continues writes
  · have front := writes first (.head _)
    have noPoint := Token.head?_ne_point_of_writes front read.starts
    obtain ⟨c, chars, same⟩ := List.exists_cons_of_ne_nil (Token.ne_nil_of_writes front)
    rw [same] at noPoint
    rw [written_of_read read, Token.written, List.flatMap_cons, same]
    exact head?_stretches_ne_nil (fun point => noPoint (congrArg some point)) _

/-- A name with a point inside quotes. -/
theorem stands_of_visited_quoted :
    ∃ command ∈ Command.visitedIn (parse "FROM a | KEEP x.\x60y.z\x60").pipeline.commands,
      ∃ column, Node.expr (.column column) ∈ command.walk ∧ column.incomplete = false ∧
        column.parts = ["x", "y.z"] ∧ column.name = Text.join "." column.parts ∧
        List.Forall₂ Stands (stretches false column.text.toList) column.parts ∧
        (stretches false column.text.toList).head? ≠ some [] ∧
        column.parts.getLast? ≠ some "" := by
  have only : (expressionsOf "FROM a | KEEP x.\x60y.z\x60").filterMap Expr.column? =
      [⟨⟨⟨14, 21⟩, "x.\x60y.z\x60", false⟩, "x.y.z", ["x", "y.z"], true⟩] := by decide +kernel
  obtain ⟨command, visited, expr, same, below⟩ := exists_visited_of_leaf only
  cases expr <;> cases same
  exact ⟨command, visited, _, below, rfl, rfl, stands_of_visited visited below rfl⟩

/-- For every text, each column of its tree, complete or not, has as its name what its text is read
as. -/
theorem read_text_of_visited {text : String} {command : Command}
    (visited : command ∈ Command.visitedIn (parse text).pipeline.commands) {column : Column}
    (below : Node.expr (.column column) ∈ command.walk) :
    Text.Quoted.read column.text = column.name := by
  obtain ⟨stars, first, others, read⟩ : column.Traced text := traced_visited visited below
  refine String.toList_injective ?_
  rw [Text.Quoted.read, String.toList_ofList, written_of_read read, read.name, read.parts,
    Token.toList_join_columnParts]
  exact Token.decode_written read.within read.joined read.continues

/-- A pattern: a star, empty quotes, and quotes that are not closed with a doubled backtick. -/
theorem read_text_of_visited_open :
    ∃ command ∈ Command.visitedIn
        (parse "FROM a | KEEP *.\x60\x60.\x60b\x60\x60").pipeline.commands,
      ∃ column, Node.expr (.column column) ∈ command.walk ∧ column.incomplete = true ∧
        column.name = "*..b\x60" ∧ Text.Quoted.read column.text = column.name := by
  have only : (expressionsOf "FROM a | KEEP *.\x60\x60.\x60b\x60\x60").filterMap Expr.column? =
      [⟨⟨⟨14, 23⟩, "*.\x60\x60.\x60b\x60\x60", true⟩, "*..b\x60", ["*", "", "b\x60"], true⟩] := by
    decide +kernel
  obtain ⟨command, visited, expr, same, below⟩ := exists_visited_of_leaf only
  cases expr <;> cases same
  exact ⟨command, visited, _, below, rfl, rfl, read_text_of_visited visited below⟩

/-- Of two points side by side, neither is the last, so the empty part between them goes
unnoticed. -/
theorem exists_empty_of_visited :
    ¬ ∀ (text : String) (command : Command) (column : Column),
      command ∈ Command.visitedIn (parse text).pipeline.commands →
      Node.expr (.column column) ∈ command.walk → column.incomplete = false →
      (∀ part ∈ column.parts, part ≠ "") ∧ column.name = Text.join "." column.parts := by
  intro filled
  have only : (expressionsOf "FROM a | KEEP a..b").filterMap Expr.column? =
      [⟨⟨⟨14, 18⟩, "a..b", false⟩, "a..b", ["a", "", "b"], false⟩] := by decide +kernel
  obtain ⟨command, visited, expr, same, below⟩ := exists_visited_of_leaf only
  cases expr <;> cases same
  exact (filled _ _ _ visited below rfl).1 "" (.tail _ (.head _)) rfl

end Column

end Esql
