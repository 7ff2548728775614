import Esql.Proofs.Syntax.Nested

/-!
# Moving trees

A tree can be moved to another place, with the texts under its nodes kept or read anew from another
text. All moves of a well-nested tree that agree on spans and texts within its own text give the
same tree.
-/

namespace Esql

/-- Where spans go when a tree is moved, and what stands under them there. -/
structure Relocation where
  span : Span → Span
  /-- The new text under a node, from its old span and its old text. -/
  text : Span → String → String

namespace Relocation

/-- Nothing is moved. -/
def none : Relocation := ⟨id, fun _ text => text⟩

/-- All spans are moved to the right, with their texts. -/
def shift (distance : Nat) : Relocation := ⟨Span.shift distance, fun _ text => text⟩

/-- All spans are moved to the right into another text. -/
def into (source : String) (distance : Nat) : Relocation :=
  ⟨Span.shift distance, fun span _ => (span.shift distance).slice source⟩

def extent (move : Relocation) (extent : Extent) : Extent :=
  ⟨move.span extent.span, move.text extent.span extent.text, extent.incomplete⟩

/-- Two moves to the same place that agree on what stands under a proper part of a text. -/
structure Agree (source : String) (move other : Relocation) : Prop where
  span : move.span = other.span
  text : ∀ span : Span, span.Fits source →
    move.text span (span.slice source) = other.text span (span.slice source)

theorem Agree.extent {source : String} {move other : Relocation} (agree : Agree source move other)
    {e : Extent} (fits : e.span.Fits source) (text : e.text = e.span.slice source) :
    move.extent e = other.extent e := by
  unfold Relocation.extent
  rw [agree.span, text, agree.text _ fits]

/-- Moving into a longer text is the same as moving and keeping the texts. -/
theorem agree_into {source longer : String} {before after : List Char}
    (same : longer.toList = before ++ source.toList ++ after) :
    Agree source (into longer (Text.width before)) (shift (Text.width before)) :=
  ⟨rfl, fun _ fits => fits.slice_extend same⟩

theorem shift_zero : shift 0 = none := rfl

end Relocation

def Column.relocate (move : Relocation) (column : Column) : Column :=
  { column with toExtent := move.extent column.toExtent }

def Literal.relocate (move : Relocation) (literal : Literal) : Literal :=
  { literal with toExtent := move.extent literal.toExtent }

def Interval.relocate (move : Relocation) (interval : Interval) : Interval :=
  { interval with
    span := move.span interval.span
    text := move.text interval.span interval.text }

mutual

def Expr.relocate (move : Relocation) : Expr → Expr
  | .apply name form args extent =>
      .apply name form (Expr.relocateAll move args) (move.extent extent)
  | .column c => .column (c.relocate move)
  | .literal l => .literal (l.relocate move)
  | .list items extent => .list (Expr.relocateAll move items) (move.extent extent)
  | .interval i => .interval (i.relocate move)
  | .cast value target extent => .cast (Expr.relocate move value) target (move.extent extent)

def Expr.relocateAll (move : Relocation) : List Expr → List Expr
  | [] => []
  | expr :: rest => Expr.relocate move expr :: Expr.relocateAll move rest

end

def Source.relocate (move : Relocation) (source : Source) : Source :=
  { source with toExtent := move.extent source.toExtent }

/-- A word keeps the text of its token. -/
def Word.relocate (move : Relocation) (word : Word) : Word :=
  { word with span := move.span word.span }

def Clause.relocate (move : Relocation) (clause : Clause) : Clause :=
  { clause with
    toExtent := move.extent clause.toExtent
    operands := clause.operands.map (Expr.relocate move) }

def SortKey.relocate (move : Relocation) (key : SortKey) : SortKey :=
  { key with
    toExtent := move.extent key.toExtent
    expr := key.expr.relocate move }

mutual

def Argument.relocate (move : Relocation) : Argument → Argument
  | .expr e => .expr (e.relocate move)
  | .word w => .word (w.relocate move)
  | .source s => .source (s.relocate move)
  | .clause c => .clause (c.relocate move)
  | .sortKey k => .sortKey (k.relocate move)
  | .branch b => .branch (Pipeline.relocate move b)

def Argument.relocateAll (move : Relocation) : List Argument → List Argument
  | [] => []
  | argument :: rest => Argument.relocate move argument :: Argument.relocateAll move rest

def Pipeline.relocate (move : Relocation) : Pipeline → Pipeline
  | ⟨commands, span, incomplete⟩ =>
      ⟨Command.relocateAll move commands, move.span span, incomplete⟩

def Command.relocate (move : Relocation) : Command → Command
  | ⟨name, qualifier?, text, span, nameSpan, args, incomplete⟩ =>
      ⟨name, qualifier?, move.text span text, move.span span, move.span nameSpan,
        Argument.relocateAll move args, incomplete⟩

def Command.relocateAll (move : Relocation) : List Command → List Command
  | [] => []
  | command :: rest => Command.relocate move command :: Command.relocateAll move rest

end

section

variable (move : Relocation)

theorem Expr.relocateAll_eq_map (exprs : List Expr) :
    Expr.relocateAll move exprs = exprs.map (Expr.relocate move) := by
  induction exprs with
  | nil => rfl
  | cons expr rest ih => rw [relocateAll, ih, List.map_cons]

theorem Argument.relocateAll_eq_map (arguments : List Argument) :
    Argument.relocateAll move arguments = arguments.map (Argument.relocate move) := by
  induction arguments with
  | nil => rfl
  | cons argument rest ih => rw [relocateAll, ih, List.map_cons]

theorem Command.relocateAll_eq_map (commands : List Command) :
    Command.relocateAll move commands = commands.map (Command.relocate move) := by
  induction commands with
  | nil => rfl
  | cons command rest ih => rw [relocateAll, ih, List.map_cons]

theorem Expr.relocate_extent (expr : Expr) :
    (expr.relocate move).extent = move.extent expr.extent := by
  cases expr <;> rw [relocate] <;> rfl

@[simp]
theorem Expr.relocate_span (expr : Expr) : (expr.relocate move).span = move.span expr.span := by
  rw [span, relocate_extent]
  rfl

@[simp]
theorem Expr.relocate_incomplete (expr : Expr) :
    (expr.relocate move).incomplete = expr.incomplete := by
  rw [incomplete, relocate_extent]
  rfl

theorem Expr.relocate_markIncomplete (expr : Expr) :
    (expr.relocate move).markIncomplete = expr.markIncomplete.relocate move := by
  cases expr <;> simp only [relocate, markIncomplete] <;> rfl

@[simp]
theorem Command.relocate_span (command : Command) :
    (command.relocate move).span = move.span command.span := by
  cases command
  rfl

@[simp]
theorem Command.relocate_incomplete (command : Command) :
    (command.relocate move).incomplete = command.incomplete := by
  cases command
  rfl

@[simp]
theorem Command.relocate_name (command : Command) :
    (command.relocate move).name = command.name := by
  cases command
  rfl

theorem Command.relocate_args (command : Command) :
    (command.relocate move).args = command.args.map (Argument.relocate move) := by
  cases command
  exact Argument.relocateAll_eq_map move _

theorem Command.relocate_sources (command : Command) :
    (command.relocate move).sources = command.sources.map (Source.relocate move) := by
  rw [sources, sources, relocate_args, List.filterMap_map, List.map_filterMap]
  congr 1
  funext argument
  cases argument <;> rfl

theorem Command.relocate_exprs (command : Command) :
    (command.relocate move).exprs = command.exprs.map (Expr.relocate move) := by
  rw [exprs, exprs, relocate_args, List.filterMap_map, List.map_filterMap]
  congr 1
  funext argument
  cases argument <;> rfl

theorem Command.relocate_columns (command : Command) :
    (command.relocate move).columns = command.columns.map (Column.relocate move) := by
  rw [columns, columns, relocate_exprs, List.filterMap_map, List.map_filterMap]
  congr 1
  funext expr
  cases expr <;> rfl

end

section

variable {source : String} {move other : Relocation}

/-- Moves that agree on the text of a well-nested tree move the tree alike. -/
theorem Expr.Nested.relocate_congr {expr : Expr} (nested : expr.Nested source)
    (agree : move.Agree source other) : expr.relocate move = expr.relocate other := by
  induction nested with
  | @intro expr fits text row parts ih =>
      have same := agree.extent fits text
      cases expr with
      | apply name form args extent =>
          have moved : args.map (relocate move) = args.map (relocate other) :=
            List.map_congr_left ih
          rw [relocate, relocate, relocateAll_eq_map, relocateAll_eq_map, moved]
          exact congrArg _ same
      | column c => exact congrArg (fun extent => Expr.column { c with toExtent := extent }) same
      | literal l => exact congrArg (fun extent => Expr.literal { l with toExtent := extent }) same
      | list items extent =>
          have moved : items.map (relocate move) = items.map (relocate other) :=
            List.map_congr_left ih
          rw [relocate, relocate, relocateAll_eq_map, relocateAll_eq_map, moved]
          exact congrArg _ same
      | interval i =>
          exact congrArg (fun extent : Extent =>
            Expr.interval { i with span := extent.span, text := extent.text }) same
      | cast value target extent =>
          rw [relocate, relocate, ih value (List.mem_singleton.mpr rfl)]
          exact congrArg _ same

theorem Expr.map_relocate_congr (agree : move.Agree source other) {start stop : Nat}
    {exprs : List Expr} (placed : Placed Expr.span (Expr.Nested source) start exprs stop) :
    exprs.map (Expr.relocate move) = exprs.map (Expr.relocate other) :=
  List.map_congr_left fun expr member => (placed.sound expr member).relocate_congr agree

mutual

theorem Argument.relocate_congr (agree : move.Agree source other) (argument : Argument)
    (nested : argument.Nested source) : argument.relocate move = argument.relocate other := by
  cases argument with
  | expr e =>
      cases nested with
      | expr nested => rw [Argument.relocate, Argument.relocate, nested.relocate_congr agree]
      | plain noTree => cases noTree.1
  | branch b =>
      cases nested with
      | plain noTree => cases noTree.2
      | branch nested =>
          rw [Argument.relocate, Argument.relocate, Pipeline.relocate_congr agree b nested]
  | word w =>
      rw [Argument.relocate, Argument.relocate, Word.relocate, Word.relocate, agree.span]
  | source s =>
      cases nested with
      | plain noTree fits text operands =>
          have same := agree.extent (e := s.toExtent) fits text
          rw [Argument.relocate, Argument.relocate, Source.relocate, Source.relocate, same]
  | clause c =>
      cases nested with
      | plain noTree fits text operands =>
          have same := agree.extent (e := c.toExtent) fits text
          have parts := Expr.map_relocate_congr agree operands
          rw [Argument.relocate, Argument.relocate, Clause.relocate, Clause.relocate, same]
          exact congrArg (fun operands => Argument.clause { c with
            toExtent := other.extent c.toExtent, operands := operands }) parts
  | sortKey k =>
      cases nested with
      | plain noTree fits text operands =>
          have same := agree.extent (e := k.toExtent) fits text
          have part := (operands.sound k.expr (List.mem_singleton.mpr rfl)).relocate_congr agree
          rw [Argument.relocate, Argument.relocate, SortKey.relocate, SortKey.relocate, same, part]

theorem Argument.relocateAll_congr (agree : move.Agree source other) (arguments : List Argument)
    (nested : ∀ argument ∈ arguments, argument.Nested source) :
    Argument.relocateAll move arguments = Argument.relocateAll other arguments := by
  cases arguments with
  | nil => rfl
  | cons argument rest =>
      have first := Argument.relocate_congr agree argument (nested _ List.mem_cons_self)
      have others := Argument.relocateAll_congr agree rest fun argument member =>
        nested argument (List.mem_cons_of_mem _ member)
      rw [Argument.relocateAll, Argument.relocateAll, first, others]

theorem Pipeline.relocate_congr (agree : move.Agree source other) (pipeline : Pipeline)
    (nested : pipeline.Nested source) : pipeline.relocate move = pipeline.relocate other := by
  cases pipeline with
  | mk commands span incomplete =>
      obtain ⟨fits, row, inside⟩ := nested
      rw [Pipeline.relocate, Pipeline.relocate, agree.span,
        Command.relocateAll_congr agree commands inside]

theorem Command.relocate_congr (agree : move.Agree source other) (command : Command)
    (nested : command.Nested source) : command.relocate move = command.relocate other := by
  cases command with
  | mk name qualifier? text span nameSpan args incomplete =>
      obtain ⟨fits, same, row, inside⟩ := nested
      have text_eq := agree.text span fits
      rw [← same] at text_eq
      rw [Command.relocate, Command.relocate, agree.span, text_eq,
        Argument.relocateAll_congr agree args inside]

theorem Command.relocateAll_congr (agree : move.Agree source other) (commands : List Command)
    (nested : ∀ command ∈ commands, command.Nested source) :
    Command.relocateAll move commands = Command.relocateAll other commands := by
  cases commands with
  | nil => rfl
  | cons command rest =>
      have first := Command.relocate_congr agree command (nested _ List.mem_cons_self)
      have others := Command.relocateAll_congr agree rest fun command member =>
        nested command (List.mem_cons_of_mem _ member)
      rw [Command.relocateAll, Command.relocateAll, first, others]

end

end

mutual

theorem Expr.relocate_none (expr : Expr) : expr.relocate .none = expr := by
  cases expr with
  | apply name form args extent =>
      rw [Expr.relocate, Expr.relocateAll_none args]
      rfl
  | column c => rfl
  | literal l => rfl
  | list items extent =>
      rw [Expr.relocate, Expr.relocateAll_none items]
      rfl
  | interval i => rfl
  | cast value target extent =>
      rw [Expr.relocate, Expr.relocate_none value]
      rfl

theorem Expr.relocateAll_none (exprs : List Expr) : Expr.relocateAll .none exprs = exprs := by
  cases exprs with
  | nil => rfl
  | cons expr rest =>
      rw [Expr.relocateAll, Expr.relocate_none expr, Expr.relocateAll_none rest]

end

theorem Expr.map_relocate_none (exprs : List Expr) : exprs.map (Expr.relocate .none) = exprs := by
  rw [← Expr.relocateAll_eq_map, Expr.relocateAll_none]

mutual

theorem Argument.relocate_none (argument : Argument) : argument.relocate .none = argument := by
  cases argument with
  | expr e => rw [Argument.relocate, e.relocate_none]
  | word w => rfl
  | source s => rfl
  | clause c =>
      rw [Argument.relocate, Clause.relocate, Expr.map_relocate_none]
      rfl
  | sortKey k =>
      rw [Argument.relocate, SortKey.relocate, Expr.relocate_none]
      rfl
  | branch b => rw [Argument.relocate, Pipeline.relocate_none b]

theorem Argument.relocateAll_none (arguments : List Argument) :
    Argument.relocateAll .none arguments = arguments := by
  cases arguments with
  | nil => rfl
  | cons argument rest =>
      rw [Argument.relocateAll, Argument.relocate_none argument, Argument.relocateAll_none rest]

theorem Pipeline.relocate_none (pipeline : Pipeline) : pipeline.relocate .none = pipeline := by
  cases pipeline with
  | mk commands span incomplete =>
      rw [Pipeline.relocate, Command.relocateAll_none commands]
      rfl

theorem Command.relocate_none (command : Command) : command.relocate .none = command := by
  cases command with
  | mk name qualifier? text span nameSpan args incomplete =>
      rw [Command.relocate, Argument.relocateAll_none args]
      rfl

theorem Command.relocateAll_none (commands : List Command) :
    Command.relocateAll .none commands = commands := by
  cases commands with
  | nil => rfl
  | cons command rest =>
      rw [Command.relocateAll, Command.relocate_none command, Command.relocateAll_none rest]

end

/-- A tree that is moved into a longer text with the same beginning is the same tree. -/
theorem Command.Nested.relocate_eq {source longer : String} {after : List Char} {command : Command}
    (nested : command.Nested source) (same : longer.toList = source.toList ++ after) :
    command.relocate (.into longer 0) = command := by
  have agree : Relocation.Agree source (.into longer (Text.width [])) (.shift (Text.width [])) :=
    Relocation.agree_into (by rw [same, List.nil_append])
  have moved := command.relocate_congr agree nested
  rw [Text.width_nil, Relocation.shift_zero, command.relocate_none] at moved
  exact moved

end Esql
