import Esql.Proofs.Span.Row
import Esql.Syntax.Walk

/-!
# Well-nested trees

A tree is well nested in a text if the span of each node fits the text, the text kept with a node
is the text under its span, and the parts of a node stand side by side within it. Commands of one
pipeline are further apart: a pipe lies between any two.
-/

namespace Esql

/-- An expression whose spans are nested as its parts are. -/
inductive Expr.Nested (source : String) : Expr → Prop where
  | intro {expr : Expr} (fits : expr.span.Fits source) (text : expr.text = expr.span.slice source)
      (row : Span.Row 0 expr.span.start (expr.children.map Expr.span) expr.span.stop)
      (parts : ∀ part ∈ expr.children, Expr.Nested source part) : Expr.Nested source expr

namespace Expr.Nested

variable {source : String} {expr : Expr}

theorem fits (nested : expr.Nested source) : expr.span.Fits source := by
  cases nested with
  | intro fits text row parts => exact fits

theorem text_eq (nested : expr.Nested source) : expr.text = expr.span.slice source := by
  cases nested with
  | intro fits text row parts => exact text

theorem children (nested : expr.Nested source) :
    Placed Expr.span (Expr.Nested source) expr.span.start expr.children expr.span.stop := by
  cases nested with
  | intro fits text row parts => exact ⟨row, parts⟩

/-- Whatever lies in an expression is nested, and its span is covered by that of the expression. -/
theorem of_mem_walk (nested : expr.Nested source) :
    ∀ part ∈ expr.walk, part.Nested source ∧ expr.span.covers part.span = true := by
  induction nested with
  | @intro expr fits text row parts ih =>
      rw [walk_eq, walkAll_eq_flatMap, List.forall_mem_cons]
      refine ⟨⟨.intro fits text row parts, ?_⟩, ?_⟩
      · exact (Span.covers_iff _ _).mpr ⟨Nat.le_refl _, Nat.le_refl _⟩
      · intro part member
        obtain ⟨child, inside, deeper⟩ := List.mem_flatMap.mp member
        obtain ⟨nested, covered⟩ := ih child inside part deeper
        obtain ⟨starts, _, stops⟩ := row.bounds (List.mem_map_of_mem inside)
        obtain ⟨behind, before⟩ := (Span.covers_iff _ _).mp covered
        exact ⟨nested, (Span.covers_iff _ _).mpr
          ⟨Nat.le_trans starts behind, Nat.le_trans before stops⟩⟩

theorem markIncomplete (nested : expr.Nested source) : expr.markIncomplete.Nested source := by
  obtain ⟨fits, text, row, parts⟩ := nested
  cases expr <;> exact ⟨fits, text, row, parts⟩

end Expr.Nested

mutual

/-- An argument whose spans are nested; a branch keeps no text of its own. -/
inductive Argument.Nested (source : String) : Argument → Prop where
  | expr {expr : Expr} (nested : expr.Nested source) : Argument.Nested source (.expr expr)
  | plain {argument : Argument} (noTree : argument.expr? = none ∧ argument.branch? = none)
      (fits : argument.span.Fits source) (text : argument.text = argument.span.slice source)
      (operands : Placed Expr.span (Expr.Nested source) argument.span.start argument.operands
        argument.span.stop) : Argument.Nested source argument
  | branch {branch : Pipeline} (nested : Pipeline.Nested source branch) :
      Argument.Nested source (.branch branch)

/-- A pipeline whose commands stand in it, with room for a pipe between any two. -/
inductive Pipeline.Nested (source : String) : Pipeline → Prop where
  | intro {pipeline : Pipeline} (fits : pipeline.span.Fits source)
      (row : Span.Row 1 pipeline.span.start (pipeline.commands.map Command.span)
        (pipeline.span.stop + 1))
      (commands : ∀ command ∈ pipeline.commands, Command.Nested source command) :
      Pipeline.Nested source pipeline

/-- A command whose arguments stand in it. -/
inductive Command.Nested (source : String) : Command → Prop where
  | intro {command : Command} (fits : command.span.Fits source)
      (text : command.text = command.span.slice source)
      (row : Span.Row 0 command.span.start (command.args.map Argument.span) command.span.stop)
      (args : ∀ argument ∈ command.args, Argument.Nested source argument) :
      Command.Nested source command

end

/-- A command that starts with its name, with its arguments behind the name. -/
structure Command.Named (source : String) (command : Command) : Prop where
  fits : command.nameSpan.Fits source
  starts : command.nameSpan.start = command.span.start
  nonempty : command.nameSpan.start < command.nameSpan.stop
  row : Span.Row 0 command.nameSpan.stop (command.args.map Argument.span) command.span.stop

theorem Command.Nested.fits {source : String} {command : Command}
    (nested : command.Nested source) : command.span.Fits source := by
  cases nested with
  | intro fits text row args => exact fits

theorem Pipeline.Nested.fits {source : String} {pipeline : Pipeline}
    (nested : pipeline.Nested source) : pipeline.span.Fits source := by
  cases nested with
  | intro fits row commands => exact fits

theorem Pipeline.Nested.command {source : String} {pipeline : Pipeline}
    (nested : pipeline.Nested source) {command : Command} (member : command ∈ pipeline.commands) :
    command.Nested source := by
  cases nested with
  | intro fits row commands => exact commands command member

theorem Argument.Nested.fits {source : String} {argument : Argument}
    (nested : argument.Nested source) : argument.span.Fits source := by
  cases nested with
  | expr nested => exact nested.fits
  | plain noTree fits text operands => exact fits
  | branch nested => exact nested.fits

end Esql
