import Esql.Proofs.Syntax.Relocate
import Esql.Proofs.Text.Bare
import Esql.Token.Scan

/-!
# Terms

A term is an expression without places: the tree that can be written, with leaves that are spelled
as the language reads them. A term is written with each operand of an operator in parentheses of
its own. The writing may leave some blanks inside all brackets; without any, it is tight.
-/

namespace Esql

/-- A text that is one token of a kind if it stands alone. -/
structure Spelling (kind : TokenKind) where
  first : Char
  others : List Char
  alone : Lexeme.read false first others = .token kind others.length

namespace Spelling

variable {kind : TokenKind}

def chars (spelling : Spelling kind) : List Char := spelling.first :: spelling.others

def text (spelling : Spelling kind) : String := String.ofList spelling.chars

end Spelling

/-- A word that is not reserved, as the name of a function or of a type. -/
structure BareWord where
  first : Char
  others : List Char
  starts : Text.startsName first = true
  continues : others.all Text.continuesName = true
  plain : Keyword.ofWord? (String.ofList (first :: others)) = none

namespace BareWord

def chars (word : BareWord) : List Char := word.first :: word.others

def name (word : BareWord) : String := String.ofList word.chars

end BareWord

/-- The name of a column that is written without quotes, and whose stretches between points are
read one by one. -/
structure BareColumn where
  name : String
  bare : Text.Quoted.needsQuotes name = false
  read : (Text.pieces '.' name.toList).all Text.Quoted.isReadable = true

namespace BareColumn

def chars (column : BareColumn) : List Char := column.name.toList

def parts (column : BareColumn) : List String :=
  (Text.pieces '.' column.name.toList).map String.ofList

theorem join_parts (column : BareColumn) : Text.join "." column.parts = column.name := by
  rw [parts, Text.join_dotted, Text.dotted_pieces, String.ofList_toList]

/-- No part is empty. -/
theorem nonempty_of_mem_parts (column : BareColumn) : ∀ part ∈ column.parts, part ≠ "" := by
  intro part member empty
  obtain ⟨segment, found, rfl⟩ := List.mem_map.mp member
  refine (Text.Quoted.plain_of_not_needsQuotes column.bare segment found).nonempty ?_
  rw [← String.toList_ofList (l := segment), empty]
  rfl

end BareColumn

/-- A value that is written as such. -/
inductive Leaf where
  | integer (digits : Spelling .integer)
  | decimal (digits : Spelling .decimal)
  | param (name : String) (mark : Spelling (.param name))
  | string (value : String)
  | boolean (value : Bool)
  | null

namespace Leaf

/-- The characters of a string, with a backslash before each quote and each backslash. -/
def escape : List Char → List Char
  | [] => []
  | c :: cs => if c == '\x22' || c == '\\' then '\\' :: c :: escape cs else c :: escape cs

def chars : Leaf → List Char
  | .integer digits => digits.chars
  | .decimal digits => digits.chars
  | .param _ mark => mark.chars
  | .string value => '\x22' :: (escape value.toList ++ ['\x22'])
  | .boolean true => "true".toList
  | .boolean false => "false".toList
  | .null => "null".toList

/-- The kind of the token that is written. -/
def tokenKind : Leaf → TokenKind
  | .integer _ => .integer
  | .decimal _ => .decimal
  | .param name _ => .param name
  | .string value => .string value true
  | .boolean true => .keyword .true
  | .boolean false => .keyword .false
  | .null => .keyword .null

def kind : Leaf → LiteralKind
  | .integer _ => .integer
  | .decimal _ => .decimal
  | .param .. => .param
  | .string _ => .string
  | .boolean _ => .boolean
  | .null => .null

def value : Leaf → String
  | .integer digits => digits.text
  | .decimal digits => digits.text
  | .param name _ => name
  | .string value => value
  | .boolean true => "true"
  | .boolean false => "false"
  | .null => "null"

end Leaf

/-- An operator between two operands. -/
inductive Connective where
  | or
  | and
  | equal
  | notEqual
  | less
  | lessEqual
  | greater
  | greaterEqual
  | matching
  | plus
  | minus
  | times
  | divided
  | modulo
  | like
  | rlike
  | notLike
  | notRlike
deriving Repr, DecidableEq

/-- The name of an operator, which is also how it is written. -/
def Connective.name : Connective → String
  | .or => "or"
  | .and => "and"
  | .equal => "=="
  | .notEqual => "!="
  | .less => "<"
  | .lessEqual => "<="
  | .greater => ">"
  | .greaterEqual => ">="
  | .matching => ":"
  | .plus => "+"
  | .minus => "-"
  | .times => "*"
  | .divided => "/"
  | .modulo => "%"
  | .like => "like"
  | .rlike => "rlike"
  | .notLike => "not like"
  | .notRlike => "not rlike"

/-- An operator before its only operand. -/
inductive Sign where
  | minus
  | not
deriving Repr, DecidableEq

namespace Sign

def name : Sign → String
  | .minus => "-"
  | .not => "not"

def chars : Sign → List Char
  | .minus => ['-']
  | .not => "not ".toList

end Sign

inductive Term where
  | column (name : BareColumn)
  | literal (leaf : Leaf)
  | list (items : List Term)
  | call (name : BareWord) (args : List Term)
  | binary (connective : Connective) (left right : Term)
  | unary (sign : Sign) (operand : Term)
  | nullTest (negated : Bool) (operand : Term)
  | member (negated : Bool) (operand : Term) (items : List Term)
  | cast (operand : Term) (target : BareWord)

/-- How a test for null is written. -/
def Term.nullTestName (negated : Bool) : String := if negated then "is not null" else "is null"

/-- How a membership test is written. -/
def Term.memberName (negated : Bool) : String := if negated then "not in" else "in"

/-- The place of what stands nowhere and is complete. -/
def Extent.nowhere : Extent := ⟨⟨0, 0⟩, "", false⟩

/-- All places are forgotten, and the texts under them. -/
def Relocation.nowhere : Relocation := ⟨fun _ => ⟨0, 0⟩, fun _ _ => ""⟩

namespace Term

mutual

/-- The tree of a term, which stands nowhere and is complete. -/
def expr : Term → Expr
  | .column name => .column ⟨.nowhere, name.name, name.parts, false⟩
  | .literal leaf => .literal ⟨.nowhere, leaf.kind, leaf.value⟩
  | .list items => .list (exprs items) .nowhere
  | .call name args => .apply (Text.lower name.name) .call (exprs args) .nowhere
  | .binary connective left right =>
      .apply connective.name .binary [expr left, expr right] .nowhere
  | .unary sign operand => .apply sign.name .unary [expr operand] .nowhere
  | .nullTest negated operand =>
      .apply (nullTestName negated) .trailing [expr operand] .nowhere
  | .member negated operand items =>
      .apply (memberName negated) .binary [expr operand, .list (exprs items) .nowhere] .nowhere
  | .cast operand target => .cast (expr operand) (Text.lower target.name) .nowhere

def exprs : List Term → List Expr
  | [] => []
  | term :: rest => expr term :: exprs rest

end

theorem expr_complete (term : Term) : term.expr.incomplete = false := by
  cases term <;> rfl

/-- An expression of the shape of a term is complete. -/
theorem complete_of_relocate {term : Term} {expr : Expr} {move : Relocation}
    (same : expr.relocate move = term.expr) : expr.incomplete = false := by
  rw [← expr.relocate_incomplete move, same, term.expr_complete]

/-- A text in brackets, with some blanks inside them. -/
def enclosed (opening closing : Char) (pad body : List Char) : List Char :=
  opening :: (pad ++ (body ++ (pad ++ [closing])))

mutual

/-- A term as it is written, with each operand of an operator in its own parentheses. -/
def chars (pad : List Char) : Term → List Char
  | .column name => name.chars
  | .literal leaf => leaf.chars
  | .list items => enclosed '[' ']' pad (listed pad items)
  | .call name args => name.chars ++ enclosed '(' ')' pad (listed pad args)
  | .binary connective left right =>
      enclosed '(' ')' pad (chars pad left) ++
        (' ' :: (connective.name.toList ++ ' ' :: enclosed '(' ')' pad (chars pad right)))
  | .unary sign operand => sign.chars ++ enclosed '(' ')' pad (chars pad operand)
  | .nullTest negated operand =>
      enclosed '(' ')' pad (chars pad operand) ++
        ' ' :: (nullTestName negated).toList
  | .member negated operand items =>
      enclosed '(' ')' pad (chars pad operand) ++
        ' ' :: ((memberName negated).toList ++ ' ' :: enclosed '(' ')' pad (listed pad items))
  | .cast operand target =>
      enclosed '(' ')' pad (chars pad operand) ++ ':' :: ':' :: target.chars

/-- Terms as they are written in a list, with a comma and a blank between each two. -/
def listed (pad : List Char) : List Term → List Char
  | [] => []
  | [only] => chars pad only
  | first :: second :: rest => chars pad first ++ ',' :: ' ' :: listed pad (second :: rest)

end

/-- A number that starts with its decimal point. -/
def startsWithPoint : Term → Bool
  | .literal leaf => leaf.chars.head? == some '.'
  | _ => false

mutual

/-- No number that starts with its decimal point is an operand or the first item in brackets. -/
def isFreeOfPoints : Term → Bool
  | .column _ | .literal _ => true
  | .list items | .call _ items => areFreeOfPoints items && !items.head?.any startsWithPoint
  | .binary _ left right =>
      isFreeOfPoints left && !startsWithPoint left && isFreeOfPoints right &&
        !startsWithPoint right
  | .unary _ operand | .nullTest _ operand | .cast operand _ =>
      isFreeOfPoints operand && !startsWithPoint operand
  | .member _ operand items =>
      isFreeOfPoints operand && !startsWithPoint operand && areFreeOfPoints items &&
        !items.head?.any startsWithPoint

def areFreeOfPoints : List Term → Bool
  | [] => true
  | term :: rest => isFreeOfPoints term && areFreeOfPoints rest

end

end Term

end Esql
