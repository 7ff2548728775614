import Esql.Callable.Catalog
import Esql.Grammar.Names

/-!
# Cues

What the tokens before the cursor tell about what may follow: whether an operand has just ended,
which clause the cursor is in, which call is still open. Tokens are looked at without the tree,
since the end of an unfinished query has none.
-/

namespace Esql.Completion

/-- The token ends an operand, so that an operator or a separator may follow. -/
def endsOperand (token : Token) : Bool :=
  match token.kind with
  | .word _ | .quoted .. | .integer | .decimal | .param _ | .closeParen | .closeBracket => true
  | .string _ terminated => terminated
  | .keyword reserved => [Keyword.true, .false, .null].contains reserved
  | _ => false

/-- The tokens at the end that are of a kind and stand close together, and those before them. -/
def splitRun (member : TokenKind → Bool) (tokens : List Token) : List Token × List Token :=
  tokens.foldr step ([], [])
where
  step (token : Token) : List Token × List Token → List Token × List Token
    | ([], run) =>
        if member token.kind && run.head?.all token.adjoins then ([], token :: run)
        else ([token], run)
    | (before, run) => (token :: before, run)

/-- The dotted name at the end, and the tokens before it. -/
def splitPath (tokens : List Token) : List Token × List Token :=
  splitRun Grammar.isPathPart tokens

/-- How a token changes the number of open parentheses. -/
def depthChange (token : Token) : Int :=
  match token.kind with
  | .openParen => 1
  | .closeParen => -1
  | _ => 0

/-- More parentheses were opened than closed. -/
def isNested (tokens : List Token) : Bool :=
  0 < tokens.foldl (fun depth token => depth + depthChange token) 0

/-- The tokens behind the last of some keywords outside parentheses, with that keyword and its
position. `depth` counts the parentheses opened before, `position` the tokens. -/
def lastClauseFrom (keywords : List Keyword) (depth : Int) (position : Nat) :
    List Token → Option (Keyword × Nat × List Token)
  | [] => none
  | token :: rest =>
      match lastClauseFrom keywords (depth + depthChange token) (position + 1) rest with
      | some found => some found
      | none =>
          (token.kind.keyword?.filter fun keyword => depth ≤ 0 && keywords.contains keyword).map
            fun keyword => (keyword, position, rest)

/-- The last of some keywords outside parentheses, its position, and the tokens behind it. -/
def lastClause? (keywords : List Keyword) (tokens : List Token) :
    Option (Keyword × Nat × List Token) :=
  lastClauseFrom keywords 0 0 tokens

/-- Some comma outside parentheses is among the tokens. -/
def hasComma (depth : Int) : List Token → Bool
  | [] => false
  | token :: rest =>
      (token.kind == .comma && depth ≤ 0) || hasComma (depth + depthChange token) rest

/-- A call whose parenthesis is not closed yet. -/
structure OpenCall where
  /-- The name as it is written. -/
  name : String
  /-- The position of the argument being written. -/
  argument : Nat
deriving Repr, BEq, DecidableEq

namespace OpenCall

def callable? (call : OpenCall) : Option Callable := Callable.named? (Text.lower call.name)

/-- The innermost open parenthesis is one argument further. -/
def advance : List (Option OpenCall) → List (Option OpenCall)
  | some call :: rest => some { call with argument := call.argument + 1 } :: rest
  | opened => opened

/-- The open parentheses after one more token, the innermost first, each with its call if a name
stands before it. -/
def step (opened : List (Option OpenCall)) (previous? : Option Token) (token : Token) :
    List (Option OpenCall) :=
  match token.kind with
  | .openParen =>
      let call? := match previous?.map (·.kind) with
        | some (.word name) => some ⟨name, 0⟩
        | _ => none
      call? :: opened
  | .closeParen => opened.tail
  | .comma => advance opened
  | _ => opened

def openedFrom (opened : List (Option OpenCall)) (previous? : Option Token) :
    List Token → List (Option OpenCall)
  | [] => opened
  | token :: rest => openedFrom (step opened previous? token) (some token) rest

/-- The call of the innermost open parenthesis, if a name stands before it. -/
def find? (tokens : List Token) : Option OpenCall := (openedFrom [] none tokens).head?.join

end OpenCall

/-- The tokens end with a lone name at the start of a field, which may become its name. -/
def startsNamed (tokens : List Token) : Bool :=
  match tokens.reverse with
  | [name] => name.kind.isName
  | name :: separator :: _ =>
      (separator.kind == .comma || separator.isKeyword .by) && name.kind.isName
  | [] => false

end Esql.Completion
