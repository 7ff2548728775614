import Esql.Keyword

/-!
# Tokens

A token is a kind, the text it was read from, and the span of that text in the query. Kinds that
stand for a value (names, strings, parameters) carry the value without its quotes.
-/

namespace Esql

inductive TokenKind where
  /-- A name written without quotes. -/
  | word (name : String)
  /-- A name in backticks; doubled backticks stand for one. -/
  | quoted (name : String) (terminated : Bool)
  /-- A reserved word. -/
  | keyword (reserved : Keyword)
  | integer
  | decimal
  /-- A string in double or triple quotes, with its value. -/
  | string (value : String) (terminated : Bool)
  /-- A query parameter, with the text after the question mark. -/
  | param (name : String)
  | pipe
  | comma
  | dot
  | openParen
  | closeParen
  | openBracket
  | closeBracket
  | assign
  | equal
  | notEqual
  | less
  | lessEqual
  | greater
  | greaterEqual
  | plus
  | minus
  | star
  | slash
  | percent
  | colon
  | doubleColon
  /-- Any other character, kept so that index expressions may hold it. -/
  | other (char : Char)
deriving Repr, BEq, DecidableEq, ReflBEq, LawfulBEq

namespace TokenKind

/-- The reserved word of a keyword token. -/
def keyword? : TokenKind → Option Keyword
  | .keyword reserved => some reserved
  | _ => none

/-- The name of a token that is one, quoted or not. -/
def name? : TokenKind → Option String
  | .word name => some name
  | .quoted name _ => some name
  | _ => none

def isName (kind : TokenKind) : Bool := kind.name?.isSome

def isWord : TokenKind → Bool
  | .word _ => true
  | _ => false

def isComparison : TokenKind → Bool
  | .equal | .notEqual | .less | .lessEqual | .greater | .greaterEqual => true
  | _ => false

def isArithmetic : TokenKind → Bool
  | .plus | .minus | .star | .slash | .percent => true
  | _ => false

/-- The symbol under which the operator of a token is defined as a function. -/
def operator? : TokenKind → Option String
  | .equal => some "=="
  | .notEqual => some "!="
  | .less => some "<"
  | .lessEqual => some "<="
  | .greater => some ">"
  | .greaterEqual => some ">="
  | .plus => some "+"
  | .minus => some "-"
  | .star => some "*"
  | .slash => some "/"
  | .percent => some "%"
  | .colon => some ":"
  | _ => none

end TokenKind

structure Token where
  kind : TokenKind
  text : String
  span : Span
deriving Repr, BEq, DecidableEq

namespace Token

def isKeyword (token : Token) (keyword : Keyword) : Bool := token.kind == .keyword keyword

/-- The text of the token in lower case. -/
def lower (token : Token) : String := Text.lower token.text

/-- A bare word, reserved or not, with this spelling in any case. -/
def isWord (token : Token) (word : String) : Bool :=
  (token.kind.isWord || token.kind.keyword?.isSome) && Text.sameWord token.text word

/-- Nothing separates the token from the one that follows it. -/
def adjoins (token next : Token) : Bool := token.span.stop == next.span.start

/-- The token ends at the offset, so that it may still be being typed. -/
def endsAt (token : Token) (offset : Nat) : Bool := token.span.stop == offset

end Token

end Esql
