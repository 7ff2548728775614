import Esql.Text.Basic

/-!
# Reserved words

The closed set of words that are never plain names. They are matched without regard to the case
of ASCII letters; their canonical spelling is in upper case.
-/

namespace Esql

inductive Keyword where
  | and
  | or
  | not
  | in
  | is
  | null
  | like
  | rlike
  | true
  | false
  | by
  | as
  | on
  | with
  | where
  | metadata
  | asc
  | desc
  | nulls
deriving Repr, BEq, DecidableEq, ReflBEq, LawfulBEq

namespace Keyword

def all : List Keyword :=
  [.and, .or, .not, .in, .is, .null, .like, .rlike, .true, .false, .by, .as, .on, .with, .where,
   .metadata, .asc, .desc, .nulls]

/-- The spelling in upper case, as completion inserts it. -/
def spelling : Keyword → String
  | .and => "AND"
  | .or => "OR"
  | .not => "NOT"
  | .in => "IN"
  | .is => "IS"
  | .null => "NULL"
  | .like => "LIKE"
  | .rlike => "RLIKE"
  | .true => "TRUE"
  | .false => "FALSE"
  | .by => "BY"
  | .as => "AS"
  | .on => "ON"
  | .with => "WITH"
  | .where => "WHERE"
  | .metadata => "METADATA"
  | .asc => "ASC"
  | .desc => "DESC"
  | .nulls => "NULLS"

/-- The reserved word with this lower-case spelling. -/
def ofLower? : String → Option Keyword
  | "and" => some .and
  | "or" => some .or
  | "not" => some .not
  | "in" => some .in
  | "is" => some .is
  | "null" => some .null
  | "like" => some .like
  | "rlike" => some .rlike
  | "true" => some .true
  | "false" => some .false
  | "by" => some .by
  | "as" => some .as
  | "on" => some .on
  | "with" => some .with
  | "where" => some .where
  | "metadata" => some .metadata
  | "asc" => some .asc
  | "desc" => some .desc
  | "nulls" => some .nulls
  | _ => none

/-- The reserved word with this spelling in any case. -/
def ofWord? (word : String) : Option Keyword := ofLower? (Text.lower word)

/-- Words that can follow a complete expression inside a command. -/
def clauseBoundaries : List Keyword := [.by, .as, .on, .with, .where, .metadata]

def isClauseBoundary (keyword : Keyword) : Bool := clauseBoundaries.contains keyword

theorem ofWord?_spelling (keyword : Keyword) : ofWord? keyword.spelling = some keyword := by
  cases keyword <;> decide

end Keyword

end Esql
