/-!
# Places

A place is a context in which an expression is written. Functions are defined for the places in
which they may be used, and diagnostics name the place in which one is refused.
-/

namespace Esql

inductive Place where
  | eval
  | where
  | row
  | sort
  | stats
  | statsBy
  | statsWhere
  | enrich
  | enrichWith
  | rename
  | join
  | dissect
  | grok
deriving Repr, BEq, DecidableEq, ReflBEq, LawfulBEq

namespace Place

def all : List Place :=
  [.eval, .where, .row, .sort, .stats, .statsBy, .statsWhere, .enrich, .enrichWith, .rename,
   .join, .dissect, .grok]

/-- The written name: a command, and in some places a clause of it. -/
def name : Place → String
  | .eval => "EVAL"
  | .where => "WHERE"
  | .row => "ROW"
  | .sort => "SORT"
  | .stats => "STATS"
  | .statsBy => "STATS BY"
  | .statsWhere => "STATS WHERE"
  | .enrich => "ENRICH"
  | .enrichWith => "ENRICH WITH"
  | .rename => "RENAME"
  | .join => "JOIN"
  | .dissect => "DISSECT"
  | .grok => "GROK"

/-- Places in which scalar functions and operators may be used. -/
def expressions : List Place := [.eval, .where, .row, .sort, .stats, .statsBy, .statsWhere]

def ofName? (written : String) : Option Place := all.find? fun place => place.name == written

end Place

end Esql
