import Esql.License
import Esql.Place

/-!
# Verbs

The closed set of things that a command can do, with what the language reference says of each. A
source verb produces rows and starts a query; all others process the rows that reach them.
-/

namespace Esql

inductive Verb where
  | from
  | ts
  | row
  | show
  | where
  | eval
  | stats
  | inlinestats
  | keep
  | drop
  | rename
  | mvExpand
  | sort
  | limit
  | sample
  | dissect
  | grok
  | enrich
  | join
  | fork
  | changePoint
deriving Repr, BEq, DecidableEq, ReflBEq, LawfulBEq

namespace Verb

/-- Every verb, in the order in which completion lists them. -/
def all : List Verb :=
  [.from, .ts, .row, .show, .where, .eval, .stats, .inlinestats, .keep, .drop, .rename, .mvExpand,
   .sort, .limit, .sample, .dissect, .grok, .enrich, .join, .fork, .changePoint]

def name : Verb → String
  | .from => "from"
  | .ts => "ts"
  | .row => "row"
  | .show => "show"
  | .where => "where"
  | .eval => "eval"
  | .stats => "stats"
  | .inlinestats => "inlinestats"
  | .keep => "keep"
  | .drop => "drop"
  | .rename => "rename"
  | .mvExpand => "mv_expand"
  | .sort => "sort"
  | .limit => "limit"
  | .sample => "sample"
  | .dissect => "dissect"
  | .grok => "grok"
  | .enrich => "enrich"
  | .join => "join"
  | .fork => "fork"
  | .changePoint => "change_point"

/-- The verb with a name in lower case. -/
def ofName? (written : String) : Option Verb := all.find? fun verb => verb.name == written

/-- The verb starts a query. -/
def isSource : Verb → Bool
  | .from | .ts | .row | .show => true
  | _ => false

/-- A hidden verb is understood but not offered. -/
def isHidden : Verb → Bool
  | .ts | .inlinestats => true
  | _ => false

/-- The verb may be used inside a branch of a fork. -/
def allowedInFork (verb : Verb) : Bool := !verb.isSource && verb != .fork

/-- The words that may stand before the name of the verb, in lower case. -/
def qualifiers : Verb → List String
  | .join => ["lookup", "left", "right"]
  | _ => []

/-- The tier that the verb requires. -/
def license? : Verb → Option License
  | .changePoint => some .platinum
  | _ => none

/-- The places of the expressions that the verb takes. -/
def places : Verb → List Place
  | .row => [.row]
  | .where => [.where]
  | .eval => [.eval]
  | .stats | .inlinestats => [.stats, .statsBy, .statsWhere]
  | .rename => [.rename]
  | .sort => [.sort]
  | .dissect => [.dissect]
  | .grok => [.grok]
  | .enrich => [.enrich, .enrichWith]
  | .join => [.join]
  | _ => []

/-- The verb as completion writes it, in upper case with its first qualifier. -/
def label (verb : Verb) : String :=
  match verb.qualifiers with
  | qualifier :: _ => Text.upper (qualifier ++ " " ++ verb.name)
  | [] => Text.upper verb.name

/-- The verbs that completion offers among the sources, or among the rest. -/
def suggestable (sources : Bool) : List Verb :=
  all.filter fun verb => verb.isSource == sources && !verb.isHidden

def description : Verb → String
  | .from => "Retrieves data from one or more data streams, indices, or aliases."
  | .ts => "Retrieves data from one or more time series indices."
  | .row => "Produces a row with one or more columns with values that you specify."
  | .show => "Returns information about the deployment and its capabilities."
  | .where => "Uses a boolean expression to filter rows."
  | .eval =>
      "Calculates an expression and puts the resulting value into a search results field."
  | .stats =>
      "Groups rows according to a common value and calculates one or more aggregated values "
        ++ "over the grouped rows."
  | .inlinestats => "Calculates aggregated values and appends them to every row of the group."
  | .keep => "Rearranges fields in the input table by applying the keep clauses in fields."
  | .drop => "Drops columns."
  | .rename => "Renames an old column to a new one."
  | .mvExpand =>
      "Expands multivalued fields into one row per value, duplicating other fields."
  | .sort => "Sorts all results by the specified fields."
  | .limit =>
      "Returns the first search results, in query order, up to the specified maximum."
  | .sample => "Samples a fraction of the table rows."
  | .dissect =>
      "Extracts multiple string values from a single string input, based on a pattern."
  | .grok =>
      "Extracts multiple string values from a single string input, based on a regular "
        ++ "expression pattern."
  | .enrich => "Enrich table with another table."
  | .join => "Join a table with another table."
  | .fork =>
      "Runs several pipelines over the same input and merges their results, tagging each row "
        ++ "with \x60_fork\x60."
  | .changePoint => "Detects spikes, dips, and change points in a metric."

/-- The grammar of the verb in one line. -/
def declaration : Verb → String
  | .from => "FROM index_pattern [METADATA fields]"
  | .ts => "TS index_pattern [METADATA fields]"
  | .row => "ROW column1 = value1[, ..., columnN = valueN]"
  | .show => "SHOW INFO"
  | .where => "WHERE expression"
  | .eval => "EVAL [column1 =] value1[, ..., [columnN =] valueN]"
  | .stats =>
      "STATS [column1 =] expression1 [WHERE boolean_expression1][, ...] "
        ++ "[BY grouping_expression1[, ...]]"
  | .inlinestats => "INLINESTATS [column1 =] expression1[, ...] [BY grouping_expression1[, ...]]"
  | .keep => "KEEP column1[, ..., columnN]"
  | .drop => "DROP column1[, ..., columnN]"
  | .rename => "RENAME old1 AS new1[, ..., oldN AS newN]"
  | .mvExpand => "MV_EXPAND column"
  | .sort =>
      "SORT column1 [ASC/DESC][NULLS FIRST/NULLS LAST][, ..., columnN "
        ++ "[ASC/DESC][NULLS FIRST/NULLS LAST]]"
  | .limit => "LIMIT max_number_of_rows"
  | .sample => "SAMPLE probability"
  | .dissect => "DISSECT input \"pattern\" [APPEND_SEPARATOR=\"<separator>\"]"
  | .grok => "GROK input \"pattern\""
  | .enrich =>
      "ENRICH policy [ON match_field] [WITH [new_name1 = ]field1, [new_name2 = ]field2, ...]"
  | .join => "LOOKUP JOIN lookup_index ON join_condition"
  | .fork => "FORK (<processing_commands>) (<processing_commands>) ... (<processing_commands>)"
  | .changePoint => "CHANGE_POINT value [ON key] [AS type_name, pvalue_name]"

def examples : Verb → List String
  | .from => ["FROM logs", "FROM logs-*", "FROM logs-*, metrics-* METADATA _id"]
  | .ts => ["TS metrics"]
  | .row => ["ROW a = 1, b = \"two\", c = null"]
  | .show => ["SHOW INFO"]
  | .where => ["FROM logs | WHERE status >= 500", "FROM logs | WHERE host IS NOT NULL"]
  | .eval => ["FROM logs | EVAL kb = bytes / 1024", "ROW a = 1 | EVAL b = a * 2, c = round(b)"]
  | .stats =>
      ["FROM logs | STATS count = COUNT(*) BY host",
       "FROM logs | STATS avg(bytes) WHERE status >= 500"]
  | .inlinestats => ["FROM logs | INLINESTATS max_bytes = MAX(bytes) BY host"]
  | .keep => ["FROM logs | KEEP @timestamp, host, message", "FROM logs | KEEP host.*"]
  | .drop => ["FROM logs | DROP message", "FROM logs | DROP tmp_*"]
  | .rename => ["FROM logs | RENAME host AS hostname", "FROM logs | RENAME hostname = host"]
  | .mvExpand => ["ROW a = [1, 2, 3] | MV_EXPAND a"]
  | .sort => ["FROM logs | SORT @timestamp DESC", "FROM logs | SORT bytes ASC NULLS FIRST, host"]
  | .limit => ["FROM logs | LIMIT 100"]
  | .sample => ["FROM logs | SAMPLE 0.1"]
  | .dissect =>
      ["ROW a = \"1953-01-23T12:15:00Z - some text - 127.0.0.1\" | DISSECT a \"%\x7bY\x7d-"
        ++ "%\x7bM\x7d-%\x7bD\x7dT%\x7bh\x7d:%\x7bm\x7d:%\x7bs\x7dZ - %\x7bmsg\x7d - %\x7bip\x7d\""]
  | .grok =>
      ["ROW a = \"1.2.3.4 [2023-01-23T12:15:00.000Z] Connected\" | GROK a \"%\x7bIP:my_ip\x7d "
        ++ "\\\\[%\x7bTIMESTAMP_ISO8601:@timestamp\x7d\\\\] %\x7bGREEDYDATA:status\x7d\""]
  | .enrich =>
      ["FROM logs | ENRICH hosts_policy",
       "FROM logs | ENRICH _coordinator:hosts_policy ON host WITH region, dc = datacenter"]
  | .join =>
      ["FROM employees | LOOKUP JOIN languages_lookup ON language_code",
       "FROM logs | LOOKUP JOIN hosts_lookup ON host, dc"]
  | .fork => ["FROM logs | FORK (WHERE status >= 500) (STATS count(*) BY host)"]
  | .changePoint =>
      ["FROM metrics | STATS avg = AVG(cpu) BY bucket = BUCKET(@timestamp, 1 hour) | "
        ++ "CHANGE_POINT avg ON bucket",
       "FROM metrics | CHANGE_POINT cpu ON @timestamp AS kind, p"]

theorem ofName?_name (verb : Verb) : ofName? verb.name = some verb := by cases verb <;> decide

end Verb

end Esql
