import Esql.FieldType

/-!
# Units of time

The words that may follow an integer in a time interval. Units from a day upwards make a period
of the calendar, shorter ones a duration.
-/

namespace Esql.TimeUnit

/-- Units of a calendar period. -/
def periods : List String :=
  ["day", "days", "d", "week", "weeks", "w", "month", "months", "mo", "quarter", "quarters", "q",
   "year", "years", "yr", "y"]

/-- Units of a duration. -/
def durations : List String :=
  ["millisecond", "milliseconds", "ms", "second", "seconds", "sec", "s", "minute", "minutes",
   "min", "hour", "hours", "h", "nanoseconds"]

/-- Units that completion offers after a number. -/
def suggested : List String :=
  ["year", "month", "week", "day", "hour", "minute", "second", "millisecond"]

/-- The type of an interval in a unit, written in any case, if there is such a unit. -/
def type? (unit : String) : Option FieldType :=
  let unit := Text.lower unit
  if periods.contains unit then some .datePeriod
  else if durations.contains unit then some .timeDuration
  else none

end Esql.TimeUnit
