import Esql.Callable.Catalog.Entry

/-!
# Functions

The functions that are called on the values of one row, by what they work on, in the order in which
completion lists them.
-/

namespace Esql.Callable.Catalog

/-! ## Functions of numbers

Arithmetic beyond the operators: rounding, roots, logarithms, angles, and the least and greatest
of several values.
-/

/-- A function of one number whose result is a double. -/
def numeric (name description : String) : Callable :=
  scalar name description [takes [required "number" .number] (.fixed .double)]

def numberFunctions : List Callable :=
  [scalar "abs" "Returns the absolute value." [takes [required "number" .number] (.sameAs 0)],
   scalar "ceil" "Round a number up to the nearest integer."
     [takes [required "number" .number] (.sameAs 0)],
   scalar "floor" "Round a number down to the nearest integer."
     [takes [required "number" .number] (.sameAs 0)],
   scalar "round" "Rounds a number to the specified number of decimal places."
     [takes [required "number" .number, optional "decimals" (.exact .integer)] (.sameAs 0)],
   numeric "sqrt" "Returns the square root of a number.",
   numeric "log10" "Returns the logarithm of a value to base 10.",
   numeric "exp" "Returns the value of e raised to the power of the given number.",
   numeric "sin" "Returns the sine of an angle.",
   numeric "cos" "Returns the cosine of an angle.",
   numeric "tan" "Returns the tangent of an angle.",
   numeric "signum" "Returns the sign of the given number.",
   scalar "log" "Returns the logarithm of a value to a base."
     [takes [required "number" .number] (.fixed .double),
      takes [required "base" .number, required "number" .number] (.fixed .double)],
   scalar "pow" "Returns the value of a base raised to the power of an exponent."
     [takes [required "base" .number, required "exponent" .number] (.fixed .double)],
   scalar "pi" "Returns Pi." [takes [] (.fixed .double)],
   scalar "e" "Returns Euler's number." [takes [] (.fixed .double)],
   scalar "greatest" "Returns the maximum value from multiple columns."
     [takesMany [required "first" .comparable] (.sameAs 0)],
   scalar "least" "Returns the minimum value from multiple columns."
     [takesMany [required "first" .comparable] (.sameAs 0)]]

/-! ## Functions of strings

Functions that take a string apart, put strings together or look into one.
-/

/-- A function of one string whose result is a keyword. -/
def textual (name description : String) : Callable :=
  scalar name description [takes [required "string" .string] (.fixed .keyword)]

def stringFunctions : List Callable :=
  [scalar "concat" "Concatenates two or more strings."
     [takesMany [required "first" .string, required "rest" .string] (.fixed .keyword)],
   scalar "length" "Returns the character length of a string."
     [takes [required "string" .string] (.fixed .integer)],
   textual "to_lower" "Returns a new string converted to lower case.",
   textual "to_upper" "Returns a new string converted to upper case.",
   textual "trim" "Removes leading and trailing whitespaces from a string.",
   textual "ltrim" "Removes leading whitespaces from a string.",
   textual "rtrim" "Removes trailing whitespaces from a string.",
   textual "reverse" "Returns a new string representing the input string in reverse order.",
   scalar "substring"
     "Returns a substring of a string, specified by a start position and an optional length."
     [takes [required "string" .string, required "start" (.exact .integer),
         optional "length" (.exact .integer)] (.fixed .keyword)],
   scalar "left"
     "Returns the substring that extracts length chars from string starting from the left."
     [takes [required "string" .string, required "length" (.exact .integer)] (.fixed .keyword)],
   scalar "right"
     "Return the substring that extracts length chars from str starting from the right."
     [takes [required "string" .string, required "length" (.exact .integer)] (.fixed .keyword)],
   scalar "replace"
     "Replaces any match of the regular expression regex in string with newString."
     [takes [required "string" .string, required "regex" .string,
         required "newString" .string] (.fixed .keyword)],
   scalar "starts_with"
     "Returns a boolean that indicates whether a keyword string starts with another string."
     [takes [required "str" .string, required "prefix" .string] (.fixed .boolean)],
   scalar "ends_with"
     "Returns a boolean that indicates whether a keyword string ends with another string."
     [takes [required "str" .string, required "suffix" .string] (.fixed .boolean)],
   scalar "split" "Split a single valued string into multiple strings."
     [takes [required "string" .string, required "delim" .string] (.fixed .keyword)],
   scalar "locate"
     ("Returns an integer that indicates the position of a keyword substring within another "
       ++ "string.")
     [takes [required "string" .string, required "substring" .string,
         optional "start" (.exact .integer)] (.fixed .integer)],
   scalar "repeat"
     ("Returns a string constructed by concatenating string with itself the specified number "
       ++ "of times.")
     [takes [required "string" .string, required "number" (.exact .integer)] (.fixed .keyword)]]

/-! ## Functions of dates

Functions of dates and intervals, with the closed sets of words that some of them take.
-/

/-- The parts that can be taken out of a date. -/
def dateParts : List String :=
  ["ALIGNED_DAY_OF_WEEK_IN_MONTH", "ALIGNED_DAY_OF_WEEK_IN_YEAR", "ALIGNED_WEEK_OF_MONTH",
   "ALIGNED_WEEK_OF_YEAR", "AMPM_OF_DAY", "CLOCK_HOUR_OF_AMPM", "CLOCK_HOUR_OF_DAY",
   "DAY_OF_MONTH", "DAY_OF_WEEK", "DAY_OF_YEAR", "EPOCH_DAY", "ERA", "HOUR_OF_AMPM",
   "HOUR_OF_DAY", "INSTANT_SECONDS", "MICRO_OF_DAY", "MICRO_OF_SECOND", "MILLI_OF_DAY",
   "MILLI_OF_SECOND", "MINUTE_OF_DAY", "MINUTE_OF_HOUR", "MONTH_OF_YEAR", "NANO_OF_DAY",
   "NANO_OF_SECOND", "OFFSET_SECONDS", "PROLEPTIC_MONTH", "SECOND_OF_DAY", "SECOND_OF_MINUTE",
   "YEAR", "YEAR_OF_ERA"]

/-- The units in which the distance of two dates can be told. -/
def dateDiffUnits : List String :=
  ["year", "years", "yy", "yyyy", "quarter", "quarters", "qq", "q", "month", "months", "mm", "m",
   "dayofyear", "dy", "y", "day", "days", "dd", "d", "week", "weeks", "wk", "ww", "weekday",
   "weekdays", "dw", "hour", "hours", "hh", "minute", "minutes", "mi", "n", "second", "seconds",
   "ss", "s", "millisecond", "milliseconds", "ms", "microsecond", "microseconds", "mcs",
   "nanosecond", "nanoseconds", "ns"]

def dateFunctions : List Callable :=
  [scalar "now" "Returns current date and time." [takes [] (.fixed .date)],
   scalar "date_extract" "Extracts parts of a date, like year, month, day, hour."
     [takes [among (required "datePart" .string) dateParts, required "date" .date] (.fixed .long)],
   scalar "date_format" "Returns a string representation of a date, in the provided format."
     [takes [required "date" .date] (.fixed .keyword),
      takes [constant (required "dateFormat" .string), required "date" .date] (.fixed .keyword)],
   scalar "date_parse"
     ("Returns a date by parsing the second argument using the format specified in the first "
       ++ "argument.")
     [takes [required "dateString" .string] (.fixed .date),
      takes [constant (required "datePattern" .string),
         required "dateString" .string] (.fixed .date)],
   scalar "date_trunc" "Rounds down a date to the closest interval."
     [takes [constant (required "interval" .interval), required "date" .date] (.sameAs 1)],
   scalar "date_diff"
     ("Subtracts the startTimestamp from the endTimestamp and returns the difference in "
       ++ "multiples of unit.")
     [takes [among (required "unit" .string) dateDiffUnits, required "startTimestamp" .date,
         required "endTimestamp" .date] (.fixed .integer)]]

/-! ## Conversions

One function for each type that a value can be turned into.
-/

/-- A function that turns any value into one type. -/
def conversion (name : String) (type : FieldType) : Callable :=
  scalar name "Converts an input value to another type."
    [takes [required "field" .any] (.fixed type)]

def conversions : List Callable :=
  [conversion "to_string" .keyword,
   conversion "to_integer" .integer,
   conversion "to_long" .long,
   conversion "to_unsigned_long" .unsignedLong,
   conversion "to_double" .double,
   conversion "to_boolean" .boolean,
   conversion "to_datetime" .date,
   conversion "to_date_nanos" .dateNanos,
   conversion "to_ip" .ip,
   conversion "to_version" .version,
   conversion "to_geopoint" .geoPoint,
   conversion "to_geoshape" .geoShape,
   conversion "to_cartesianpoint" .cartesianPoint,
   conversion "to_cartesianshape" .cartesianShape]

/-! ## Functions of multivalued fields

Functions that reduce, order or cut a field with several values.
-/

def multivalueFunctions : List Callable :=
  [scalar "mv_avg"
     ("Converts a multivalued field into a single valued field containing the average of all "
       ++ "of the values.")
     [takes [required "field" .number] (.fixed .double)],
   scalar "mv_count"
     ("Converts a multivalued expression into a single valued column containing a count of "
       ++ "the number of values.")
     [takes [required "field" .any] (.fixed .integer)],
   scalar "mv_dedupe" "Remove duplicate values from a multivalued field."
     [takes [required "field" .any] (.sameAs 0)],
   scalar "mv_first" "Returns the first value of a multivalued field."
     [takes [required "field" .any] (.sameAs 0)],
   scalar "mv_last" "Returns the last value of a multivalued field."
     [takes [required "field" .any] (.sameAs 0)],
   scalar "mv_max" "Returns the maximum value of a multivalued field."
     [takes [required "field" .comparable] (.sameAs 0)],
   scalar "mv_min" "Returns the minimum value of a multivalued field."
     [takes [required "field" .comparable] (.sameAs 0)],
   scalar "mv_sum" "Returns the sum of all values of a multivalued field."
     [takes [required "field" .number] (.sameAs 0)],
   scalar "mv_median" "Returns the median of all values of a multivalued field."
     [takes [required "field" .number] (.sameAs 0)],
   scalar "mv_concat"
     ("Converts a multivalued string expression into a single valued column containing the "
       ++ "concatenation of all values separated by a delimiter.")
     [takes [required "string" .string, required "delim" .string] (.fixed .keyword)],
   scalar "mv_sort" "Sorts a multivalued field in lexicographical order."
     [takes [required "field" .comparable,
         among (optional "order" .string) sortOrders] (.sameAs 0)],
   scalar "mv_slice"
     "Returns a subset of the multivalued field using the start and end index values."
     [takes [required "field" .any, required "start" (.exact .integer),
         optional "end" (.exact .integer)] (.sameAs 0)]]

/-! ## Functions of addresses and shapes

Functions of network addresses and of geometries.
-/

def addressFunctions : List Callable :=
  [scalar "cidr_match"
     "Returns true if the provided IP is contained in one of the provided CIDR blocks."
     [takesMany [required "ip" (.exact .ip), required "blockX" .string] (.fixed .boolean)],
   scalar "ip_prefix" "Truncates an IP to a given prefix length."
     [takes [required "ip" (.exact .ip), required "prefixLengthV4" (.exact .integer),
         required "prefixLengthV6" (.exact .integer)] (.fixed .ip)]]

/-- A test on two geometries. -/
def spatialRelation (name description : String) : Callable :=
  scalar name description
    [takes [required "geomA" .spatial, required "geomB" .spatial] (.fixed .boolean)]

def shapeFunctions : List Callable :=
  [scalar "st_distance" "Computes the distance between two points."
     [takes [required "geomA" .point, required "geomB" .point] (.fixed .double)],
   spatialRelation "st_intersects" "Returns true if two geometries intersect.",
   spatialRelation "st_disjoint"
     "Returns whether the two geometries or geometry columns are disjoint.",
   spatialRelation "st_contains"
     "Returns whether the first geometry contains the second geometry.",
   spatialRelation "st_within"
     "Returns whether the first geometry is within the second geometry.",
   scalar "st_x" "Extracts the x coordinate from the supplied point."
     [takes [required "point" .point] (.fixed .double)],
   scalar "st_y" "Extracts the y coordinate from the supplied point."
     [takes [required "point" .point] (.fixed .double)]]

/-! ## Choices and digests

Functions that choose among their arguments, and digests of a string.
-/

def choiceFunctions : List Callable :=
  [scalar "case"
     "Accepts pairs of conditions and values and returns the value of the first true condition."
     [takesMany [required "condition" (.exact .boolean), required "trueValue" .any,
         optional "elseValue" .any] (.sameAs 1)],
   scalar "coalesce" "Returns the first of its arguments that is not null."
     [takesMany [required "first" .any, optional "rest" .any] (.sameAs 0)]]

def digestFunctions : List Callable :=
  [scalar "md5" "Computes the MD5 hash of the input."
     [takes [required "input" .string] (.fixed .keyword)],
   scalar "sha256" "Computes the SHA256 hash of the input."
     [takes [required "input" .string] (.fixed .keyword)]]

end Esql.Callable.Catalog
