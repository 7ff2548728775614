import Esql.Callable.Catalog.Entry

/-!
# Aggregations and groupings

The callables of STATS: aggregations over a group of rows, and the functions that form groups.
-/

namespace Esql.Callable.Catalog

/-- An aggregation of numbers whose result is a double. -/
def numericAggregation (name description : String) : Callable :=
  aggregation name description [takes [required "number" .number] (.fixed .double)]

/-- An aggregation of comparable values whose result is one of them. -/
def comparableAggregation (name description : String) : Callable :=
  aggregation name description [takes [required "field" .comparable] (.sameAs 0)]

def aggregations : List Callable :=
  [numericAggregation "avg" "The average of a numeric field.",
   aggregation "count" "Returns the total number (count) of input values."
     [takes [optional "field" .any] (.fixed .long)],
   aggregation "count_distinct" "Returns the approximate number of distinct values."
     [takes [required "field" .any, constant (optional "precision" .number)] (.fixed .long)],
   comparableAggregation "max" "The maximum value of a field.",
   comparableAggregation "min" "The minimum value of a field.",
   aggregation "sum" "The sum of a numeric expression." [takes [required "number" .number] .widest],
   numericAggregation "median" "The value that is greater than half of all values.",
   numericAggregation "median_absolute_deviation"
     "Returns the median absolute deviation, a measure of variability.",
   aggregation "percentile"
     "Returns the value at which a certain percentage of observed values occur."
     [takes [required "number" .number, constant (required "percentile" .number)] (.fixed .double)],
   numericAggregation "std_dev" "The standard deviation of a numeric field.",
   aggregation "values" "Returns all values in a group as a multivalued field."
     [takes [required "field" .any] (.sameAs 0)],
   aggregation "top" "Collects the top values for a field."
     [takes [required "field" .comparable, constant (required "limit" (.exact .integer)),
       among (required "order" .string) sortOrders] (.sameAs 0)],
   aggregation "weighted_avg" "The weighted average of a numeric expression."
     [takes [required "number" .number, required "weight" .number] (.fixed .double)],
   aggregation "st_centroid_agg"
     "Calculate the spatial centroid over a field with spatial point geometry type."
     [takes [required "field" .point] (.sameAs 0)],
   aggregation "st_extent_agg" "Calculate the spatial extent over a field with geometry type."
     [takes [required "field" (.exact .geoPoint)] (.fixed .geoShape),
      takes [required "field" (.exact .cartesianPoint)] (.fixed .cartesianShape),
      withLicense .platinum (takes [required "field" (.exact .geoShape)] (.fixed .geoShape)),
      withLicense .platinum
        (takes [required "field" (.exact .cartesianShape)] (.fixed .cartesianShape))]]

def dateOrNumber : ParamType := .oneOf [.date, .number]

def groupings : List Callable :=
  [grouping "bucket" "Creates groups of values out of a datetime or numeric input."
     [takes [required "field" .date, constant (required "buckets" .interval)] (.sameAs 0),
      takes [required "field" dateOrNumber, constant (required "buckets" .number),
        constant (required "from" dateOrNumber), constant (required "to" dateOrNumber)] (.sameAs 0),
      takes [required "field" .number, constant (required "span" .number)] (.fixed .double)],
   grouping "categorize"
     "Groups text messages into categories of similarly formatted text values."
     [takes [required "field" .string] (.fixed .keyword)]]

end Esql.Callable.Catalog
