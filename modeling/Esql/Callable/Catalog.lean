import Esql.Callable.Catalog.Aggregations
import Esql.Callable.Catalog.Functions
import Esql.Callable.Catalog.Operators
import Esql.Callable.Registry

/-!
# The catalog of callables

Every function and operator of the language, in the order in which completion lists them.
-/

namespace Esql.Callable

def catalog : List Callable :=
  Catalog.aggregations ++ Catalog.groupings ++ Catalog.operators ++ Catalog.numberFunctions
    ++ Catalog.stringFunctions ++ Catalog.dateFunctions ++ Catalog.conversions
    ++ Catalog.multivalueFunctions ++ Catalog.addressFunctions ++ Catalog.shapeFunctions
    ++ Catalog.choiceFunctions ++ Catalog.digestFunctions

/-- The registry of the whole catalog. -/
def registry : Registry := Registry.ofList catalog

/-- The callable with a name in lower case. -/
def named? (name : String) : Option Callable := registry.find? name

/-- The name is that of an aggregation. -/
def isAggregationName (name : String) : Bool := (named? name).any isAggregation

end Esql.Callable
