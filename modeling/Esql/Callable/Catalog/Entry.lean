import Esql.Callable.Signature

/-!
# Entries of the catalog

The words in which the catalog is written: parameters and their refinements, signatures, and
callables whose places follow from their category.
-/

namespace Esql.Callable.Catalog

def required (name : String) (type : ParamType) : Parameter := ⟨name, type, false, false, none⟩

def optional (name : String) (type : ParamType) : Parameter := ⟨name, type, true, false, none⟩

/-- The parameter takes constants only. -/
def constant (param : Parameter) : Parameter := { param with constantOnly := true }

/-- The parameter takes constants only, and of string literals only these. -/
def among (param : Parameter) (values : List String) : Parameter :=
  { param with constantOnly := true, accepted? := some values }

def takes (params : List Parameter) (returns : ReturnRule) : Signature :=
  ⟨params, returns, false, none⟩

/-- The last parameter repeats. -/
def takesMany (params : List Parameter) (returns : ReturnRule) : Signature :=
  ⟨params, returns, true, none⟩

def withLicense (tier : License) (signature : Signature) : Signature :=
  { signature with license? := some tier }

/-- Where the callables of a category may be used. -/
def placesOf : Category → List Place
  | .scalar => Place.expressions
  | .aggregation => [.stats]
  | .grouping => [.statsBy]
  | .operator => Place.expressions ++ [.join]

def entry (category : Category) (name description : String) (signatures : List Signature) :
    Callable :=
  ⟨name, category, description, placesOf category, signatures, none⟩

def scalar : String → String → List Signature → Callable := entry .scalar

def aggregation : String → String → List Signature → Callable := entry .aggregation

def grouping : String → String → List Signature → Callable := entry .grouping

def operator : String → String → List Signature → Callable := entry .operator

/-- The orders that a sort may have. -/
def sortOrders : List String := ["ASC", "DESC"]

end Esql.Callable.Catalog
