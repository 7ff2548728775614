import Esql.Callable.Signature

/-!
# The registry of callables

Callables are looked up by name, and listed by the place in which they may be used. Both ways go
through an index that is filled once, callable by callable, and holds positions in the list of all
callables: the position of a name is that of the last callable with it, and the positions of a place
stand in the order of the list.
-/

namespace Esql.Callable

/-- The positions of the callables of each place, in the order in which they were added. -/
abbrev PlaceIndex := List (Place × List Nat)

namespace PlaceIndex

/-- The positions listed for a place. -/
def listedAt (index : PlaceIndex) (place : Place) : List Nat := (index.lookup place).getD []

/-- The index with a position added at the end of one place. -/
def add (position : Nat) : PlaceIndex → Place → PlaceIndex
  | [], place => [(place, [position])]
  | (key, listed) :: rest, place =>
      if key == place then (key, listed ++ [position]) :: rest
      else (key, listed) :: add position rest place

end PlaceIndex

/-- Where callables stand in a list, by name and by place. An entry for a name hides those behind
it. -/
structure Positions where
  byName : List (String × Nat)
  byPlace : PlaceIndex

namespace Positions

def empty : Positions := ⟨[], []⟩

/-- The positions with those of one more callable, under its name and at each of its places. -/
def add (positions : Positions) (entry : Callable × Nat) : Positions :=
  ⟨(entry.1.name, entry.2) :: positions.byName,
    entry.1.places.foldl (PlaceIndex.add entry.2) positions.byPlace⟩

def ofList (callables : List Callable) : Positions := callables.zipIdx.foldl add empty

end Positions

structure Registry where
  callables : List Callable
  positions : Positions

namespace Registry

def ofList (callables : List Callable) : Registry := ⟨callables, .ofList callables⟩

def find? (registry : Registry) (name : String) : Option Callable :=
  (registry.positions.byName.lookup name).bind (registry.callables[·]?)

/-- The callables of a place. -/
def listedAt (registry : Registry) (place : Place) : List Callable :=
  (registry.positions.byPlace.listedAt place).filterMap (registry.callables[·]?)

/-- The callable belongs to one of the categories and may return what is wanted. -/
def fits (wanted : ParamType) (categories : List Category) (callable : Callable) : Bool :=
  categories.contains callable.category &&
    callable.signatures.any fun signature => signature.possibleReturn.intersects wanted

/-- The callables for a place that may return what is wanted, of the given categories. -/
def usableAt (registry : Registry) (place : Place) (wanted : ParamType)
    (categories : List Category) : List Callable :=
  (registry.listedAt place).filter (fits wanted categories)

end Registry

end Esql.Callable
