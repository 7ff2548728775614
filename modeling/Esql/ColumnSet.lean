import Esql.FieldType
import Esql.Text.Glob

/-!
# Column sets

The columns available at a point of a pipeline, in order. A set is known when it lists all
columns there are; in one that is not, a column that is not listed may still exist. A name that
is inserted again moves to the end.
-/

namespace Esql

structure Field where
  name : String
  /-- The type, if it could be inferred. -/
  type? : Option FieldType
  /-- The query itself introduces the column. -/
  userDefined : Bool := false
deriving Repr, BEq, DecidableEq

structure ColumnSet where
  fields : List Field
  known : Bool
deriving Repr, BEq, DecidableEq

namespace ColumnSet

/-- There are no columns. -/
def empty : ColumnSet := ⟨[], true⟩

/-- Nothing is known about the columns. -/
def unknown : ColumnSet := ⟨[], false⟩

def names (set : ColumnSet) : List String := set.fields.map (·.name)

def get? (set : ColumnSet) (name : String) : Option Field :=
  set.fields.find? fun field => field.name == name

/-- The type of a column, if the column is listed and its type known. -/
def type? (set : ColumnSet) (name : String) : Option FieldType := (set.get? name).bind (·.type?)

/-- Whether there is a column with this name, if that is certain. -/
def has? (set : ColumnSet) (name : String) : Option Bool :=
  if (set.get? name).isSome then some true
  else if set.known then some false
  else none

/-- There is certainly no column with this name. -/
def lacks (set : ColumnSet) (name : String) : Bool := set.has? name == some false

/-- The fields without those of a name. -/
def erased (fields : List Field) (name : String) : List Field :=
  fields.filter fun field => field.name != name

/-- The set with a column added or defined again, at the end. -/
def insert (set : ColumnSet) (field : Field) : ColumnSet :=
  { set with fields := erased set.fields field.name ++ [field] }

/-- The set with several columns inserted one after the other. -/
def insertAll (set : ColumnSet) (fields : List Field) : ColumnSet := fields.foldl insert set

/-- The known set of some columns, inserted one after the other. -/
def ofFields (fields : List Field) : ColumnSet := empty.insertAll fields

/-- The set with the columns of another one; it is known if both are. -/
def extend (set other : ColumnSet) : ColumnSet :=
  { set.insertAll other.fields with known := set.known && other.known }

/-- The set as one of which more columns may exist. -/
def forget (set : ColumnSet) : ColumnSet := { set with known := false }

/-- The columns that a pattern matches. -/
def matching (set : ColumnSet) (pattern : String) : List Field :=
  set.fields.filter fun field => Text.globMatch pattern field.name

/-- A list of fields with one more at the end, unless its name is listed. -/
def listOnce (kept : List Field) (field : Field) : List Field :=
  if kept.any fun known => known.name == field.name then kept else kept ++ [field]

/-- The columns that some pattern matches, in the order of the first pattern that matches each.
What a pattern selects from an unknown set cannot be told, so such a set stays as it is. -/
def keep (set : ColumnSet) (patterns : List String) : ColumnSet :=
  if set.known then { set with fields := (patterns.flatMap set.matching).foldl listOnce [] }
  else set

/-- The columns that no pattern matches. -/
def drop (set : ColumnSet) (patterns : List String) : ColumnSet :=
  { set with
    fields := set.fields.filter fun field =>
      !patterns.any fun pattern => Text.globMatch pattern field.name }

/-- The first field of a name under a new name. -/
def renamedIn (old new : String) : List Field → List Field
  | [] => []
  | field :: rest =>
      if field.name == old then { field with name := new, userDefined := true } :: rest
      else field :: renamedIn old new rest

/-- The set with a column under a new name at its place. Any other column of the new name is gone.
A column that is not listed appears at the end under its new name. -/
def rename (set : ColumnSet) (old new : String) : ColumnSet :=
  let others : ColumnSet := { set with fields := erased set.fields new }
  if (others.get? old).isSome then { others with fields := renamedIn old new others.fields }
  else others.insert ⟨new, set.type? old, true⟩

@[simp]
theorem known_insert (set : ColumnSet) (field : Field) : (set.insert field).known = set.known := rfl

theorem known_insertAll (set : ColumnSet) (fields : List Field) :
    (set.insertAll fields).known = set.known := by
  induction fields generalizing set with
  | nil => rfl
  | cons field rest ih => simpa [insertAll] using ih (set.insert field)

theorem names_insert (set : ColumnSet) (field : Field) :
    (set.insert field).names = set.names.filter (· != field.name) ++ [field.name] := by
  simp [names, insert, erased, List.filter_map, Function.comp_def]

theorem get?_isSome_iff (set : ColumnSet) (name : String) :
    (set.get? name).isSome = true ↔ name ∈ set.names := by
  simp [get?, names]

theorem has?_unknown (name : String) : unknown.has? name = none := rfl

end ColumnSet

end Esql
