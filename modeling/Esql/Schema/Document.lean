import Esql.Json.Read
import Esql.Schema.Basic

/-!
# Schema documents

The data format of schemas. A record is an object or an array of its fields in order; an array may
stop early where the rest is optional. Fields of other names are ignored in an object. A field
given twice, and a value of the wrong kind, make the document invalid.
-/

namespace Esql

namespace Json

/-- The values of named fields of a record, in the order of the names. -/
def record? (names : List String) : Json → Option (List (Option Json))
  | .object fields =>
      if fields.any (·.1.isNone) then none
      else if names.any fun name => 1 < (fields.map (·.1)).count (some name) then none
      else some (names.map fun name => fields.lookup (some name))
  | .array items =>
      if names.length < items.length then none
      else some (items.map some ++ List.replicate (names.length - items.length) none)
  | _ => none

/-- A list whose items are all readable. -/
def list? {α : Type} (read : Json → Option α) (value : Json) : Option (List α) := do
  (← value.array?).mapM read

/-- A value that may be null. -/
def nullable? {α : Type} (read : Json → Option α) : Json → Option (Option α)
  | .null => some none
  | value => (read value).map some

/-- A field that may be left out, or be null. -/
def optional? {α : Type} (read : Json → Option α) : Option Json → Option (Option α)
  | none => some none
  | some value => nullable? read value

end Json

namespace FieldMapping

def ofJson? (value : Json) : Option FieldMapping := do
  match ← value.record? ["name", "type"] with
  | [some name, some mapping] => pure ⟨← name.text?, ← mapping.text?⟩
  | _ => none

def toJson (field : FieldMapping) : Json :=
  .record [("name", .text field.name), ("type", .text field.mapping)]

end FieldMapping

namespace Index

def ofJson? (value : Json) : Option Index := do
  match ← value.record? ["name", "hidden", "mode"] with
  | [some name, hidden, mode] =>
      let hidden ← match hidden with
        | none => some false
        | some hidden => hidden.bool?
      pure ⟨← name.text?, hidden, ← Json.optional? Json.text? mode⟩
  | _ => none

/-- The record of an index; an absent mode is left out. -/
def toJson (index : Index) : Json :=
  .record ([("name", .text index.name), ("hidden", .bool index.hidden)]
    ++ (index.mode?.map fun mode => ("mode", Json.text mode)).toList)

end Index

namespace EnrichPolicy

def ofJson? (value : Json) : Option EnrichPolicy := do
  match ← value.record? ["name", "sourceIndices", "matchField", "enrichFields"] with
  | [some name, some indices, some matchField, some enrichFields] =>
      pure ⟨← name.text?, ← indices.list? Json.text?, ← matchField.text?,
        ← enrichFields.list? Json.text?⟩
  | _ => none

def toJson (policy : EnrichPolicy) : Json :=
  .record [("name", .text policy.name), ("sourceIndices", .texts policy.indices),
    ("matchField", .text policy.matchField), ("enrichFields", .texts policy.enrichFields)]

end EnrichPolicy

namespace Schema

/-- The columns of single sources, an object. Of a repeated name the last entry counts. -/
def indexColumns? : Json → Option (List (String × List FieldMapping))
  | .object fields => do
      let entries ← fields.mapM fun field => do
        pure (← field.1, ← field.2.list? FieldMapping.ofJson?)
      pure entries.reverse
  | _ => none

def ofJson? (value : Json) : Option Schema := do
  match ← value.record? ["columns", "sources", "policies", "indexColumns"] with
  | [columns, indices, policies, indexColumns] =>
      pure ⟨← Json.optional? (Json.list? FieldMapping.ofJson?) columns,
        ← Json.optional? (Json.list? Index.ofJson?) indices,
        ← Json.optional? (Json.list? EnrichPolicy.ofJson?) policies,
        ← (indexColumns.map indexColumns?).getD (some [])⟩
  | _ => none

/-- The schema that a text describes. -/
def read? (document : String) : Option Schema := (Json.parse? document).bind ofJson?

end Schema

end Esql
