import Esql.ColumnSet
import Esql.Grammar.Pipeline

/-!
# Schemas

What is known of the data that a query reads: the columns of indices, the indices themselves, and
the policies by which rows can be enriched. A list that is absent was not provided, and nothing
can be checked against it.
-/

namespace Esql

/-- A column with the name of its mapping, as schema data writes it. -/
structure FieldMapping where
  name : String
  mapping : String
deriving Repr, BEq, DecidableEq

namespace FieldMapping

def type (field : FieldMapping) : FieldType := FieldType.ofMapping field.mapping

end FieldMapping

/-- A source of rows. -/
structure Index where
  name : String
  hidden : Bool := false
  mode? : Option String := none
deriving Repr, BEq, DecidableEq

namespace Index

/-- Rows of other sources can be joined with the index. -/
def isLookup (index : Index) : Bool := index.mode? == some "lookup"

end Index

/-- A rule that adds columns of some indices to the rows with an equal value in one column. -/
structure EnrichPolicy where
  name : String
  indices : List String
  matchField : String
  enrichFields : List String
deriving Repr, BEq, DecidableEq

/-- A schema held in memory. -/
structure Schema where
  /-- The columns of every source without columns of its own. -/
  columns? : Option (List FieldMapping) := none
  indices? : Option (List Index) := none
  policies? : Option (List EnrichPolicy) := none
  /-- The columns of single sources. -/
  indexColumns : List (String × List FieldMapping) := []
deriving Repr, BEq, DecidableEq

namespace Schema

/-- The columns held for one source, none if it has no entry. -/
def heldFor (schema : Schema) (source : Source) : List FieldMapping :=
  (schema.indexColumns.lookup source.name).getD []

/-- The columns left by the first command of a list that keeps columns by name. -/
def narrow (commands : List Command) (columns : List FieldMapping) : List FieldMapping :=
  match commands.find? fun command => command.name == "keep" with
  | none => columns
  | some keep => columns.filter fun column => keep.columns.any fun kept => kept.name == column.name

/-- The columns that a query produces: those held for its sources, or those of every source where
that gives none, narrowed by a command that keeps columns. -/
def columnsFor (schema : Schema) (query : String) : Option (List FieldMapping) :=
  match (parse query).pipeline.commands with
  | [] => none
  | source :: rest =>
      let held := source.sources.flatMap schema.heldFor
      (if held.isEmpty then schema.columns? else some held).map (narrow rest)

end Schema

namespace ColumnSet

/-- The columns of a schema; the set is unknown when they were not provided. -/
def ofSchema : Option (List FieldMapping) → ColumnSet
  | none => unknown
  | some columns => ⟨columns.map fun column => ⟨column.name, some column.type, false⟩, true⟩

end ColumnSet

end Esql
