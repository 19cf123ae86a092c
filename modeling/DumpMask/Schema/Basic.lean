import DumpMask.Masker.Basic
import DumpMask.Schema.Identifier

/-!
# Schemas

A schema knows the columns of tables in the order in which rows list them.
-/

namespace DumpMask

structure Schema where
  tables : List (String × List ColumnId)
deriving DecidableEq, Repr

namespace Schema

/-- The columns of a table under its bare name. -/
def tableColumns (table : String) (columns : List String) : String × List ColumnId :=
  let table := Identifier.normalize table
  (table, columns.map fun column => ⟨table, Identifier.normalize column⟩)

/-- The schema of tables as they are enumerated. Of two spellings of one name the later counts. -/
def ofTables (tables : List (String × List String)) : Schema :=
  ⟨Assoc.ofList (tables.map fun (table, columns) => tableColumns table columns)⟩

def columns? (schema : Schema) (table : String) : Option (List ColumnId) :=
  Assoc.find? table schema.tables

def tableCount (schema : Schema) : Nat :=
  schema.tables.length

end Schema

end DumpMask
