import DumpMask.Rules.Reader
import DumpMask.Schema.Basic

/-!
# Reading schema documents

A schema document lists the columns of each table by name, or by a record with a name.
-/

namespace DumpMask.Schema

/-- The name of a column. -/
def columnName? : Json → Option String
  | .string name => some name
  | .object members => do Json.required Json.text? (← Json.field? "name" members)
  | _ => none

def columnNames? : Json → Option (List String)
  | .array items => items.mapM columnName?
  | _ => none

def fieldNames : List String := ["tables"]

/-- The tables of a document with the names of their columns, as they are written. -/
def tables? (json : Json) : Option (List (String × List String)) := do
  match ← json.record? fieldNames 0 with
  | [tables] => Json.standard [] (Json.table? columnNames?) tables
  | _ => none

/-- Reads a schema document. -/
def read (text : String) : Option Schema := do
  let interest := .members (fieldNames.map fun name => (name, .all))
  let tables ← tables? (← Json.readWith interest (Utf8.encode text))
  return ofTables tables

end DumpMask.Schema
