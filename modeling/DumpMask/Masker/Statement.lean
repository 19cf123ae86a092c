import DumpMask.Masker.Row
import DumpMask.Schema.Basic
import DumpMask.Statement.Table

/-!
# Masking statements

The rows of an `INSERT` or `REPLACE` line are masked one by one, and all that stands around them is
kept. Other lines are kept as they are, and a line that writes a truncated table becomes empty. The
columns are given, or found in a schema under the name of the table.
-/

namespace DumpMask

inductive StatementError where
  | malformed (fault : MalformedRow)
  /-- The first row that cannot be masked; rows count from zero. -/
  | row (index : Nat) (error : RowError)
  /-- Masking is asked for, but nothing is known about the columns. -/
  | unknownColumns (table : String)
deriving DecidableEq, Repr

def StatementError.message : StatementError → String
  | .malformed fault => fault.message
  | .row index error => s!"row {index}: {error.message}"
  | .unknownColumns table => s!"table {table} has transforms but no known columns"

namespace Statement

/-- The table that a line writes; `none` for a line that writes no rows. -/
def target? (line : Bytes) : Except StatementError (Option String) :=
  if isInsert line then
    match table? line with
    | some table => .ok (some table)
    | none => .error (.malformed ⟨0, .unknownTable⟩)
  else .ok none

end Statement

namespace Masker

/-- The rows if all of them could be masked, else the first that could not. `index` is the number of
the first row. -/
def collectRows (index : Nat) : List (Except RowError Bytes) → Except StatementError (List Bytes)
  | [] => .ok []
  | .ok row :: rest => (row :: ·) <$> collectRows (index + 1) rest
  | .error error :: _ => .error (.row index error)

/-- Whether a line writes a table whose rows are dropped. -/
def drops (masker : Masker) (line : Bytes) : Bool :=
  match Statement.table? line with
  | some table => masker.isTruncated table
  | none => false

/-- Masks the rows of a line; `columns` names the literals of every row. -/
def statement (masker : Masker) (columns : List ColumnId) (line : Bytes) :
    Except StatementError Bytes :=
  match Statement.values? line with
  | .error fault => .error (.malformed fault)
  | .ok none => .ok line
  | .ok (some list) =>
    if masker.drops line then .ok []
    else do
      let rows ← collectRows 0 (masker.rows columns list.rows.contents)
      return list.head ++ (list.rows.fill rows).text

/-- Masks the rows of a line whose table a schema describes. A table that the schema does not have
is an error if it is to be masked, and else the line is kept. -/
def statementWithSchema (masker : Masker) (schema : Schema) (line : Bytes) :
    Except StatementError Bytes := do
  match ← Statement.target? line with
  | none => return line
  | some table =>
    if masker.isTruncated table then return []
    match schema.columns? table with
    | some columns => masker.statement columns line
    | none => if masker.hasTable table then .error (.unknownColumns table) else return line

/-- Masks the rows of a line, whose columns are given by name. -/
def statementNamed (masker : Masker) (names : List String) (line : Bytes) :
    Except StatementError Bytes := do
  match ← Statement.target? line with
  | none => return line
  | some table => masker.statement (names.map (⟨table, ·⟩)) line

/-! ### Which transforms run -/

/-- The columns whose transforms run while the rows of a line are masked. A row that fails does not
keep the others from being masked. -/
def appliedStatement (masker : Masker) (columns : List ColumnId) (line : Bytes) : List ColumnId :=
  match Statement.values? line with
  | .ok (some list) =>
    if masker.drops line then [] else list.rows.contents.flatMap (masker.applied columns)
  | _ => []

def appliedWithSchema (masker : Masker) (schema : Schema) (line : Bytes) : List ColumnId :=
  match Statement.target? line with
  | .ok (some table) =>
    if masker.isTruncated table then []
    else
      match schema.columns? table with
      | some columns => masker.appliedStatement columns line
      | none => []
  | _ => []

def appliedNamed (masker : Masker) (names : List String) (line : Bytes) : List ColumnId :=
  match Statement.target? line with
  | .ok (some table) => masker.appliedStatement (names.map (⟨table, ·⟩)) line
  | _ => []

end Masker

end DumpMask
