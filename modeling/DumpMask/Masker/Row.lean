import DumpMask.Masker.Basic
import DumpMask.Tuple

/-!
# Masking rows

A row is cut into its literals, and each literal is decoded, also where nothing is to be done with
it. NULL and columns without a transform are copied octet for octet; a masked value is written in the
form that the quoting of its transform asks for. The first literal that fails fails the row.
-/

namespace DumpMask

/-- Why a row cannot be masked. Positions count the literals from zero. -/
inductive RowError where
  | malformed (fault : MalformedRow)
  /-- The column is shown by its label, or by the position where it has none. -/
  | malformedLiteral (position : Nat) (column : String) (fault : Literal.Fault)
  | transform (position : Nat) (failure : TransformFailure)
deriving DecidableEq, Repr

namespace RowError

def message : RowError → String
  | .malformed fault => fault.message
  | .malformedLiteral position column fault => s!"column {position} ({column}): {fault.message}"
  | .transform position failure => s!"column {position}: {failure.message}"

/-- The literal that failed, if one did. -/
def position? : RowError → Option Nat
  | .malformed _ => none
  | .malformedLiteral position _ _ | .transform position _ => some position

end RowError

/-- The form in which a masked value is written, given the form of the literal that was read. -/
def Literal.Kind.masked (kind : Literal.Kind) : Quoting → Literal.Kind
  | .asInput => kind
  | .quoted => if kind = .binary then .binary else .quoted
  | .unquoted => .bare
  | .null => .null

namespace Masker

/-- How the column of a literal is shown. -/
def columnLabel (position : Nat) : Option ColumnId → String
  | some column => column.label
  | none => s!"#{position}"

/-- The transform that a decoded literal is handed to: that of its column, unless it is NULL. -/
def transformFor? (masker : Masker) (column : Option ColumnId) (literal : Literal) :
    Option (ColumnId × Transform) := do
  let column ← column
  let transform ← masker.resolve? column
  if literal.kind = .null then none else some (column, transform)

/-- Masks the literal at a position of a row. -/
def literal (masker : Masker) (position : Nat) (column : Option ColumnId) (text : Bytes) :
    Except RowError Bytes :=
  match Literal.read text with
  | .error fault => .error (.malformedLiteral position (columnLabel position column) fault)
  | .ok decoded =>
    match masker.transformFor? column decoded with
    | none => .ok text
    | some (column, transform) =>
      match masker.applyWith column transform decoded.value with
      | .error failure => .error (.transform position failure)
      | .ok masked => .ok (Literal.write ⟨decoded.kind.masked masked.quoting, masked.value⟩)

/-- Masks the literals of a row from a position on; `columns` names them in order. -/
def literals (masker : Masker) (position : Nat) (columns : List ColumnId) :
    List Bytes → Except RowError (List Bytes)
  | [] => .ok []
  | text :: rest => do
    let text ← masker.literal position columns.head? text
    let rest ← masker.literals (position + 1) columns.tail rest
    return text :: rest

/-- Masks a row; what stands around the literals is kept. -/
def row (masker : Masker) (columns : List ColumnId) (row : Bytes) : Except RowError Bytes :=
  match Tuple.split row with
  | .error fault => .error (.malformed fault)
  | .ok layout => do
    let masked ← masker.literals 0 columns layout.contents
    return (layout.fill masked).text

/-- Masks rows, each by itself. -/
def rows (masker : Masker) (columns : List ColumnId) (rows : List Bytes) :
    List (Except RowError Bytes) :=
  rows.map (masker.row columns)

/-! ### Which transforms run -/

/-- The columns whose transforms run while the literals are masked, up to the first that fails. -/
def appliedLiterals (masker : Masker) (position : Nat) (columns : List ColumnId) :
    List Bytes → List ColumnId
  | [] => []
  | text :: rest =>
    let here :=
      match Literal.read text with
      | .error _ => []
      | .ok decoded =>
        match masker.transformFor? columns.head? decoded with
        | some (column, _) => if decoded.value.isEmpty then [] else [column]
        | none => []
    match masker.literal position columns.head? text with
    | .ok _ => here ++ masker.appliedLiterals (position + 1) columns.tail rest
    | .error _ => here

/-- The columns whose transforms run while a row is masked, in order. -/
def applied (masker : Masker) (columns : List ColumnId) (row : Bytes) : List ColumnId :=
  match Tuple.split row with
  | .error _ => []
  | .ok layout => masker.appliedLiterals 0 columns layout.contents

end Masker

end DumpMask
