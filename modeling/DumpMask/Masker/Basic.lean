import DumpMask.Assoc
import DumpMask.Transform.Basic

/-!
# Maskers

A masker knows the transforms of columns and the tables whose rows are dropped. Looking a column up
and applying its transform depends on the last transform registered for it and on nothing else.
-/

namespace DumpMask

/-- A column of a table. -/
structure ColumnId where
  table : String
  column : String
deriving DecidableEq, Repr

namespace ColumnId

/-- The column as it is shown. -/
def label (id : ColumnId) : String :=
  id.table ++ "." ++ id.column

/-- By table, then by column. -/
def le (left right : ColumnId) : Bool :=
  left.table < right.table || (left.table == right.table && left.column ≤ right.column)

end ColumnId

/-- A transform that failed on a value of some length. The value itself is not told. -/
structure TransformFailure where
  column : ColumnId
  inputLength : Nat
  reason : TransformError
deriving DecidableEq, Repr

def TransformFailure.message (failure : TransformFailure) : String :=
  s!"transform for {failure.column.label} failed on a {failure.inputLength}-byte value: {failure.reason.message}"

/-- A masked value and the form in which it is written. -/
structure Masked where
  value : Bytes
  quoting : Quoting
deriving DecidableEq, Repr

structure Masker where
  threshold : Threshold
  transforms : List (ColumnId × Transform)
  truncated : List String

namespace Masker

/-- A masker without rules. -/
def empty (threshold : Threshold) : Masker :=
  ⟨threshold, [], []⟩

/-- Sets the transform of a column. -/
def register (masker : Masker) (column : ColumnId) (transform : Transform) : Masker :=
  { masker with transforms := Assoc.insert column transform masker.transforms }

/-- Drops the rows of a table from now on. -/
def truncate (masker : Masker) (table : String) : Masker :=
  if masker.truncated.contains table then masker
  else { masker with truncated := masker.truncated ++ [table] }

def resolve? (masker : Masker) (column : ColumnId) : Option Transform :=
  Assoc.find? column masker.transforms

def isTruncated (masker : Masker) (table : String) : Bool :=
  masker.truncated.contains table

/-- The columns that have a transform. -/
def columns (masker : Masker) : List ColumnId :=
  Assoc.keys masker.transforms

/-- Whether some column of a table has a transform. -/
def hasTable (masker : Masker) (table : String) : Bool :=
  masker.columns.any (·.table == table)

/-- Applies a transform to a value of its column. An empty value stays as it is. -/
def applyWith (masker : Masker) (column : ColumnId) (transform : Transform) (value : Bytes) :
    Except TransformFailure Masked :=
  if value.isEmpty then .ok ⟨value, .asInput⟩
  else
    match transform.apply value (masker.threshold.classify value) with
    | .ok masked => .ok ⟨masked, transform.quoting⟩
    | .error reason => .error ⟨column, value.length, reason⟩

/-- Masks a value of a column. A column without a transform keeps its values. -/
def apply (masker : Masker) (column : ColumnId) (value : Bytes) : Except TransformFailure Masked :=
  match masker.resolve? column with
  | some transform => masker.applyWith column transform value
  | none => .ok ⟨value, .asInput⟩

theorem resolve?_register (masker : Masker) (column other : ColumnId) (transform : Transform) :
    (masker.register column transform).resolve? other =
      if column = other then some transform else masker.resolve? other :=
  Assoc.find?_insert _ _ _ _

end Masker

end DumpMask
