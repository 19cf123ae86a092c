import DumpMask.LengthClass
import DumpMask.Text.Utf8

/-!
# Transforms

A transform turns the decoded value of a column into the value that is written instead. It is given
the length class of the value, and its quoting says in which literal form the result is written.
-/

namespace DumpMask

/-- The literal form in which a result is written. -/
inductive Quoting where
  /-- The form of the literal that was read. -/
  | asInput
  | quoted
  | unquoted
  | null
deriving DecidableEq, Repr

/-- Why a transform gave no result. The message never holds the value. -/
inductive TransformError where
  | notJson
  | replacementNotText
  | other (message : String)
deriving DecidableEq, Repr

def TransformError.message : TransformError → String
  | .notJson => "value is not valid JSON"
  | .replacementNotText => "json field replacement is not UTF-8"
  | .other message => message

structure Transform where
  quoting : Quoting
  apply : Bytes → LengthClass → Except TransformError Bytes

namespace Transform

/-- A transform that writes its results in the form that was read. -/
def ofFn (apply : Bytes → LengthClass → Except TransformError Bytes) : Transform :=
  ⟨.asInput, apply⟩

/-- Every value becomes `value`. -/
def fixed (value : Bytes) (quoting : Quoting) : Transform :=
  ⟨quoting, fun _ _ => .ok value⟩

/-- Every value becomes NULL. -/
def nullOut : Transform :=
  ⟨.null, fun _ _ => .ok []⟩

/-- Keeps the first `count` characters, or octets where the value is no text. -/
def substring (count : Nat) : Transform :=
  .ofFn fun value _ => .ok (Utf8.takeChars count value)

end Transform

end DumpMask
