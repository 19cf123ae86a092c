import DumpMask.Bytes

/-!
# Length classes

Values are masked differently by length: from a threshold on they are long, below it short. The
default threshold is the size of a digest.
-/

namespace DumpMask

inductive LengthClass where
  | short
  | long
deriving DecidableEq, Repr

def LengthClass.name : LengthClass → String
  | .short => "short"
  | .long => "long"

/-- The length from which a value is long. -/
structure Threshold where
  length : Nat
deriving DecidableEq, Repr

namespace Threshold

/-- As many octets as a digest has. -/
def standard : Threshold := ⟨32⟩

def classOfLength (threshold : Threshold) (length : Nat) : LengthClass :=
  if length < threshold.length then .short else .long

def classify (threshold : Threshold) (value : Bytes) : LengthClass :=
  threshold.classOfLength value.length

end Threshold

end DumpMask
