import DumpMask.Digest.Sha256

/-!
# Keystreams

A secret and a value determine a run of octets: block after block, each the keyed digest of the
block's number and the value. A pseudonym is made from the front of this run.
-/

namespace DumpMask.Keystream

/-- The block of the given number. -/
def block (secret value : Bytes) (index : UInt32) : Bytes :=
  Hmac.digest secret (Sha256.wordOctets index ++ value)

theorem length_block (secret value : Bytes) (index : UInt32) :
    (block secret value index).length = 32 :=
  Hmac.length_digest _ _

/-- How far a keystream has come: its octets so far, and the number of the next block. -/
structure Run where
  octets : Bytes
  next : UInt32
deriving DecidableEq, Repr

namespace Run

def start : Run := ⟨[], 0⟩

/-- Adds the next block, or the part of it that is missing from `count` octets. -/
def advance (secret value : Bytes) (count : Nat) (run : Run) : Run :=
  ⟨run.octets ++ (block secret value run.next).take (count - run.octets.length), run.next + 1⟩

theorem length_octets_advance (secret value : Bytes) (count : Nat) (run : Run) :
    (run.advance secret value count).octets.length =
      run.octets.length + min (count - run.octets.length) 32 := by
  rw [advance, List.length_append, List.length_take, length_block]

/-- Adds blocks until there are `count` octets. -/
def finish (secret value : Bytes) (count : Nat) (run : Run) : Run :=
  if run.octets.length < count then finish secret value count (run.advance secret value count)
  else run
termination_by count - run.octets.length
decreasing_by
  rw [length_octets_advance]
  omega

end Run

/-- The first `count` octets. -/
def take (secret value : Bytes) (count : Nat) : Bytes :=
  (Run.start.finish secret value count).octets

end DumpMask.Keystream
