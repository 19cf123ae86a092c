import DumpMask.Digest.Keystream
import DumpMask.Transform.Basic

/-!
# Pseudonyms

A pseudonym depends on the secret and the value alone. A long value becomes a run of letters or
digits of a fixed width, which never exceeds the threshold. A short value keeps its length: letters
stay letters of the same case, digits stay digits, and all else is kept.
-/

namespace DumpMask

inductive Pseudonym.Kind where
  /-- Letters for long values. -/
  | text
  /-- Digits for long values; a short value keeps its letters, and its first digit is not zero. -/
  | integer
  /-- A local part, made as for `text`, in front of a fixed domain. -/
  | email (domain : String)
deriving DecidableEq, Repr

structure Pseudonym where
  secret : Bytes
  kind : Pseudonym.Kind
  width : Nat
deriving DecidableEq, Repr

namespace Pseudonym

/-- The width of a long pseudonym: as wide as asked for, but no wider than a digest or than the
values that are long. -/
def widthFor (length : Option Nat) (threshold : Threshold) : Nat :=
  min (min (length.getD 32) 32) threshold.length

def make (secret : Bytes) (kind : Kind) (length : Option Nat) (threshold : Threshold) : Pseudonym :=
  ⟨secret, kind, widthFor length threshold⟩

/-- The octet from `first` to `last` that the key octet `key` picks. -/
def pick (first last key : UInt8) : UInt8 :=
  first + key % (last - first + 1)

/-- As many octets from `first` to `last` as the pseudonym is wide. -/
def readable (p : Pseudonym) (first last : UInt8) (value : Bytes) : Bytes :=
  (Keystream.take p.secret value p.width).map (pick first last)

/-- Replaces each letter and digit by one of its class. -/
def substituteText (value keys : Bytes) : Bytes :=
  value.zipWith (fun b key =>
    if Ascii.isLower b then pick 0x61 0x7A key
    else if Ascii.isUpper b then pick 0x41 0x5A key
    else if Ascii.isDigit b then pick 0x30 0x39 key
    else b) keys

/-- Replaces each digit; the first one does not become zero. -/
def substituteDigits (seenDigit : Bool) : Bytes → Bytes → Bytes
  | b :: value, key :: keys =>
    if Ascii.isDigit b then
      (if seenDigit then pick 0x30 0x39 key else pick 0x31 0x39 key) ::
        substituteDigits true value keys
    else b :: substituteDigits seenDigit value keys
  | _, _ => []

/-- A text of the shape of `value`. -/
def shapedText (p : Pseudonym) (value : Bytes) : Bytes :=
  substituteText value (Keystream.take p.secret value value.length)

/-- A number of the shape of `value`. -/
def shapedDigits (p : Pseudonym) (value : Bytes) : Bytes :=
  substituteDigits false value (Keystream.take p.secret value value.length)

def letters (p : Pseudonym) (value : Bytes) : Bytes :=
  p.readable 0x61 0x7A value

def digits (p : Pseudonym) (value : Bytes) : Bytes :=
  p.readable 0x31 0x39 value

/-- The pseudonym of a value. The local part of a short address ends at its last at sign. -/
def replace (p : Pseudonym) (value : Bytes) (length : LengthClass) : Bytes :=
  match p.kind, length with
  | .text, .long => p.letters value
  | .text, .short => p.shapedText value
  | .integer, .long => p.digits value
  | .integer, .short => p.shapedDigits value
  | .email domain, .long => p.letters value ++ Ascii.atSign :: Utf8.encode domain
  | .email domain, .short =>
    p.shapedText (Bytes.beforeLast Ascii.atSign value) ++ Ascii.atSign :: Utf8.encode domain

end Pseudonym

def Transform.pseudonym (p : Pseudonym) : Transform :=
  .ofFn fun value length => .ok (p.replace value length)

end DumpMask
