import DumpMask.Bytes

/-!
# UTF-8

Reading UTF-8 is a machine over octets: between characters it stands at a `boundary`, and after a
lead octet it is `inside` a sequence, with a range for the next octet that rules out overlong forms,
surrogates and values above U+10FFFF. `decode` runs the machine and fails where it is stuck;
`decodeLossy` puts one replacement character for each longest stuck prefix and goes on.
-/

namespace DumpMask.Utf8

/-- The octets of a text. -/
def encode (text : String) : Bytes :=
  text.toList.flatMap String.utf8EncodeChar

inductive State where
  | boundary
  /-- A sequence has begun: `missing + 1` octets are still to come, the next one from `low` to
  `high`, and `value` holds the bits read so far. -/
  | inside (missing : Nat) (low high : UInt8) (value : Nat)
deriving DecidableEq

/-- The state after a lead octet, if `b` is one. -/
def afterLead? (b : UInt8) : Option State :=
  if b < 0xC2 then none
  else if b < 0xE0 then some (.inside 0 0x80 0xBF (b.toNat % 0x20))
  else if b = 0xE0 then some (.inside 1 0xA0 0xBF 0)
  else if b = 0xED then some (.inside 1 0x80 0x9F 0xD)
  else if b < 0xF0 then some (.inside 1 0x80 0xBF (b.toNat % 0x10))
  else if b = 0xF0 then some (.inside 2 0x90 0xBF 0)
  else if b < 0xF4 then some (.inside 2 0x80 0xBF (b.toNat % 0x08))
  else if b = 0xF4 then some (.inside 2 0x80 0x8F 4)
  else none

/-- One octet: the next state and the character that it completes, if any. -/
def step : State → UInt8 → Option (State × Option Char)
  | .boundary, b =>
    if b < 0x80 then some (.boundary, some (Char.ofNat b.toNat))
    else (afterLead? b).map fun state => (state, none)
  | .inside missing low high value, b =>
    if low ≤ b ∧ b ≤ high then
      let value := value * 0x40 + b.toNat % 0x40
      match missing with
      | 0 => some (.boundary, some (Char.ofNat value))
      | missing + 1 => some (.inside missing 0x80 0xBF value, none)
    else none

/-- The characters read from `state` on, if the octets end at a boundary. -/
def run : State → Bytes → Option (List Char)
  | .boundary, [] => some []
  | .inside .., [] => none
  | state, b :: rest =>
    match step state b with
    | none => none
    | some (next, none) => run next rest
    | some (next, some c) => (run next rest).map (c :: ·)

/-- The text that the octets encode, if they are well formed. -/
def decode (bytes : Bytes) : Option String :=
  (run .boundary bytes).map String.ofList

/-- Well-formed UTF-8. -/
def isValid (bytes : Bytes) : Bool :=
  (decode bytes).isSome

def replacement : Char := '\uFFFD'

/-- Where the machine is stuck inside a sequence, the octets of the sequence so far become one
replacement character and the octet is read again from a boundary. -/
def runLossy : State → Bytes → List Char
  | .boundary, [] => []
  | .inside .., [] => [replacement]
  | state, b :: rest =>
    match step state b with
    | some (next, c) => c.toList ++ runLossy next rest
    | none =>
      match state with
      | .boundary => replacement :: runLossy .boundary rest
      | .inside .. =>
        match step .boundary b with
        | some (next, c) => replacement :: (c.toList ++ runLossy next rest)
        | none => replacement :: replacement :: runLossy .boundary rest

/-- The text of the octets, with replacement characters where they are not well formed. -/
def decodeLossy (bytes : Bytes) : String :=
  String.ofList (runLossy .boundary bytes)

/-- The first `count` characters of well-formed octets, else the first `count` octets. -/
def takeChars (count : Nat) (bytes : Bytes) : Bytes :=
  match run .boundary bytes with
  | some chars => (chars.take count).flatMap String.utf8EncodeChar
  | none => bytes.take count

theorem encode_ofList (chars : List Char) :
    encode (String.ofList chars) = chars.flatMap String.utf8EncodeChar := by
  simp [encode]

end DumpMask.Utf8
