import DumpMask.Literal.Escape

/-!
# Reading and writing literals

`Literal.read` tries the written forms in a fixed order: NULL, a string behind `_binary`, a string,
hexadecimal digits behind `0x`, and last a bare token. `Literal.write` writes a value in the form
that its kind asks for, and as a quoted string where the value has no such form.
-/

namespace DumpMask.Literal

def nullToken : Bytes := ascii "NULL"

def binaryIntroducer : Bytes := ascii "_binary"

/-- The octets of numbers, keywords and bare names. -/
def isBareOctet (b : UInt8) : Bool :=
  Ascii.isAlphanumeric b || b == 0x2E || b == 0x2B || b == 0x2D || b == 0x5F

/-- A hexadecimal marker, `0x` or `0X`. -/
def hasHexMarker : Bytes → Bool
  | zero :: x :: _ => zero == 0x30 && (x == 0x78 || x == 0x58)
  | _ => false

/-- Whether a value can be written without quotes and read back as the same bare token. -/
def isBareToken (value : Bytes) : Bool :=
  !value.isEmpty && !Bytes.equalsIgnoringCase value nullToken && !hasHexMarker value &&
    value.all isBareOctet

/-- The bits of a bit literal: what stands between the quotes of `b'…'`. -/
def bitBody? : Bytes → Option Bytes
  | b :: q :: rest =>
    if (b = 0x62 ∨ b = 0x42) ∧ q = Ascii.quote ∧ rest.getLast? = some Ascii.quote then
      some rest.dropLast
    else none
  | _ => none

/-- Whether the octets are read as a bare token: a bit literal, or a run of bare octets. -/
def isUnquoted (token : Bytes) : Bool :=
  match bitBody? token with
  | some bits => bits.all fun b => b == 0x30 || b == 0x31
  | none => token.all isBareOctet

/-- The value of a string with its quotes; the opening quote has been seen. -/
def unquote : Bytes → Except Fault Bytes
  | [] => .error .unterminated
  | _ :: rest =>
    if rest.getLast? = some Ascii.quote then unescapeFrom 1 rest.dropLast
    else .error .unterminated

/-- The octets that pairs of hexadecimal digits stand for. -/
def readHex : Bytes → Except Fault Bytes
  | [] => .ok []
  | [_] => .error .invalidHex
  | high :: low :: rest =>
    match Ascii.hexValue? high, Ascii.hexValue? low with
    | some high, some low => ((high * 16 + low) :: ·) <$> readHex rest
    | _, _ => .error .invalidHex

/-- The string behind a `_binary` introducer and blanks, if there is one. -/
def introduced? (token : Bytes) : Option Bytes :=
  match Bytes.stripStart? binaryIntroducer token with
  | none => none
  | some rest =>
    let string := Bytes.trimStart rest
    if string.head? = some Ascii.quote then some string else none

/-- Reads a literal that has no blanks around it. -/
def readTrimmed (token : Bytes) : Except Fault Literal :=
  if token.isEmpty then .error .empty
  else if Bytes.equalsIgnoringCase token nullToken then .ok ⟨.null, []⟩
  else
    match introduced? token with
    | some string => (⟨.binary, ·⟩) <$> unquote string
    | none =>
      if token.head? = some Ascii.quote then (⟨.quoted, ·⟩) <$> unquote token
      else if hasHexMarker token ∧ 2 < token.length then (⟨.hex, ·⟩) <$> readHex (token.drop 2)
      else if isUnquoted token then .ok ⟨.bare, token⟩
      else .error .invalidBareToken

/-- Reads a literal; blanks around it do not count. -/
def read (text : Bytes) : Except Fault Literal :=
  readTrimmed (Bytes.trim text)

/-! ### Writing -/

def writeQuoted (value : Bytes) : Bytes :=
  Ascii.quote :: (escape value ++ [Ascii.quote])

def hexOctet (b : UInt8) : Bytes :=
  [Ascii.upperHexDigit (b / 16), Ascii.upperHexDigit (b % 16)]

/-- Writes a literal. A bare value that is no bare token and an empty hexadecimal value are written
as strings. -/
def write : Literal → Bytes
  | ⟨.null, _⟩ => nullToken
  | ⟨.quoted, value⟩ => writeQuoted value
  | ⟨.binary, value⟩ => binaryIntroducer ++ Ascii.space :: writeQuoted value
  | ⟨.hex, value⟩ =>
    if value.isEmpty then writeQuoted value else ascii "0x" ++ value.flatMap hexOctet
  | ⟨.bare, value⟩ => if isBareToken value then value else writeQuoted value

end DumpMask.Literal
