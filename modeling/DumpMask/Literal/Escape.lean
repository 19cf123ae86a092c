import DumpMask.Literal.Basic

/-!
# String bodies

Between the quotes of a string literal, seven octets are written as two: a backslash and a code
letter. Reading accepts more than writing produces: a doubled quote, two more codes, and the pattern
escapes `\%` and `\_`, which keep their backslash. Main statement: reading undoes writing.
-/

namespace DumpMask.Literal

/-- How one octet is written in a string body. -/
def escapeOctet (b : UInt8) : Bytes :=
  if b = 0x00 then ascii "\\0"
  else if b = Ascii.newline then ascii "\\n"
  else if b = Ascii.carriageReturn then ascii "\\r"
  else if b = Ascii.backslash then ascii "\\\\"
  else if b = Ascii.quote then ascii "\\'"
  else if b = Ascii.doubleQuote then ascii "\\\""
  else if b = Ascii.substitute then ascii "\\Z"
  else [b]

/-- The string body that stands for a value. -/
def escape (value : Bytes) : Bytes :=
  value.flatMap escapeOctet

/-- What a backslash followed by `code` stands for. -/
def escapeMeaning? (code : UInt8) : Option Bytes :=
  if code = 0x30 then some [0x00]
  else if code = Ascii.quote then some [Ascii.quote]
  else if code = Ascii.doubleQuote then some [Ascii.doubleQuote]
  else if code = 0x62 then some [0x08]
  else if code = 0x6E then some [Ascii.newline]
  else if code = 0x72 then some [Ascii.carriageReturn]
  else if code = 0x74 then some [0x09]
  else if code = 0x5A then some [Ascii.substitute]
  else if code = Ascii.backslash then some [Ascii.backslash]
  else if code = 0x25 ∨ code = Ascii.underscore then some [Ascii.backslash, code]
  else none

/-- The value of a string body whose first octet stands at `offset`. -/
def unescapeFrom (offset : Nat) : Bytes → Except Fault Bytes
  | [] => .ok []
  | b :: rest =>
    if b = Ascii.quote then
      match rest with
      | [] => .error (.unescapedQuote offset)
      | c :: rest =>
        if c = Ascii.quote then (Ascii.quote :: ·) <$> unescapeFrom (offset + 2) rest
        else .error (.unescapedQuote offset)
    else if b = Ascii.backslash then
      match rest with
      | [] => .error (.truncatedEscape offset)
      | code :: rest =>
        match escapeMeaning? code with
        | some meaning => (meaning ++ ·) <$> unescapeFrom (offset + 2) rest
        | none => .error (.unknownEscape code offset)
    else (b :: ·) <$> unescapeFrom (offset + 1) rest

/-- The value of a string body. -/
def unescape (body : Bytes) : Except Fault Bytes :=
  unescapeFrom 0 body

theorem unescapeFrom_cons_plain {b : UInt8} (hquote : b ≠ Ascii.quote)
    (hbackslash : b ≠ Ascii.backslash) (offset : Nat) (rest : Bytes) :
    unescapeFrom offset (b :: rest) = (b :: ·) <$> unescapeFrom (offset + 1) rest := by
  rw [unescapeFrom.eq_def]
  simp [hquote, hbackslash]

theorem unescapeFrom_escapeOctet_append (b : UInt8) (offset : Nat) (rest : Bytes) :
    unescapeFrom offset (escapeOctet b ++ rest) =
      (b :: ·) <$> unescapeFrom (offset + (escapeOctet b).length) rest := by
  unfold escapeOctet
  repeat' split
  case isFalse.isFalse.isFalse.isFalse.isFalse.isFalse.isFalse hbackslash hquote _ _ =>
    exact unescapeFrom_cons_plain hquote hbackslash offset rest
  all_goals subst_vars; rfl

/-- Reading a string body undoes writing it. -/
theorem unescapeFrom_escape (offset : Nat) (value : Bytes) :
    unescapeFrom offset (escape value) = .ok value := by
  induction value generalizing offset with
  | nil => rfl
  | cons b rest ih =>
    have hcons : escape (b :: rest) = escapeOctet b ++ escape rest := rfl
    rw [hcons, unescapeFrom_escapeOctet_append, ih]
    rfl

end DumpMask.Literal
