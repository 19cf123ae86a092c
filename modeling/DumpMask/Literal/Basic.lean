import DumpMask.Bytes

/-!
# Literals

A literal of a dump stands for a value in one of five written forms. `Literal` pairs the form with
the decoded octets, and `Literal.Fault` lists every way in which a written form can be wrong.
-/

namespace DumpMask

/-- The written form of a literal. -/
inductive Literal.Kind where
  | null
  | quoted
  /-- A quoted string behind the `_binary` introducer. -/
  | binary
  | hex
  /-- An unquoted token: a number, a keyword or a bit literal. -/
  | bare
deriving DecidableEq, Repr

/-- A decoded literal. A `null` literal has the empty value. -/
structure Literal where
  kind : Literal.Kind
  value : Bytes
deriving DecidableEq, Repr

/-- Why octets are not a literal. Offsets count from the start of the string body, or from the
opening quote where there is one. -/
inductive Literal.Fault where
  | empty
  | truncatedEscape (offset : Nat)
  | unknownEscape (code : UInt8) (offset : Nat)
  | unterminated
  | unescapedQuote (offset : Nat)
  | invalidHex
  | invalidBareToken
deriving DecidableEq, Repr

def Literal.Fault.message : Literal.Fault → String
  | .empty => "empty literal"
  | .truncatedEscape offset => s!"truncated escape sequence at byte {offset}"
  | .unknownEscape code offset =>
    let digit (n : UInt8) := Char.ofNat (Ascii.lowerHexDigit n).toNat
    let code := String.ofList [digit (code / 16), digit (code % 16)]
    s!"unknown escape sequence 0x{code} at byte {offset}"
  | .unterminated => "unterminated quoted literal"
  | .unescapedQuote offset => s!"unescaped quote at byte {offset}"
  | .invalidHex => "invalid hex literal"
  | .invalidBareToken => "invalid unquoted literal"

end DumpMask
