import DumpMask.Json.Basic
import DumpMask.Text.Utf8

/-!
# Writing JSON

Documents are written without blanks. In a string only the quote, the backslash and the characters
below the space are escaped, by a letter where there is one.
-/

namespace DumpMask.Json

/-- One octet of a string between its quotes. -/
def printOctet (b : UInt8) : Bytes :=
  if b = Ascii.doubleQuote then ascii "\\\""
  else if b = Ascii.backslash then ascii "\\\\"
  else if b = 0x08 then ascii "\\b"
  else if b = 0x0C then ascii "\\f"
  else if b = Ascii.newline then ascii "\\n"
  else if b = Ascii.carriageReturn then ascii "\\r"
  else if b = 0x09 then ascii "\\t"
  else if b < 0x20 then ascii "\\u00" ++ [Ascii.lowerHexDigit (b / 16), Ascii.lowerHexDigit (b % 16)]
  else [b]

def printString (text : String) : Bytes :=
  Ascii.doubleQuote :: ((Utf8.encode text).flatMap printOctet ++ [Ascii.doubleQuote])

mutual

def print : Json → Bytes
  | .null => ascii "null"
  | .bool true => ascii "true"
  | .bool false => ascii "false"
  | .number value => value.print
  | .string value => printString value
  | .array items => Ascii.openBracket :: (printItems items ++ [Ascii.closeBracket])
  | .object members => Ascii.openBrace :: (printMembers members ++ [Ascii.closeBrace])

/-- The items of an array with commas between them. -/
def printItems : List Json → Bytes
  | [] => []
  | [item] => item.print
  | item :: rest => item.print ++ Ascii.comma :: printItems rest

/-- The members of an object with commas between them. -/
def printMembers : List (String × Json) → Bytes
  | [] => []
  | [(name, value)] => printString name ++ Ascii.colon :: value.print
  | (name, value) :: rest =>
    printString name ++ Ascii.colon :: value.print ++ Ascii.comma :: printMembers rest

end

end DumpMask.Json
