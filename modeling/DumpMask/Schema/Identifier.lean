/-!
# Identifiers

A schema may write the name of a table or column between backticks, with the backticks of the name
doubled, and with blanks around it. `Identifier.normalize` gives the bare name of either spelling.
-/

namespace DumpMask.Text

/-- The characters with the Unicode property White_Space. -/
def isBlank (c : Char) : Bool :=
  let code := c.toNat
  (0x09 ≤ code && code ≤ 0x0D) || code == 0x20 || code == 0x85 || code == 0xA0 || code == 0x1680 ||
    (0x2000 ≤ code && code ≤ 0x200A) || code == 0x2028 || code == 0x2029 || code == 0x202F ||
    code == 0x205F || code == 0x3000

def trimBlanks (chars : List Char) : List Char :=
  ((chars.dropWhile isBlank).reverse.dropWhile isBlank).reverse

end DumpMask.Text

namespace DumpMask.Identifier

/-- Each doubled backtick becomes one, from left to right. -/
def undouble : List Char → List Char
  | c :: d :: rest =>
    if c = '\x60' ∧ d = '\x60' then c :: undouble rest else c :: undouble (d :: rest)
  | short => short

/-- What stands between a backtick at the start and another at the end. -/
def unquoted? : List Char → Option (List Char)
  | [] => none
  | c :: rest =>
    if c = '\x60' ∧ rest.getLast? = some '\x60' then some rest.dropLast else none

/-- The name that a schema means. -/
def normalize (name : String) : String :=
  let trimmed := Text.trimBlanks name.toList
  String.ofList (undouble ((unquoted? trimmed).getD trimmed))

/-- A name between backticks, with its own backticks doubled. -/
def quote (name : String) : String :=
  String.ofList ('\x60' :: (name.toList.flatMap fun c =>
    if c = '\x60' then ['\x60', '\x60'] else [c]) ++ ['\x60'])

end DumpMask.Identifier
