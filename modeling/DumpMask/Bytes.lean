/-!
# Octets

A line of a dump, a literal in it and the value it stands for are lists of octets. This module holds
the ASCII classes that the readers test for, the named octets of the statement syntax, and the few
operations on octet lists that every reader shares.
-/

namespace DumpMask

/-- A run of octets. -/
abbrev Bytes := List UInt8

/-- The octets of an ASCII text. -/
def ascii (text : String) : Bytes :=
  text.toList.map Char.toUInt8

namespace Ascii

/-! ### Named octets -/

abbrev newline : UInt8 := 0x0A
abbrev carriageReturn : UInt8 := 0x0D
abbrev substitute : UInt8 := 0x1A
abbrev space : UInt8 := 0x20
abbrev doubleQuote : UInt8 := 0x22
abbrev quote : UInt8 := 0x27
abbrev openParen : UInt8 := 0x28
abbrev closeParen : UInt8 := 0x29
abbrev comma : UInt8 := 0x2C
abbrev dot : UInt8 := 0x2E
abbrev colon : UInt8 := 0x3A
abbrev atSign : UInt8 := 0x40
abbrev openBracket : UInt8 := 0x5B
abbrev backslash : UInt8 := 0x5C
abbrev closeBracket : UInt8 := 0x5D
abbrev underscore : UInt8 := 0x5F
abbrev backtick : UInt8 := 0x60
abbrev openBrace : UInt8 := 0x7B
abbrev closeBrace : UInt8 := 0x7D

/-! ### Classes -/

/-- Blanks separate the words of a statement: space, tab, line feed, form feed, carriage return. -/
def isBlank (b : UInt8) : Bool :=
  b == 0x20 || b == 0x09 || b == 0x0A || b == 0x0C || b == 0x0D

def isDigit (b : UInt8) : Bool :=
  0x30 ≤ b && b ≤ 0x39

def isUpper (b : UInt8) : Bool :=
  0x41 ≤ b && b ≤ 0x5A

def isLower (b : UInt8) : Bool :=
  0x61 ≤ b && b ≤ 0x7A

def isLetter (b : UInt8) : Bool :=
  isUpper b || isLower b

def isAlphanumeric (b : UInt8) : Bool :=
  isLetter b || isDigit b

/-! ### Case and digits -/

def toLower (b : UInt8) : UInt8 :=
  if isUpper b then b + 0x20 else b

def toUpper (b : UInt8) : UInt8 :=
  if isLower b then b - 0x20 else b

/-- The value of a hexadecimal digit of either case. -/
def hexValue? (b : UInt8) : Option UInt8 :=
  if isDigit b then some (b - 0x30)
  else if 0x61 ≤ b && b ≤ 0x66 then some (b - 0x61 + 10)
  else if 0x41 ≤ b && b ≤ 0x46 then some (b - 0x41 + 10)
  else none

/-- The upper case hexadecimal digit of a value below sixteen. -/
def upperHexDigit (value : UInt8) : UInt8 :=
  if value < 10 then 0x30 + value else 0x41 + (value - 10)

/-- The lower case hexadecimal digit of a value below sixteen. -/
def lowerHexDigit (value : UInt8) : UInt8 :=
  if value < 10 then 0x30 + value else 0x61 + (value - 10)

end Ascii

namespace Bytes

/-- Equality up to the case of ASCII letters. -/
def equalsIgnoringCase (left right : Bytes) : Bool :=
  left.map Ascii.toLower == right.map Ascii.toLower

/-- The octets from the first that is no blank. -/
def trimStart (bytes : Bytes) : Bytes :=
  bytes.dropWhile Ascii.isBlank

/-- The octets up to the last that is no blank, and the blanks after it. -/
def splitTrailing : Bytes → Bytes × Bytes
  | [] => ([], [])
  | b :: rest =>
    match splitTrailing rest with
    | ([], blanks) => if Ascii.isBlank b then ([], b :: blanks) else ([b], blanks)
    | (kept, blanks) => (b :: kept, blanks)

def trimEnd (bytes : Bytes) : Bytes :=
  (splitTrailing bytes).1

def trim (bytes : Bytes) : Bytes :=
  trimEnd (trimStart bytes)

/-- What follows `start` in a text that begins with it. -/
def stripStart? : Bytes → Bytes → Option Bytes
  | [], text => some text
  | _ :: _, [] => none
  | a :: start, b :: rest => if a = b then stripStart? start rest else none

/-- The parts before and after the first place where `needle` stands. -/
def cutAt? (needle : Bytes) : Bytes → Option (Bytes × Bytes)
  | [] => if needle.isEmpty then some ([], []) else none
  | b :: rest =>
    match stripStart? needle (b :: rest) with
    | some after => some ([], after)
    | none => (cutAt? needle rest).map fun (before, after) => (b :: before, after)

/-- The octets before the last occurrence of `mark`, or all of them if there is none. -/
def beforeLast (mark : UInt8) (bytes : Bytes) : Bytes :=
  match (bytes.reverse.dropWhile (· != mark)) with
  | [] => bytes
  | _ :: before => before.reverse

/-- The decimal digits of a number. -/
def ofNat (n : Nat) : Bytes :=
  ascii (toString n)

/-! ### Nothing is lost in a cut -/

theorem stripStart?_eq_some_iff {start text rest : Bytes} :
    stripStart? start text = some rest ↔ text = start ++ rest := by
  fun_induction stripStart? start text <;> simp_all [eq_comm]

theorem splitTrailing_append (bytes : Bytes) :
    (splitTrailing bytes).1 ++ (splitTrailing bytes).2 = bytes := by
  induction bytes with
  | nil => rfl
  | cons b rest ih =>
    unfold splitTrailing
    split
    · next blanks h => split <;> simp_all
    · next kept blanks h hne => simp_all

theorem splitTrailing_snd_blank (bytes : Bytes) :
    ∀ b ∈ (splitTrailing bytes).2, Ascii.isBlank b := by
  induction bytes with
  | nil => simp [splitTrailing]
  | cons b rest ih =>
    unfold splitTrailing
    split
    · next blanks h => split <;> simp_all
    · next kept blanks h hne => simp_all

end Bytes

end DumpMask
