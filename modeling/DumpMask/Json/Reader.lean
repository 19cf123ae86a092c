import DumpMask.Json.Basic
import DumpMask.Text.Utf8

/-!
# Reading JSON

A reader says which parts of a document it wants. What it wants is read in full: strings are
well-formed text, numbers are in range, and containers are at most 127 deep. What it does not want is
only held to the grammar and left out of the result.
-/

namespace DumpMask.Json

/-- Which parts of a value are wanted. -/
inductive Interest where
  | all
  | ignored
  /-- Of an object these members, each as it says; an array may list them in this order. -/
  | members (fields : List (String × Interest))
  /-- Every member of an object. -/
  | everyMember (each : Interest)

namespace Interest

def isIgnored : Interest → Bool
  | .ignored => true
  | _ => false

def ofMember (interest : Interest) (name : String) : Interest :=
  match interest with
  | .all => .all
  | .ignored => .ignored
  | .members fields => (Assoc.find? name fields).getD .ignored
  | .everyMember each => each

def ofItem (interest : Interest) (index : Nat) : Interest :=
  match interest with
  | .ignored => .ignored
  | .members fields => (fields[index]?.map Prod.snd).getD .all
  | _ => .all

end Interest

/-! ### Blanks and strings -/

def isBlank (b : UInt8) : Bool :=
  b == Ascii.space || b == 0x09 || b == Ascii.newline || b == Ascii.carriageReturn

def skipBlanks (text : Bytes) : Bytes :=
  text.dropWhile isBlank

/-- Cuts the text behind an opening quote at the closing one. A backslash shields the octet after
it, and control characters are not allowed. -/
def cutString : Bytes → Option (Bytes × Bytes)
  | [] => none
  | b :: rest =>
    if b = Ascii.doubleQuote then some ([], rest)
    else if b < 0x20 then none
    else if b = Ascii.backslash then
      match rest with
      | [] => none
      | c :: rest => (cutString rest).map fun (body, after) => (b :: c :: body, after)
    else (cutString rest).map fun (body, after) => (b :: body, after)

/-- The character of a one-letter escape. -/
def escapeLetter? (code : UInt8) : Option UInt8 :=
  if code = Ascii.doubleQuote ∨ code = Ascii.backslash ∨ code = 0x2F then some code
  else if code = 0x62 then some 0x08
  else if code = 0x66 then some 0x0C
  else if code = 0x6E then some Ascii.newline
  else if code = 0x72 then some Ascii.carriageReturn
  else if code = 0x74 then some 0x09
  else none

/-- The number of four hexadecimal digits. -/
def hexUnit? (a b c d : UInt8) : Option Nat := do
  let a ← Ascii.hexValue? a
  let b ← Ascii.hexValue? b
  let c ← Ascii.hexValue? c
  let d ← Ascii.hexValue? d
  return ((a.toNat * 16 + b.toNat) * 16 + c.toNat) * 16 + d.toNat

def isHighSurrogate (unit : Nat) : Bool :=
  0xD800 ≤ unit && unit ≤ 0xDBFF

def isLowSurrogate (unit : Nat) : Bool :=
  0xDC00 ≤ unit && unit ≤ 0xDFFF

def unitOctets (code : Nat) : Bytes :=
  String.utf8EncodeChar (Char.ofNat code)

/-- The octets of a string body. A surrogate stands only as half of a pair; where the string is not
wanted (`strict` is false) that is not checked. -/
def unescape (strict : Bool) : Bytes → Option Bytes
  | [] => some []
  | b :: rest =>
    if b ≠ Ascii.backslash then (unescape strict rest).map (b :: ·)
    else
      match rest with
      | [] => none
      | code :: rest =>
        if code = 0x75 then
          match rest with
          | a :: b :: c :: d :: rest =>
            match hexUnit? a b c d with
            | none => none
            | some unit =>
              if !strict then unescape strict rest
              else if isLowSurrogate unit then none
              else if isHighSurrogate unit then
                match rest with
                | slash :: letter :: a :: b :: c :: d :: rest =>
                  if slash = Ascii.backslash ∧ letter = 0x75 then
                    match hexUnit? a b c d with
                    | none => none
                    | some low =>
                      if isLowSurrogate low then
                        (unescape strict rest).map
                          (unitOctets (0x10000 + (unit - 0xD800) * 0x400 + (low - 0xDC00)) ++ ·)
                      else none
                  else none
                | _ => none
              else (unescape strict rest).map (unitOctets unit ++ ·)
          | _ => none
        else
          match escapeLetter? code with
          | some letter => (unescape strict rest).map (letter :: ·)
          | none => none

/-- The string whose opening quote has been read. -/
def readString (wanted : Bool) (text : Bytes) : Option (String × Bytes) := do
  let (body, rest) ← cutString text
  let octets ← unescape wanted body
  if wanted then return (← Utf8.decode octets, rest) else return ("", rest)

/-! ### Values -/

/-- How deep containers may be nested. -/
def maxDepth : Nat := 127

/-- The depth left inside a container, if it may be entered. -/
def enter? (interest : Interest) (depth : Nat) : Option Nat :=
  if interest.isIgnored then some depth
  else
    match depth with
    | 0 => none
    | depth + 1 => some depth

def readNumber (wanted : Bool) (text : Bytes) : Option (Json × Bytes) := do
  let (numeral, rest) ← Numeral.scan text
  if wanted then return (.number (← numeral.number?), rest) else return (.null, rest)

def readWord (word : String) (value : Json) (text : Bytes) : Option (Json × Bytes) :=
  (Bytes.stripStart? (ascii word) text).map fun rest => (value, rest)

/-- The name of a member and the text after its colon. -/
def readName (wanted : Bool) (text : Bytes) : Option (String × Bytes) :=
  match skipBlanks text with
  | [] => none
  | b :: rest =>
    if b = Ascii.doubleQuote then do
      let (name, rest) ← readString wanted rest
      match skipBlanks rest with
      | [] => none
      | c :: rest => if c = Ascii.colon then some (name, rest) else none
    else none

mutual

/-- Reads the value that a text begins with, after blanks. Each step of the three readers uses one
unit of `fuel`, and two units for each octet are enough. -/
def readValue (fuel depth : Nat) (interest : Interest) (text : Bytes) : Option (Json × Bytes) :=
  match fuel with
  | 0 => none
  | fuel + 1 =>
    match skipBlanks text with
    | [] => none
    | b :: rest =>
      if b = Ascii.openBrace then do
        let depth ← enter? interest depth
        match skipBlanks rest with
        | [] => none
        | c :: after =>
          if c = Ascii.closeBrace then some (.object [], after)
          else
            let (members, rest) ← readMembers fuel depth interest rest
            some (.object members, rest)
      else if b = Ascii.openBracket then do
        let depth ← enter? interest depth
        match skipBlanks rest with
        | [] => none
        | c :: after =>
          if c = Ascii.closeBracket then some (.array [], after)
          else
            let (items, rest) ← readItems fuel depth interest 0 rest
            some (.array items, rest)
      else if b = Ascii.doubleQuote then do
        let (value, rest) ← readString (!interest.isIgnored) rest
        some (.string value, rest)
      else if b = 0x2D || Ascii.isDigit b then readNumber (!interest.isIgnored) (b :: rest)
      else if b = 0x6E then readWord "null" .null (b :: rest)
      else if b = 0x74 then readWord "true" (.bool true) (b :: rest)
      else if b = 0x66 then readWord "false" (.bool false) (b :: rest)
      else none

/-- Reads the members of an object up to its closing brace. -/
def readMembers (fuel depth : Nat) (interest : Interest) (text : Bytes) :
    Option (List (String × Json) × Bytes) :=
  match fuel with
  | 0 => none
  | fuel + 1 => do
    let (name, rest) ← readName (!interest.isIgnored) text
    let wanted := interest.ofMember name
    let (value, rest) ← readValue fuel depth wanted rest
    let member := if wanted.isIgnored then [] else [(name, value)]
    match skipBlanks rest with
    | [] => none
    | b :: rest =>
      if b = Ascii.comma then
        let (members, rest) ← readMembers fuel depth interest rest
        some (member ++ members, rest)
      else if b = Ascii.closeBrace then some (member, rest)
      else none

/-- Reads the items of an array up to its closing bracket. -/
def readItems (fuel depth : Nat) (interest : Interest) (index : Nat) (text : Bytes) :
    Option (List Json × Bytes) :=
  match fuel with
  | 0 => none
  | fuel + 1 => do
    let (item, rest) ← readValue fuel depth (interest.ofItem index) text
    match skipBlanks rest with
    | [] => none
    | b :: rest =>
      if b = Ascii.comma then
        let (items, rest) ← readItems fuel depth interest (index + 1) rest
        some (item :: items, rest)
      else if b = Ascii.closeBracket then some ([item], rest)
      else none

end

/-- Reads a text that is one value with nothing but blanks around it. -/
def readWith (interest : Interest) (text : Bytes) : Option Json := do
  let (value, rest) ← readValue (2 * text.length + 2) maxDepth interest text
  if (skipBlanks rest).isEmpty then some value else none

/-- Reads a whole document. -/
def read (text : Bytes) : Option Json :=
  (readWith .all text).map mergeNames

end DumpMask.Json
