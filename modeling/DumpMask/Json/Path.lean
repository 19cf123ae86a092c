import DumpMask.Bytes

/-!
# Paths into JSON documents

A path such as `contact.email`, `items[].sku` or `[0].name` selects places in a document by member
names and array positions. `Path.parse` reads the written form and `Path.render` writes it.
-/

namespace DumpMask.Json

inductive Segment where
  | key (name : String)
  /-- Every item of an array. -/
  | each
  | index (position : Nat)
deriving DecidableEq, Repr

abbrev Path := List Segment

namespace Path

/-- Why a text is no path. -/
inductive Fault where
  | keyAfterBracket
  | emptyKey
  | unterminatedBracket
  | invalidIndex
  | invalidCharacter
deriving DecidableEq, Repr

def Fault.message : Fault → String
  | .keyAfterBracket => "expected '.' or '[' after ']'"
  | .emptyKey => "empty key in json path"
  | .unterminatedBracket => "unterminated '[' in json path"
  | .invalidIndex => "invalid array index in json path"
  | .invalidCharacter => "invalid character in json path"

/-- The characters of a key. -/
def isKeyChar (c : Char) : Bool :=
  c.isAlphanum || c == '_'

/-- An array position: digits, perhaps behind a plus sign, of a number of 64 bits. -/
def position? (text : List Char) : Option Nat :=
  let digits := if text.head? = some '+' then text.tail else text
  if digits.isEmpty || !digits.all Char.isDigit then none
  else
    let n := digits.foldl (fun n c => 10 * n + (c.toNat - 0x30)) 0
    if n < UInt64.size then some n else none

/-- The segment that stands between brackets as `inside`. -/
def bracket? (inside : List Char) : Except Fault Segment :=
  if inside.isEmpty then .ok .each
  else
    match position? inside with
    | some n => .ok (.index n)
    | none => .error .invalidIndex

/-- The segment of a key that has been read, if any. -/
def keySegment (key : List Char) : Path :=
  if key.isEmpty then [] else [.key (String.ofList key)]

/-- Reads the rest of a path. `key` is the key read so far, and `closed` says whether a bracket has
just been closed. -/
def parseFrom (key : List Char) (closed : Bool) : List Char → Except Fault Path
  | [] => if key.isEmpty && !closed then .error .emptyKey else .ok (keySegment key)
  | c :: rest =>
    if isKeyChar c then
      if closed then .error .keyAfterBracket else parseFrom (key ++ [c]) false rest
    else if c = '.' then
      if key.isEmpty && !closed then .error .emptyKey
      else (keySegment key ++ ·) <$> parseFrom [] false rest
    else if c = '[' then
      match _hrest : rest.dropWhile (· ≠ ']') with
      | [] => .error .unterminatedBracket
      | _ :: after =>
        match bracket? (rest.takeWhile (· ≠ ']')) with
        | .error fault => .error fault
        | .ok segment => (keySegment key ++ segment :: ·) <$> parseFrom [] true after
    else .error .invalidCharacter
termination_by text => text.length
decreasing_by
  · simp
  · simp
  · have hdrop := (List.dropWhile_sublist (l := rest) (· ≠ ']')).length_le
    rw [_hrest] at hdrop
    simp only [List.length_cons] at hdrop ⊢
    omega

/-- Reads a path; a dot in front of it is ignored. -/
def parse (text : String) : Except Fault Path :=
  match text.toList with
  | '.' :: rest => parseFrom [] false rest
  | chars => parseFrom [] false chars

/-- How a segment is written behind others, or in front. -/
def renderSegment (first : Bool) : Segment → List Char
  | .key name => if first then name.toList else '.' :: name.toList
  | .each => ['[', ']']
  | .index n => '[' :: (toString n).toList ++ [']']

def renderFrom (first : Bool) : Path → List Char
  | [] => []
  | segment :: rest => renderSegment first segment ++ renderFrom false rest

/-- The written form of a path: keys are joined by dots and brackets are attached. -/
def render (path : Path) : String :=
  String.ofList (renderFrom true path)

end Path

end DumpMask.Json
