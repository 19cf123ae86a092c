import DumpMask.Json.Reader
import DumpMask.Rules.Basic

/-!
# Reading rules documents

A record of a rules document is an object, whose unknown members are skipped, or an array of the
fields in order. A null stands for a missing field only where the field is optional, and a field with
a standard value may be missing but not null. A name that a record repeats makes it malformed, and in
a table of names the last value counts.
-/

namespace DumpMask

namespace Json

mutual

/-- How deep containers are nested. -/
def depth : Json → Nat
  | .array items => depthOfItems items + 1
  | .object members => depthOfMembers members + 1
  | _ => 0

def depthOfItems : List Json → Nat
  | [] => 0
  | item :: rest => max item.depth (depthOfItems rest)

def depthOfMembers : List (String × Json) → Nat
  | [] => 0
  | (_, value) :: rest => max value.depth (depthOfMembers rest)

end

/-! ### Records -/

/-- The value of a record's field: `none` for a malformed record, `some none` where it is missing. -/
def field? (name : String) (members : List (String × Json)) : Option (Option Json) :=
  match members.filter (·.1 = name) with
  | [] => some none
  | [(_, value)] => some (some value)
  | _ => none

/-- The fields of a record in the order of `names`. An array has at least `least` of them. -/
def record? (names : List String) (least : Nat) : Json → Option (List (Option Json))
  | .object members => names.mapM (field? · members)
  | .array items =>
    if least ≤ items.length ∧ items.length ≤ names.length then
      some (names.mapIdx fun index _ => items[index]?)
    else none
  | _ => none

/-- A field that must be there. -/
def required {α : Type} (read : Json → Option α) (value : Option Json) : Option α :=
  value.bind read

/-- A field that may be missing or null. -/
def optional {α : Type} (read : Json → Option α) : Option Json → Option (Option α)
  | none | some .null => some none
  | some value => (read value).map some

/-- A field that may be missing, and then has a standard value. -/
def standard {α : Type} (value : α) (read : Json → Option α) : Option Json → Option α
  | none => some value
  | some json => read json

/-! ### Values -/

def text? : Json → Option String
  | .string value => some value
  | _ => none

def char? : Json → Option Char
  | .string value =>
    match value.toList with
    | [c] => some c
    | _ => none
  | _ => none

/-- A natural number below a limit. -/
def natBelow? (limit : Nat) : Json → Option Nat
  | .number (.integer value) => if 0 ≤ value ∧ value < limit then some value.toNat else none
  | _ => none

/-- One of several names, by itself or as the one member of an object whose value is null. -/
def choice? {α : Type} (choices : List (String × α)) : Json → Option α
  | .string name => Assoc.find? name choices
  | .object [(name, .null)] => Assoc.find? name choices
  | _ => none

/-- A table of names; every value has to be readable. -/
def table? {α : Type} (read : Json → Option α) : Json → Option (List (String × α))
  | .object members => do
    let entries ← members.mapM fun (name, value) => do return (name, ← read value)
    return Assoc.ofList entries
  | _ => none

end Json

namespace FieldRule

def modeNames : List (String × Mode) :=
  [("fixed", .fixed), ("null", .null), ("texthash", .textHash), ("emailhash", .emailHash),
    ("inthash", .intHash), ("substring", .substring), ("lines", .lines), ("json", .json)]

def quotingNames : List (String × Quoting) :=
  [("asinput", .asInput), ("quoted", .quoted), ("unquoted", .unquoted), ("null", .null)]

def fieldNames : List String :=
  ["mode", "fixed", "len", "domain", "separator", "marker", "paths", "quoting"]

/-- The rule of a value that is nested less than `depth` deep. Paths are put in the order of their
texts. -/
def ofJsonWithin : Nat → Json → Option FieldRule
  | 0, _ => none
  | depth + 1, json => do
    match ← json.record? fieldNames 7 with
    | [mode, fixed, length, domain, separator, marker, paths, quoting] =>
      let paths ← Json.optional (Json.table? (ofJsonWithin depth)) paths
      return {
        mode := ← Json.required (Json.choice? modeNames) mode
        fixed := ← Json.optional Json.text? fixed
        length := ← Json.optional (Json.natBelow? UInt64.size) length
        domain := ← Json.optional Json.text? domain
        separator := ← Json.optional Json.char? separator
        marker := ← Json.optional Json.text? marker
        paths := (paths.getD []).mergeSort fun left right => left.1 ≤ right.1
        quoting := ← Json.standard .asInput (Json.choice? quotingNames) quoting }
    | _ => none

def ofJson? (json : Json) : Option FieldRule :=
  ofJsonWithin (json.depth + 1) json

/-- What a rule wants of its document, for rules nested up to `depth` deep. -/
def interest : Nat → Json.Interest
  | 0 => .all
  | depth + 1 => .members (fieldNames.map fun name =>
      (name, if name = "paths" then .everyMember (interest depth) else .all))

/-- Reads a document that is one rule. -/
def read (text : String) : Option FieldRule := do
  ofJson? (← Json.readWith (interest (Json.maxDepth + 1)) (Utf8.encode text))

end FieldRule

def TableRule.ofJson? (json : Json) : Option TableRule :=
  match json.choice? [("truncate", TableRule.truncate)] with
  | some rule => some rule
  | none => (json.table? FieldRule.ofJson?).map .columns

namespace Rules

def fieldNames : List String :=
  ["version", "secret", "threshold", "tables"]

def ofJson? (json : Json) : Option Rules := do
  match ← json.record? fieldNames 3 with
  | [version, secret, threshold, tables] =>
    return {
      version := ← Json.optional (Json.natBelow? UInt32.size) version
      secret := ← Json.standard "" Json.text? secret
      threshold := ← Json.optional (Json.natBelow? UInt64.size) threshold
      tables := ← Json.standard [] (Json.table? TableRule.ofJson?) tables }
  | _ => none

def interest : Json.Interest :=
  .members (fieldNames.map fun name => (name, .all))

/-- Reads a rules document. -/
def read (text : String) : Option Rules := do
  ofJson? (← Json.readWith interest (Utf8.encode text))

end Rules

end DumpMask
