import DumpMask.Assoc
import DumpMask.Json.Number

/-!
# JSON documents

A document as it was read: members of an object are in the order of the text, and a name that is
repeated is there each time. `mergeNames` gives the document its usual meaning, in which a repeated
name keeps its first place and takes its last value.
-/

namespace DumpMask

inductive Json where
  | null
  | bool (value : Bool)
  | number (value : Json.Number)
  | string (value : String)
  | array (items : List Json)
  | object (members : List (String × Json))

namespace Json

mutual

/-- The document in which no object repeats a name. -/
def mergeNames : Json → Json
  | .array items => .array (mergeItems items)
  | .object members => .object (Assoc.ofList (mergeMembers members))
  | leaf => leaf

def mergeItems : List Json → List Json
  | [] => []
  | item :: rest => item.mergeNames :: mergeItems rest

def mergeMembers : List (String × Json) → List (String × Json)
  | [] => []
  | (name, value) :: rest => (name, value.mergeNames) :: mergeMembers rest

end

end Json

end DumpMask
