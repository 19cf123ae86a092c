import DumpMask.Json.Basic
import DumpMask.Json.Path

/-!
# Changing a document along a path

`Json.modify` changes the places that a path selects and nothing else. A path that does not fit the
document selects no place.
-/

namespace DumpMask.Json

universe u

variable {ε : Type u}

/-- Changes the first member of that name. -/
def modifyMember (name : String) (change : Json → Except ε Json) :
    List (String × Json) → Except ε (List (String × Json))
  | [] => .ok []
  | (n, value) :: rest =>
    if n = name then (fun value => (n, value) :: rest) <$> change value
    else ((n, value) :: ·) <$> modifyMember name change rest

/-- Changes the item at a position. -/
def modifyItem (change : Json → Except ε Json) : Nat → List Json → Except ε (List Json)
  | _, [] => .ok []
  | 0, item :: rest => (· :: rest) <$> change item
  | position + 1, item :: rest => (item :: ·) <$> modifyItem change position rest

/-- Changes every item, from the first to the last. -/
def modifyItems (change : Json → Except ε Json) : List Json → Except ε (List Json)
  | [] => .ok []
  | item :: rest => do
    let item ← change item
    let rest ← modifyItems change rest
    return item :: rest

/-- Changes the places that a path selects. -/
def modify (change : Json → Except ε Json) : Path → Json → Except ε Json
  | [], node => change node
  | .key name :: path, .object members => .object <$> modifyMember name (modify change path) members
  | .each :: path, .array items => .array <$> modifyItems (modify change path) items
  | .index n :: path, .array items => .array <$> modifyItem (modify change path) n items
  | _ :: _, node => .ok node

end DumpMask.Json
