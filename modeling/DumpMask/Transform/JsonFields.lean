import DumpMask.Json.Modify
import DumpMask.Json.Printer
import DumpMask.Json.Reader
import DumpMask.Transform.Basic

/-!
# Transforms inside JSON documents

A value that holds a JSON document is masked place by place: each rule hands the strings that its
path selects to a transform. All else in the document keeps its meaning, and the document is written
anew.
-/

namespace DumpMask.Transform

/-- A string that is not empty becomes what the transform makes of it, or null where the transform
writes NULL. Other values stay. -/
def maskLeaf (transform : Transform) (threshold : Threshold) (leaf : Json) :
    Except TransformError Json :=
  match leaf with
  | .string text =>
    if text.isEmpty then .ok leaf
    else if transform.quoting = .null then .ok .null
    else do
      let value := Utf8.encode text
      let masked ← transform.apply value (threshold.classify value)
      match Utf8.decode masked with
      | some text => .ok (.string text)
      | none => .error .replacementNotText
  | _ => .ok leaf

/-- Applies rules to a document, one after the other. -/
def maskDocument (rules : List (Json.Path × Transform)) (threshold : Threshold) (doc : Json) :
    Except TransformError Json :=
  rules.foldlM (fun doc (path, transform) => Json.modify (maskLeaf transform threshold) path doc) doc

/-- Masks the selected strings of a JSON document. A value that is no JSON document is an error. -/
def jsonFields (rules : List (Json.Path × Transform)) (threshold : Threshold) : Transform :=
  .ofFn fun value _ =>
    match Json.read value with
    | none => .error .notJson
    | some doc => Json.print <$> maskDocument rules threshold doc

end DumpMask.Transform
