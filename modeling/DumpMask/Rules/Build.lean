import DumpMask.Rules.Basic
import DumpMask.Transform.JsonFields
import DumpMask.Transform.Parts
import DumpMask.Transform.Pseudonym

/-!
# The transform of a rule

A column rule is checked and becomes a transform. The first fault wins: the length, then what the
mode needs, then the separator. A fault in the rule of a path is reported under the column and path.
-/

namespace DumpMask.FieldRule

/-- A fault and the column, or column and paths, whose rule has it. -/
structure Located where
  column : String
  fault : Fault
deriving DecidableEq, Repr

/-- What every rule of a document has in common. -/
structure Setting where
  secret : Bytes
  threshold : Threshold
deriving DecidableEq, Repr

/-- A mode whose parts could not be told apart, or that has none. -/
def Mode.isWhole : Mode → Bool
  | .null | .lines | .json => true
  | _ => false

/-- Masks the parts between separators, where the rule has a separator. -/
def separate (mode : Mode) (separator : Option Char) (threshold : Threshold) (base : Transform) :
    Except Fault Transform :=
  match separator with
  | none => .ok base
  | some c =>
    if mode.isWhole then .error .separatorNotAllowed
    else if c.toNat < 0x80 then .ok (.separated c.toUInt8 base threshold)
    else .error .separatorNotAscii

/-- The setting of a mode, or the fault that it is missing. -/
def need {α : Type} (setting : Option α) (fault : Fault) : Except Fault α :=
  match setting with
  | some value => .ok value
  | none => .error fault

/-- The transform of a mode without paths; the separator is left out. -/
def simple (setting : Setting) (rule : FieldRule) : Except Fault Transform :=
  let pseudonym (kind : Pseudonym.Kind) : Transform :=
    .pseudonym (.make setting.secret kind rule.length setting.threshold)
  match rule.mode with
  | .fixed => do
    let text ← need rule.fixed .missingFixed
    return .fixed (Utf8.encode text) rule.quoting
  | .null => .ok .nullOut
  | .textHash => .ok (pseudonym .text)
  | .intHash => .ok (pseudonym .integer)
  | .emailHash => do return pseudonym (.email (← need rule.domain .missingDomain))
  | .substring => do return .substring (← need rule.length .missingLength)
  | .lines => do
    let marker ← need rule.marker .missingMarker
    return .lineField (Utf8.encode marker) (Utf8.encode (rule.fixed.getD ""))
  | .json => .error .missingPaths

mutual

/-- The transform that a rule describes. -/
def build (setting : Setting) (column : String) (rule : FieldRule) : Except Located Transform :=
  match rule with
  | ⟨mode, fixed, length, domain, separator, marker, paths, quoting⟩ =>
    if length = some 0 then .error ⟨column, .zeroLength⟩
    else
      match mode, paths with
      | .json, first :: rest => do
        let rules ← buildPaths setting column (first :: rest)
        (separate .json separator setting.threshold
          (.jsonFields rules setting.threshold)).mapError (⟨column, ·⟩)
      | mode, _ =>
        (do
          let base ← simple setting ⟨mode, fixed, length, domain, separator, marker, [], quoting⟩
          separate mode separator setting.threshold base).mapError (⟨column, ·⟩)

/-- The paths of a rule with the transforms of their rules. -/
def buildPaths (setting : Setting) (column : String) :
    List (String × FieldRule) → Except Located (List (Json.Path × Transform))
  | [] => .ok []
  | (text, rule) :: rest => do
    let path ← (Json.Path.parse text).mapError (⟨column, .badPath ·⟩)
    let transform ← build setting (column ++ ":" ++ text) rule
    let others ← buildPaths setting column rest
    return (path, transform) :: others

end

end DumpMask.FieldRule
