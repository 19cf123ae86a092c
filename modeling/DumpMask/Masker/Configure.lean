import DumpMask.FileStore
import DumpMask.Masker.Basic
import DumpMask.Rules.Build
import DumpMask.Rules.Reader

/-!
# Maskers from rules

A rules document is checked in a fixed order: its version, its threshold, and then the rule of every
column. A document that passes becomes a masker.
-/

namespace DumpMask

namespace Rules

def checkVersion (rules : Rules) : Except Fault Unit :=
  match rules.version with
  | none => .ok ()
  | some version => if version = 1 then .ok () else .error (.unsupportedVersion version)

def threshold? (rules : Rules) : Except Fault Threshold :=
  match rules.threshold with
  | none => .ok .standard
  | some length => if length = 0 then .error .invalidThreshold else .ok ⟨length⟩

end Rules

namespace Masker

/-- Registers the transforms of a table's column rules. -/
def addColumns (setting : FieldRule.Setting) (table : String) (masker : Masker) :
    List (String × FieldRule) → Except Rules.Fault Masker
  | [] => .ok masker
  | (column, rule) :: rest =>
    match rule.build setting column with
    | .ok transform => addColumns setting table (masker.register ⟨table, column⟩ transform) rest
    | .error located => .error (.invalidRule table located.column located.fault)

def addTables (setting : FieldRule.Setting) (masker : Masker) :
    List (String × TableRule) → Except Rules.Fault Masker
  | [] => .ok masker
  | (table, .truncate) :: rest => addTables setting (masker.truncate table) rest
  | (table, .columns rules) :: rest => do
    addTables setting (← addColumns setting table masker rules) rest

/-- The masker that rules describe. -/
def ofRules (rules : Rules) : Except Rules.Fault Masker := do
  rules.checkVersion
  let threshold ← rules.threshold?
  addTables ⟨Utf8.encode rules.secret, threshold⟩ (.empty threshold) rules.tables

/-- The masker of a rules document. -/
def ofDocument (text : String) : Except Rules.Fault Masker :=
  match Rules.read text with
  | some rules => ofRules rules
  | none => .error .malformed

/-- The masker of a rules document in a file. -/
def ofFile (files : FileStore) (path : String) : Except Rules.Fault Masker :=
  match files.text? path with
  | some text => ofDocument text
  | none => .error .unreadable

end Masker

end DumpMask
