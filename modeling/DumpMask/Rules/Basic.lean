import DumpMask.Json.Path
import DumpMask.Transform.Basic

/-!
# Masking rules

A rules document says how each column of each table is masked, or that a table loses its rows. A
column rule has a mode and the settings that modes need; `FieldRule` keeps them as they were given,
and `Rules.Build` checks that they fit together.
-/

namespace DumpMask

inductive FieldRule.Mode where
  | fixed
  | null
  | textHash
  | emailHash
  | intHash
  | substring
  | lines
  | json
deriving DecidableEq, Repr

/-- The rule of one column, or of the strings that a path selects in a column's documents. -/
structure FieldRule where
  mode : FieldRule.Mode
  fixed : Option String
  length : Option Nat
  domain : Option String
  separator : Option Char
  marker : Option String
  /-- Written paths with the rules of the strings that they select, in the order of application. -/
  paths : List (String × FieldRule)
  quoting : Quoting

/-- What happens to the rows of a table. -/
inductive TableRule where
  | truncate
  | columns (rules : List (String × FieldRule))

structure Rules where
  version : Option Nat
  secret : String
  threshold : Option Nat
  tables : List (String × TableRule)

/-- Why a column rule describes no transform. -/
inductive FieldRule.Fault where
  | zeroLength
  | missingFixed
  | missingDomain
  | missingLength
  | missingMarker
  | missingPaths
  | badPath (fault : Json.Path.Fault)
  | separatorNotAllowed
  | separatorNotAscii
deriving DecidableEq, Repr

def FieldRule.Fault.message : FieldRule.Fault → String
  | .zeroLength => "len must be at least 1"
  | .missingFixed => "fixed mode needs 'fixed'"
  | .missingDomain => "emailhash mode needs 'domain'"
  | .missingLength => "substring mode needs 'len'"
  | .missingMarker => "lines mode needs 'marker'"
  | .missingPaths => "json mode needs 'paths'"
  | .badPath fault => fault.message
  | .separatorNotAllowed => "separator cannot be combined with null, lines or json mode"
  | .separatorNotAscii => "separator must be an ASCII character"

/-- Why a rules document configures nothing. -/
inductive Rules.Fault where
  | unreadable
  | malformed
  | unsupportedVersion (version : Nat)
  | invalidThreshold
  | invalidRule (table column : String) (fault : FieldRule.Fault)
deriving DecidableEq, Repr

def Rules.Fault.message : Rules.Fault → String
  | .unreadable => "failed to read config"
  | .malformed => "invalid anonymizer config"
  | .unsupportedVersion version => s!"Unsupported anonymizer config version: {version}"
  | .invalidThreshold => "threshold must be at least 1"
  | .invalidRule table column fault => s!"rule {table}.{column}: {fault.message}"

end DumpMask
