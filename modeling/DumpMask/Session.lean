import DumpMask.Masker.Configure
import DumpMask.Masker.Statement
import DumpMask.Schema.Cache

/-!
# Sessions

A session holds what a run of masking steps works with: the current masker, a schema given by hand,
the schema cache, the files, and maskers and schema snapshots that were put aside under names.
-/

namespace DumpMask

structure Session where
  masker : Masker
  schema : Option Schema
  cache : Schema.Cache
  files : FileStore
  saved : List (String × Masker)
  held : List (String × Schema.Snapshot)

namespace Session

def start : Session :=
  ⟨.empty .standard, none, none, .empty, [], []⟩

/-- Begins again with a masker without rules. -/
def reset (session : Session) (threshold : Threshold) : Session :=
  { session with masker := .empty threshold }

/-- Makes the masker of a rules document the current one. -/
def load (session : Session) (text : String) : Except Rules.Fault Session := do
  return { session with masker := ← Masker.ofDocument text }

def loadFile (session : Session) (path : String) : Except Rules.Fault Session := do
  return { session with masker := ← Masker.ofFile session.files path }

/-- Registers a transform. Also gives the quoting of the one that it replaces. -/
def register (session : Session) (column : ColumnId) (transform : Transform) :
    Option Quoting × Session :=
  ((session.masker.resolve? column).map Transform.quoting,
    { session with masker := session.masker.register column transform })

def truncate (session : Session) (table : String) : Session :=
  { session with masker := session.masker.truncate table }

/-- Puts the current masker aside under a name. -/
def save (session : Session) (name : String) : Session :=
  { session with saved := Assoc.insert name session.masker session.saved }

/-- Makes the masker that was put aside under a name the current one. -/
def use? (session : Session) (name : String) : Option Session :=
  (Assoc.find? name session.saved).map fun masker => { session with masker }

/-- Sets the schema given by hand. -/
def setSchema (session : Session) (text : String) : Except Schema.Fault (Schema × Session) := do
  let schema ← Schema.ofDocument text
  return (schema, { session with schema := some schema })

def writeFile (session : Session) (name : String) (file : File) : Session :=
  { session with files := session.files.write name file }

/-- Removes a file, and tells whether there was one. -/
def removeFile (session : Session) (name : String) : Bool × Session :=
  ((session.files.find? name).isSome, { session with files := session.files.remove name })

/-- Has the cache hold a file's schema. -/
def ensureSchema (session : Session) (path : String) : Except Schema.Fault Session := do
  return { session with cache := ← session.cache.ensure session.files path }

/-- Reads a schema file into the cache, whatever the cache holds. -/
def reloadSchema (session : Session) (path : String) : Except Schema.Fault Session := do
  return { session with cache := some (← Schema.load session.files path) }

/-- Keeps the cached snapshot under a name, if there is one. -/
def hold? (session : Session) (name : String) : Option Session :=
  session.cache.map fun snapshot =>
    { session with held := Assoc.insert name snapshot session.held }

def held? (session : Session) (name : String) : Option Schema.Snapshot :=
  Assoc.find? name session.held

/-- The schema given by hand, the cached one (under the empty name), or one that is held. -/
def schemaFor? (session : Session) : Option String → Option Schema
  | none => session.schema
  | some name =>
    (if name.isEmpty then session.cache else session.held? name).map Schema.Snapshot.schema

end Session

end DumpMask
