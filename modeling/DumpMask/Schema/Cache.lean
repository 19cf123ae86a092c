import DumpMask.FileStore
import DumpMask.Schema.Reader

/-!
# Cached schemas

A snapshot is a schema with the file that it was read from and the time of that file. The cache keeps
one snapshot and reads the file again when it is asked for another file, or when the file's time is
not that of the snapshot. A failure leaves the cache as it was.
-/

namespace DumpMask

/-- Why a schema file gives no schema. -/
inductive Schema.Fault where
  | unreadable
  | malformed
deriving DecidableEq, Repr

def Schema.Fault.message : Schema.Fault → String
  | .unreadable => "Failed to read schema"
  | .malformed => "Failed to parse schema JSON"

/-- A schema as it was read from a file. -/
structure Schema.Snapshot where
  path : String
  modified : Option Nat
  schema : Schema
deriving DecidableEq, Repr

namespace Schema

/-- The schema of a document. -/
def ofDocument (text : String) : Except Fault Schema :=
  match read text with
  | some schema => .ok schema
  | none => .error .malformed

/-- Reads a file. -/
def load (files : FileStore) (path : String) : Except Fault Snapshot :=
  match files.text? path with
  | none => .error .unreadable
  | some text => do return ⟨path, files.modified? path, ← ofDocument text⟩

abbrev Cache := Option Snapshot

namespace Cache

/-- Whether the cache holds a file as it is now. -/
def isFresh (cache : Cache) (files : FileStore) (path : String) : Bool :=
  match cache with
  | none => false
  | some snapshot => snapshot.path == path && files.modified? path == snapshot.modified

/-- The cache with a file in it, read again if need be. -/
def ensure (cache : Cache) (files : FileStore) (path : String) : Except Fault Cache :=
  if cache.isFresh files path then .ok cache
  else some <$> load files path

end Cache

end Schema

end DumpMask
