import DumpMask.Assoc
import DumpMask.Text.Utf8

/-!
# Files

Files by name, each with its content and the time at which it was last changed.
-/

namespace DumpMask

structure File where
  content : Bytes
  /-- Seconds since the epoch. -/
  modified : Nat
deriving DecidableEq, Repr

structure FileStore where
  files : List (String × File)
deriving DecidableEq, Repr

namespace FileStore

def empty : FileStore := ⟨[]⟩

def find? (store : FileStore) (name : String) : Option File :=
  Assoc.find? name store.files

def write (store : FileStore) (name : String) (file : File) : FileStore :=
  ⟨Assoc.insert name file store.files⟩

def remove (store : FileStore) (name : String) : FileStore :=
  ⟨Assoc.erase name store.files⟩

/-- The content of a file that exists and is text. -/
def text? (store : FileStore) (name : String) : Option String := do
  Utf8.decode (← store.find? name).content

def modified? (store : FileStore) (name : String) : Option Nat :=
  (store.find? name).map File.modified

theorem find?_write (store : FileStore) (name other : String) (file : File) :
    (store.write name file).find? other = if name = other then some file else store.find? other :=
  Assoc.find?_insert _ _ _ _

theorem find?_remove (store : FileStore) (name other : String) :
    (store.remove name).find? other = if name = other then none else store.find? other :=
  Assoc.find?_erase _ _ _

end FileStore

end DumpMask
