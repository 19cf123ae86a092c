import DumpMask.Masker.Basic

/-!
# Values of a scripting language

A script calls the masking functions with values whose type is known only when they run, and may
register callables of its own as transforms. A callable is known by how many arguments it takes, what
it replies, and which transforms it registers while it runs.
-/

namespace DumpMask.Scripting

/-- The value that a callable is given: text, or octets where the value is no text. -/
inductive Argument where
  | text (value : String)
  | octets (value : Bytes)
deriving DecidableEq, Repr

def Argument.ofValue (value : Bytes) : Argument :=
  match Utf8.decode value with
  | some decoded => .text decoded
  | none => .octets value

/-- What a callable gives back. -/
inductive Reply where
  | text (value : String)
  | octets (value : Bytes)
  /-- A text that has no UTF-8 form. -/
  | unencodable
  /-- A value that is neither text nor octets. -/
  | other
  /-- An exception, of which only the kind is kept: its message may quote the value. -/
  | raised (kind : String)
deriving DecidableEq, Repr

namespace Reply

def failure (kind : String) : TransformError :=
  .other s!"python callable raised {kind}"

/-- The masked value that a reply stands for. -/
def value : Reply → Except TransformError Bytes
  | .text value => .ok (Utf8.encode value)
  | .octets value => .ok value
  | .unencodable => .error (.other "callable returned invalid str")
  | .other => .error (.other "callable must return str or bytes")
  | .raised kind => .error (failure kind)

end Reply

structure Callable where
  arity : Nat
  reply : Argument → LengthClass → Reply
  /-- Callables that it registers for columns each time it runs, in this order. -/
  registers : List (ColumnId × Callable)

/-- A value in an argument list. -/
inductive Value where
  | null
  | bool (value : Bool)
  | int (value : Int)
  | float
  | text (value : String)
  /-- A text that has no UTF-8 form. -/
  | unencodable
  | octets (value : Bytes)
  | list (items : List Value)
  | callable (value : Callable)

/-- How a call goes wrong before its function has anything to say about it. -/
inductive ArgumentFault where
  | wrongType
  | outOfRange
  | unencodable
deriving DecidableEq, Repr

namespace Value

def asText : Value → Except ArgumentFault String
  | .text value => .ok value
  | .unencodable => .error .unencodable
  | _ => .error .wrongType

/-- Null stands for an argument that is left out. -/
def asOption {α : Type} (read : Value → Except ArgumentFault α) : Value → Except ArgumentFault (Option α)
  | .null => .ok none
  | value => some <$> read value

/-- A natural number of 64 bits; a truth value counts as a number. -/
def asNat : Value → Except ArgumentFault Nat
  | .int value => if 0 ≤ value ∧ value.toNat < UInt64.size then .ok value.toNat else .error .outOfRange
  | .bool value => .ok value.toNat
  | _ => .error .wrongType

def asBool : Value → Except ArgumentFault Bool
  | .bool value => .ok value
  | _ => .error .wrongType

/-- The items of a sequence. Octets are a sequence of numbers, but a text is not taken for one. -/
def asItems : Value → Except ArgumentFault (List Value)
  | .list items => .ok items
  | .octets value => .ok (value.map fun b => .int b.toNat)
  | _ => .error .wrongType

def asTexts (value : Value) : Except ArgumentFault (List String) := do
  (← value.asItems).mapM asText

end Value

namespace Callable

/-- How many arguments a callable is called with. -/
def argumentCount (passClass : Bool) : Nat :=
  if passClass then 2 else 1

/-- Whether a call with these arguments reaches the callable's body. -/
def accepts (callable : Callable) (passClass : Bool) : Bool :=
  callable.arity == argumentCount passClass

/-- A callable as a transform. With `passClass` it is also given the length class. -/
def transform (callable : Callable) (passClass : Bool) (quoting : Quoting) : Transform :=
  ⟨quoting, fun value length =>
    if callable.accepts passClass then (callable.reply (.ofValue value) length).value
    else .error (Reply.failure "TypeError")⟩

/-- A callable that replies the same to every value. -/
def constant (reply : Reply) : Callable :=
  ⟨1, fun _ _ => reply, []⟩

end Callable

end DumpMask.Scripting
