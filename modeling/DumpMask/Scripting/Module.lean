import DumpMask.Masker.Configure
import DumpMask.Masker.Describe
import DumpMask.Masker.Statement
import DumpMask.Schema.Cache
import DumpMask.Scripting.Value

/-!
# The scripting module

The module keeps one masker and one schema between calls. Each of its functions checks the number and
the types of its arguments, then does its work; a call that fails leaves masker and schema as they
were. Masking works with the rules as they were when the call began, and what callables register
meanwhile counts from the next call on.
-/

namespace DumpMask.Scripting

/-- Why a function refuses to do its work. -/
inductive Refusal where
  | expectedText
  | notCallable
  | unknownQuoting (name : String)
  | zeroThreshold
  | noMasker
  | noSchema
  | notText
  | literal (fault : Literal.Fault)
  | schema (fault : Schema.Fault)
  | rules (fault : Rules.Fault)
  | row (error : RowError)
  | statement (error : StatementError)
  /-- The first row of a batch that cannot be masked. -/
  | batch (index : Nat) (error : RowError)
deriving DecidableEq, Repr

def Refusal.message : Refusal → String
  | .expectedText => "expected str or bytes"
  | .notCallable => "func must be callable"
  | .unknownQuoting name => s!"Unknown quoting: {name}"
  | .zeroThreshold => "threshold must be at least 1"
  | .noMasker => "No anonymizer loaded"
  | .noSchema => "No schema loaded. Call load_schema() or pass columns."
  | .notText => "invalid utf-8"
  | .literal fault => fault.message
  | .schema fault => fault.message
  | .rules fault => fault.message
  | .row error => error.message
  | .statement error => error.message
  | .batch index error => s!"row {index}: {error.message}"

inductive Fault where
  | argument (fault : ArgumentFault)
  | refused (refusal : Refusal)
deriving DecidableEq, Repr

/-- What a call gives back. -/
inductive Result where
  | text (value : String)
  | octets (value : Bytes)
  | bool (value : Bool)
  | list (items : List Result)
  /-- The cached snapshot, if a schema is loaded. -/
  | schemaStatus (snapshot : Option Schema.Snapshot)
  /-- The threshold and the columns as they are shown, if a masker is loaded. -/
  | maskerStatus (status : Option (Nat × List String))

/-- A callable that is registered for a column, and whether it is given the length class. -/
structure Registered where
  callable : Callable
  passClass : Bool

structure Module where
  files : FileStore
  masker : Option Masker
  /-- The columns of the masker whose transform is a callable. -/
  callables : List (ColumnId × Registered)
  schema : Option Schema.Snapshot

inductive Operation where
  | escape
  | unescape
  | classify
  | loadSchema
  | schemaStatus
  | loadMasker
  | setMasker
  | register
  | maskerStatus
  | row
  | statement
  | rows
deriving DecidableEq, Repr

namespace Operation

def all : List Operation :=
  [.classify, .escape, .maskerStatus, .schemaStatus, .loadMasker, .loadSchema, .register, .setMasker,
    .row, .rows, .statement, .unescape]

/-- The name by which scripts call a function. -/
def name : Operation → String
  | .escape => "escape_sql_string"
  | .unescape => "unescape_sql_string"
  | .classify => "classify"
  | .loadSchema => "load_schema"
  | .schemaStatus => "get_schema_status"
  | .loadMasker => "load_anonymizer"
  | .setMasker => "set_anonymizer_json"
  | .register => "register_transform"
  | .maskerStatus => "get_anonymizer_status"
  | .row => "transform_row"
  | .statement => "transform_statement"
  | .rows => "transform_rows_batch"

def ofName? (name : String) : Option Operation :=
  all.find? (·.name == name)

/-- How many arguments a function needs, and how many it takes. -/
def arity : Operation → Nat × Nat
  | .escape | .unescape | .loadSchema | .loadMasker | .setMasker => (1, 1)
  | .classify | .statement => (1, 2)
  | .schemaStatus | .maskerStatus => (0, 0)
  | .register => (3, 5)
  | .row | .rows => (3, 3)

end Operation

/-! ### Arguments -/

/-- A line, row or value: its octets, and whether it came as text. -/
structure Input where
  octets : Bytes
  isText : Bool
deriving DecidableEq, Repr

def refuse {α : Type} (refusal : Refusal) : Except Fault α :=
  .error (.refused refusal)

def Input.ofValue : Value → Except Fault Input
  | .text value => .ok ⟨Utf8.encode value, true⟩
  | .octets value => .ok ⟨value, false⟩
  | .unencodable => .error (.argument .unencodable)
  | _ => refuse .expectedText

/-- A result has the type of the input, but a result that is no text is octets. -/
def Input.result (input : Input) (octets : Bytes) : Result :=
  if input.isText then
    match Utf8.decode octets with
    | some text => .text text
    | none => .octets octets
  else .octets octets

/-- The argument at a position; null where it is left out. -/
def argument (arguments : List Value) (position : Nat) : Value :=
  arguments.getD position .null

def reading {α : Type} (read : Value → Except ArgumentFault α) (arguments : List Value)
    (position : Nat) : Except Fault α :=
  (read (argument arguments position)).mapError .argument

def lowerAscii (text : String) : String :=
  String.ofList (text.toList.map Char.toLower)

/-- The quoting of a name in any case; without a name, that of the input. -/
def quotingOf : Option String → Except Fault Quoting
  | none => .ok .asInput
  | some name =>
    let name := lowerAscii name
    match Assoc.find? name FieldRule.quotingNames with
    | some quoting => .ok quoting
    | none => refuse (.unknownQuoting name)

def callableOf : Value → Except Fault Callable
  | .callable value => .ok value
  | _ => refuse .notCallable

namespace Module

def masker? (module : Module) : Except Fault Masker :=
  match module.masker with
  | some masker => .ok masker
  | none => refuse .noMasker

/-- Registers a callable. A module without a masker gets one without rules first. -/
def register (module : Module) (column : ColumnId) (registered : Registered) (quoting : Quoting) :
    Module :=
  let masker := module.masker.getD (.empty .standard)
  { module with
    masker := some (masker.register column
      (registered.callable.transform registered.passClass quoting))
    callables := Assoc.insert column registered module.callables }

/-- Whether a column already has a transform. -/
def isRegistered (module : Module) (column : ColumnId) : Bool :=
  module.masker.any fun masker => (masker.resolve? column).isSome

/-- Makes a masker of rules the current one. -/
def setMasker (module : Module) (masker : Masker) : Module :=
  { module with masker := some masker, callables := [] }

/-- What a callable registers while it runs. -/
def runEffects (module : Module) (registered : Registered) : Module :=
  if registered.callable.accepts registered.passClass then
    registered.callable.registers.foldl
      (fun module (column, callable) => module.register column ⟨callable, false⟩ .asInput) module
  else module

/-- The module after the transforms of some columns have run. Which callables run is settled by the
rules from before. -/
def afterTransforms (module : Module) (columns : List ColumnId) : Module :=
  columns.foldl (fun current column =>
    match Assoc.find? column module.callables with
    | some registered => current.runEffects registered
    | none => current) module

/-! ### The functions -/

def escape (arguments : List Value) : Except Fault Result := do
  let text ← reading Value.asText arguments 0
  match Utf8.decode (Literal.escape (Utf8.encode text)) with
  | some text => return .text text
  | none => refuse .notText

def unescape (arguments : List Value) : Except Fault Result := do
  let text ← reading Value.asText arguments 0
  match Literal.unescape (Utf8.encode text) with
  | .error fault => refuse (.literal fault)
  | .ok octets =>
    match Utf8.decode octets with
    | some text => return .text text
    | none => refuse .notText

def classify (module : Module) (arguments : List Value) : Except Fault Result := do
  let threshold ← reading (Value.asOption Value.asNat) arguments 1
  let input ← Input.ofValue (argument arguments 0)
  let threshold : Threshold ←
    match threshold with
    | some 0 => refuse .zeroThreshold
    | some length => pure ⟨length⟩
    | none => pure ((module.masker.map Masker.threshold).getD .standard)
  return .text (threshold.classify input.octets).name

def loadSchema (module : Module) (arguments : List Value) : Except Fault (Module × Result) := do
  let path ← reading Value.asText arguments 0
  let snapshot ← (Schema.load module.files path).mapError (.refused ∘ .schema)
  return ({ module with schema := some snapshot }, .bool true)

def loadMasker (module : Module) (arguments : List Value) : Except Fault (Module × Result) := do
  let path ← reading Value.asText arguments 0
  let masker ← (Masker.ofFile module.files path).mapError (.refused ∘ .rules)
  return (module.setMasker masker, .bool true)

def setMaskerDocument (module : Module) (arguments : List Value) :
    Except Fault (Module × Result) := do
  let text ← reading Value.asText arguments 0
  let masker ← (Masker.ofDocument text).mapError (.refused ∘ .rules)
  return (module.setMasker masker, .bool true)

def registerCallable (module : Module) (arguments : List Value) :
    Except Fault (Module × Result) := do
  let table ← reading Value.asText arguments 0
  let column ← reading Value.asText arguments 1
  let quoting ← reading (Value.asOption Value.asText) arguments 3
  let passClass ←
    if arguments.length < 5 then pure false else reading Value.asBool arguments 4
  let callable ← callableOf (argument arguments 2)
  let quoting ← quotingOf quoting
  let id : ColumnId := ⟨table, column⟩
  return (module.register id ⟨callable, passClass⟩ quoting, .bool (module.isRegistered id))

def maskerStatus (module : Module) : Result :=
  .maskerStatus (module.masker.map fun masker => (masker.threshold.length, masker.labels))

/-- The result of a masking call and the columns whose transforms ran for it. -/
structure Masking where
  result : Except Fault Result
  applied : List ColumnId

def row (module : Module) (arguments : List Value) : Except Fault Masking := do
  let table ← reading Value.asText arguments 0
  let names ← reading Value.asTexts arguments 1
  let input ← Input.ofValue (argument arguments 2)
  let masker ← module.masker?
  let columns : List ColumnId := names.map (⟨table, ·⟩)
  return {
    result := (input.result <$> masker.row columns input.octets).mapError (.refused ∘ .row)
    applied := masker.applied columns input.octets }

def statement (module : Module) (arguments : List Value) : Except Fault Masking := do
  let names ← reading (Value.asOption Value.asTexts) arguments 1
  let input ← Input.ofValue (argument arguments 0)
  let masker ← module.masker?
  let finish (masked : Except StatementError Bytes) (applied : List ColumnId) : Masking :=
    ⟨(input.result <$> masked).mapError (.refused ∘ .statement), applied⟩
  match names with
  | some names =>
    return finish (masker.statementNamed names input.octets) (masker.appliedNamed names input.octets)
  | none =>
    match module.schema with
    | none => refuse .noSchema
    | some snapshot =>
      return finish (masker.statementWithSchema snapshot.schema input.octets)
        (masker.appliedWithSchema snapshot.schema input.octets)

/-- The results of a batch, or its first failure. -/
def collectBatch (index : Nat) : List (Input × Except RowError Bytes) → Except Fault (List Result)
  | [] => .ok []
  | (input, .ok octets) :: rest => (input.result octets :: ·) <$> collectBatch (index + 1) rest
  | (_, .error error) :: _ => refuse (.batch index error)

def rows (module : Module) (arguments : List Value) : Except Fault Masking := do
  let table ← reading Value.asText arguments 0
  let names ← reading Value.asTexts arguments 1
  let items ← reading Value.asItems arguments 2
  let inputs ← items.mapM Input.ofValue
  let masker ← module.masker?
  let columns : List ColumnId := names.map (⟨table, ·⟩)
  let masked := masker.rows columns (inputs.map Input.octets)
  return {
    result := .list <$> collectBatch 0 (inputs.zip masked)
    applied := inputs.flatMap fun input => masker.applied columns input.octets }

/-! ### Calls -/

/-- A function that changes nothing. -/
def reads (module : Module) (result : Except Fault Result) : Module × Except Fault Result :=
  (module, result)

/-- A function whose failure changes nothing. -/
def writes (module : Module) (result : Except Fault (Module × Result)) :
    Module × Except Fault Result :=
  match result with
  | .ok (module, result) => (module, .ok result)
  | .error fault => (module, .error fault)

/-- A masking function: only what callables registered meanwhile changes. -/
def masks (module : Module) (masking : Except Fault Masking) : Module × Except Fault Result :=
  match masking with
  | .ok masking => (module.afterTransforms masking.applied, masking.result)
  | .error fault => (module, .error fault)

/-- Calls a function, if it takes that many arguments. -/
def call (module : Module) (operation : Operation) (arguments : List Value) :
    Module × Except Fault Result :=
  if arguments.length < operation.arity.1 ∨ operation.arity.2 < arguments.length then
    (module, .error (.argument .wrongType))
  else
    match operation with
    | .escape => module.reads (escape arguments)
    | .unescape => module.reads (unescape arguments)
    | .classify => module.reads (module.classify arguments)
    | .schemaStatus => module.reads (.ok (.schemaStatus module.schema))
    | .maskerStatus => module.reads (.ok module.maskerStatus)
    | .loadSchema => module.writes (module.loadSchema arguments)
    | .loadMasker => module.writes (module.loadMasker arguments)
    | .setMasker => module.writes (module.setMaskerDocument arguments)
    | .register => module.writes (module.registerCallable arguments)
    | .row => module.masks (module.row arguments)
    | .statement => module.masks (module.statement arguments)
    | .rows => module.masks (module.rows arguments)

/-- The files that the module is asked to load when it is imported. -/
structure Environment where
  schemaPath : Option String
  rulesPath : Option String
deriving DecidableEq, Repr

/-- The module after it is imported. A file that cannot be loaded is passed over. -/
def load (files : FileStore) (environment : Environment) : Module :=
  let schema := environment.schemaPath.bind fun path => (Schema.load files path).toOption
  let masker := environment.rulesPath.bind fun path => (Masker.ofFile files path).toOption
  ⟨files, masker, [], schema⟩

/-- The public names, sorted. -/
def names : List String :=
  (Operation.all.map Operation.name).mergeSort fun left right => left ≤ right

/-- What the module tells of itself. -/
def doc : String :=
  String.intercalate "\n" [
    "Deterministic anonymization of MySQL dump rows.",
    "",
    "Features:",
    "- Exact mysqldump literal escaping and unescaping",
    "- Keyed hash pseudonyms, short/long strategy by value length",
    "- Python callables as column transforms",
    "- Parallel batch processing in a Rust core",
    "",
    "Quick start:",
    ">>> import dumpanon_rs as da",
    ">>> da.load_schema('schema.json')",
    ">>> da.load_anonymizer('rules.json')",
    ">>> da.transform_statement(\"INSERT INTO \x60users\x60 VALUES (1,'alice');\")"]

end Module

end DumpMask.Scripting
