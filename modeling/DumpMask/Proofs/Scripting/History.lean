import DumpMask.Proofs.Masker.Configured
import DumpMask.Scripting.Module
import Mathlib.Data.List.DropRight

/-!
# The module and its history

The functions of the module check their arguments at different moments and one of them makes a masker
where there was none, yet the calls that were made determine the masker and the schema in a simple
way: only successful loads and registrations count, and of them only those since the last load. The
callables are taken to register nothing themselves. Main statement: the masker is the last one
loaded with the callables registered since, and the schema is the last one loaded.
-/

namespace DumpMask.Scripting

/-! ### What a call asks for -/

/-- A callable that is to be registered for a column. -/
structure Registration where
  column : ColumnId
  registered : Registered
  quoting : Quoting

namespace Registration

def transform (registration : Registration) : Transform :=
  registration.registered.callable.transform registration.registered.passClass registration.quoting

/-- Registers a callable; a masker without rules is made first where there is none. -/
def addTo (masker : Option Masker) (registration : Registration) : Option Masker :=
  some ((masker.getD (.empty .standard)).register registration.column registration.transform)

/-- The quoting that an argument names. -/
def quoting? (value : Value) : Option Quoting := do
  let name ← (value.asOption Value.asText).toOption
  (quotingOf name).toOption

/-- The quoting, and whether the callable is given the length class. -/
def options? : List Value → Option (Quoting × Bool)
  | [] => some (.asInput, false)
  | [name] => (quoting? name).map (·, false)
  | [name, .bool passClass] => (quoting? name).map (·, passClass)
  | _ => none

def ofArguments? : List Value → Option Registration
  | .text table :: .text column :: .callable callable :: options =>
    (options? options).map fun (quoting, passClass) =>
      ⟨⟨table, column⟩, ⟨callable, passClass⟩, quoting⟩
  | _ => none

end Registration

/-- A call, and the files as they are then. -/
structure Turn where
  files : FileStore
  operation : Operation
  arguments : List Value

/-- A text that is the only argument. -/
def soleText? : List Value → Option String
  | [.text text] => some text
  | _ => none

namespace Turn

/-- The schema that a call loads. -/
def snapshot? (turn : Turn) : Option Schema.Snapshot :=
  match turn.operation with
  | .loadSchema => do (Schema.load turn.files (← soleText? turn.arguments)).toOption
  | _ => none

/-- The masker that a call loads. -/
def masker? (turn : Turn) : Option Masker :=
  match turn.operation with
  | .loadMasker => do (Masker.ofFile turn.files (← soleText? turn.arguments)).toOption
  | .setMasker => do (Masker.ofDocument (← soleText? turn.arguments)).toOption
  | _ => none

/-- What a call registers. -/
def registration? (turn : Turn) : Option Registration :=
  match turn.operation with
  | .register => Registration.ofArguments? turn.arguments
  | _ => none

/-- The callables among the arguments register nothing. -/
def Passive (turn : Turn) : Prop :=
  ∀ callable, Value.callable callable ∈ turn.arguments → callable.registers = []

theorem operation_of_snapshot? {turn : Turn} {snapshot : Schema.Snapshot}
    (h : turn.snapshot? = some snapshot) : turn.operation = .loadSchema := by
  unfold snapshot? at h
  split at h
  · assumption
  · cases h

theorem operation_of_registration? {turn : Turn} {registration : Registration}
    (h : turn.registration? = some registration) : turn.operation = .register := by
  unfold registration? at h
  split at h
  · assumption
  · cases h

end Turn

/-! ### What a call does -/

/-- The functions that may change the module. -/
def Operation.writes : Operation → Bool
  | .loadSchema | .loadMasker | .setMasker | .register => true
  | _ => false

theorem Turn.writes_of_masker? {turn : Turn} {masker : Masker} (h : turn.masker? = some masker) :
    turn.operation.writes = true := by
  unfold Turn.masker? at h
  split at h
  · next hoperation =>
    rw [hoperation]
    rfl
  · next hoperation =>
    rw [hoperation]
    rfl
  · cases h

namespace Module

variable {module : Module} {arguments : List Value}

/-- The callables on record register nothing. -/
def Passive (module : Module) : Prop :=
  ∀ entry ∈ module.callables, entry.2.callable.registers = []

theorem runEffects_of_registers_eq_nil (module : Module) {registered : Registered}
    (h : registered.callable.registers = []) : module.runEffects registered = module := by
  rw [Module.runEffects, h]
  exact ite_self _

theorem Passive.afterTransforms (h : module.Passive) (columns : List ColumnId) :
    module.afterTransforms columns = module := by
  refine List.foldlRecOn (motive := (· = module)) _ _ rfl ?_
  rintro current rfl column -
  split
  · next registered hfind =>
    exact runEffects_of_registers_eq_nil _ (h _ (Assoc.mem_of_find? hfind))
  · rfl

/-- A call that may change the module does one thing or fails; another call changes nothing. -/
inductive Outcome (module : Module) (turn : Turn) : Module → Except Fault Result → Prop
  | schema {snapshot : Schema.Snapshot} (hsnapshot : turn.snapshot? = some snapshot)
    (hmasker : turn.masker? = none) (hregistration : turn.registration? = none) :
    Outcome module turn { module with schema := some snapshot } (.ok (.bool true))
  | masker {masker : Masker} (hsnapshot : turn.snapshot? = none)
    (hmasker : turn.masker? = some masker) (hregistration : turn.registration? = none) :
    Outcome module turn (module.setMasker masker) (.ok (.bool true))
  | registered {registration : Registration} (hsnapshot : turn.snapshot? = none)
    (hmasker : turn.masker? = none) (hregistration : turn.registration? = some registration) :
    Outcome module turn
      (module.register registration.column registration.registered registration.quoting)
      (.ok (.bool (module.isRegistered registration.column)))
  | kept {answer : Except Fault Result} (hsnapshot : turn.snapshot? = none)
    (hmasker : turn.masker? = none) (hregistration : turn.registration? = none)
    (hanswer : turn.operation.writes → ∃ fault, answer = .error fault) :
    Outcome module turn module answer

theorem soleText?_of_length_ne_one (h : arguments.length ≠ 1) : soleText? arguments = none := by
  unfold soleText?
  split
  · exact absurd rfl h
  · rfl

theorem reading_asText_eq_ok_iff {position : Nat} {text : String} :
    reading Value.asText arguments position = .ok text ↔
      argument arguments position = .text text := by
  rw [reading, mapError_eq_ok_iff]
  cases argument arguments position <;> simp [Value.asText]

theorem reading_asBool_eq_ok_iff {position : Nat} {value : Bool} :
    reading Value.asBool arguments position = .ok value ↔
      argument arguments position = .bool value := by
  rw [reading, mapError_eq_ok_iff]
  cases argument arguments position <;> simp [Value.asBool]

theorem callableOf_eq_ok_iff {value : Value} {callable : Callable} :
    callableOf value = .ok callable ↔ value = .callable callable := by
  cases value <;> simp [callableOf, refuse]

theorem quoting?_eq_some_iff {position : Nat} {quoting : Quoting} :
    Registration.quoting? (argument arguments position) = some quoting ↔
      ∃ name, reading (Value.asOption Value.asText) arguments position = .ok name ∧
        quotingOf name = .ok quoting := by
  simp only [Registration.quoting?, reading, mapError_eq_ok_iff, Option.bind_eq_bind,
    Option.bind_eq_some_iff, toOption_eq_some_iff]

theorem options?_eq_some_iff {options : List Value} {quoting : Quoting} {passClass : Bool} :
    Registration.options? options = some (quoting, passClass) ↔
      options.length ≤ 2 ∧ Registration.quoting? (argument options 0) = some quoting ∧
      (if options.length < 2 then passClass = false else argument options 1 = .bool passClass) := by
  constructor
  · intro h
    unfold Registration.options? at h
    split at h
    · cases h
      exact ⟨by decide, rfl, rfl⟩
    · obtain ⟨quoting', hquoting, heq⟩ := Option.map_eq_some_iff.mp h
      cases heq
      exact ⟨by simp, hquoting, rfl⟩
    · obtain ⟨quoting', hquoting, heq⟩ := Option.map_eq_some_iff.mp h
      cases heq
      exact ⟨le_rfl, hquoting, rfl⟩
    · cases h
  · rintro ⟨hlong, hquoting, hpass⟩
    obtain _ | ⟨name, _ | ⟨pass, _ | ⟨more, rest⟩⟩⟩ := options
    · cases hquoting
      cases hpass
      rfl
    · cases hpass
      exact congrArg (Option.map (·, false)) hquoting
    · cases hpass
      exact congrArg (Option.map (·, passClass)) hquoting
    · simp only [List.length_cons] at hlong
      omega

theorem passClass_cons_iff {first second third : Value} {options : List Value} {passClass : Bool} :
    (if (first :: second :: third :: options).length < 5 then passClass = false
      else argument (first :: second :: third :: options) 4 = .bool passClass) ↔
      if options.length < 2 then passClass = false else argument options 1 = .bool passClass := by
  have hlength : (first :: second :: third :: options).length < 5 ↔ options.length < 2 := by
    simp only [List.length_cons]
    omega
  exact iff_of_eq (if_congr hlength rfl rfl)

/-- The arguments of a registration that is accepted. -/
theorem ofArguments?_eq_some_iff {registration : Registration} :
    Registration.ofArguments? arguments = some registration ↔
      3 ≤ arguments.length ∧ arguments.length ≤ 5 ∧
      argument arguments 0 = .text registration.column.table ∧
      argument arguments 1 = .text registration.column.column ∧
      argument arguments 2 = .callable registration.registered.callable ∧
      Registration.quoting? (argument arguments 3) = some registration.quoting ∧
      (if arguments.length < 5 then registration.registered.passClass = false
        else argument arguments 4 = .bool registration.registered.passClass) := by
  obtain ⟨⟨table, column⟩, ⟨callable, passClass⟩, quoting⟩ := registration
  constructor
  · intro h
    unfold Registration.ofArguments? at h
    split at h
    · next options =>
      obtain ⟨found, hoptions, heq⟩ := Option.map_eq_some_iff.mp h
      cases heq
      obtain ⟨hlong, hquoting, hpass⟩ := options?_eq_some_iff.mp hoptions
      exact ⟨by simp, Nat.add_le_add_right hlong 3, rfl, rfl, rfl, hquoting,
        passClass_cons_iff.mpr hpass⟩
    · cases h
  · rintro ⟨hshort, hlong, htable, hcolumn, hcallable, hquoting, hpass⟩
    obtain _ | ⟨a, _ | ⟨b, _ | ⟨c, options⟩⟩⟩ := arguments
    · cases hshort
    · simp at hshort
    · simp at hshort
    · cases htable
      cases hcolumn
      cases hcallable
      have hlong : options.length ≤ 2 := by
        simp only [List.length_cons] at hlong
        omega
      have hoptions : Registration.options? options = some (quoting, passClass) :=
        options?_eq_some_iff.mpr ⟨hlong, hquoting, passClass_cons_iff.mp hpass⟩
      exact Option.map_eq_some_iff.mpr ⟨_, hoptions, rfl⟩

/-- Whether a callable is to be given the length class. -/
def passClassOf (arguments : List Value) : Except Fault Bool :=
  if arguments.length < 5 then .ok false else reading Value.asBool arguments 4

theorem passClassOf_eq_ok_iff {passClass : Bool} :
    passClassOf arguments = .ok passClass ↔
      (if arguments.length < 5 then passClass = false else argument arguments 4 = .bool passClass) := by
  rw [passClassOf]
  split
  · rw [Except.ok.injEq, eq_comm]
  · exact reading_asBool_eq_ok_iff

theorem registerCallable_eq (module : Module) (arguments : List Value) :
    module.registerCallable arguments = do
      let table ← reading Value.asText arguments 0
      let column ← reading Value.asText arguments 1
      let name ← reading (Value.asOption Value.asText) arguments 3
      let passClass ← passClassOf arguments
      let callable ← callableOf (argument arguments 2)
      let quoting ← quotingOf name
      return (module.register ⟨table, column⟩ ⟨callable, passClass⟩ quoting,
        .bool (module.isRegistered ⟨table, column⟩)) := by
  unfold registerCallable passClassOf
  by_cases hfour : arguments.length < 5
  · simp only [if_pos hfour]
    rfl
  · simp only [if_neg hfour]

theorem registerCallable_eq_ok_iff (hshort : 3 ≤ arguments.length) (hlong : arguments.length ≤ 5)
    {outcome : Module × Result} :
    module.registerCallable arguments = .ok outcome ↔
      ∃ registration, Registration.ofArguments? arguments = some registration ∧
        outcome = (module.register registration.column registration.registered registration.quoting,
          .bool (module.isRegistered registration.column)) := by
  rw [registerCallable_eq]
  simp only [ofArguments?_eq_some_iff, quoting?_eq_some_iff, ← passClassOf_eq_ok_iff]
  constructor
  · intro h
    obtain ⟨table, htable, h⟩ := bind_eq_ok_iff.mp h
    obtain ⟨column, hcolumn, h⟩ := bind_eq_ok_iff.mp h
    obtain ⟨name, hname, h⟩ := bind_eq_ok_iff.mp h
    obtain ⟨passClass, hpass, h⟩ := bind_eq_ok_iff.mp h
    obtain ⟨callable, hcallable, h⟩ := bind_eq_ok_iff.mp h
    obtain ⟨quoting, hquoting, heq⟩ := bind_eq_ok_iff.mp h
    cases heq
    exact ⟨⟨⟨table, column⟩, ⟨callable, passClass⟩, quoting⟩,
      ⟨hshort, hlong, reading_asText_eq_ok_iff.mp htable, reading_asText_eq_ok_iff.mp hcolumn,
        callableOf_eq_ok_iff.mp hcallable, ⟨name, hname, hquoting⟩, hpass⟩, rfl⟩
  · rintro ⟨registration, ⟨-, -, htable, hcolumn, hcallable, ⟨name, hname, hquoting⟩, hpass⟩, rfl⟩
    refine bind_eq_ok_iff.mpr ⟨_, reading_asText_eq_ok_iff.mpr htable, ?_⟩
    refine bind_eq_ok_iff.mpr ⟨_, reading_asText_eq_ok_iff.mpr hcolumn, ?_⟩
    refine bind_eq_ok_iff.mpr ⟨name, hname, ?_⟩
    refine bind_eq_ok_iff.mpr ⟨_, hpass, ?_⟩
    refine bind_eq_ok_iff.mpr ⟨_, callableOf_eq_ok_iff.mpr hcallable, ?_⟩
    exact bind_eq_ok_iff.mpr ⟨_, hquoting, rfl⟩

theorem Outcome.of_refused {turn : Turn} {fault : Fault} (hsnapshot : turn.snapshot? = none)
    (hmasker : turn.masker? = none) (hregistration : turn.registration? = none) :
    Outcome module turn module (.error fault) :=
  .kept hsnapshot hmasker hregistration fun _ => ⟨fault, rfl⟩

theorem Passive.fst_masks (hmodule : module.Passive) (masking : Except Fault Masking) :
    (module.masks masking).1 = module := by
  cases masking with
  | error fault => rfl
  | ok masking => exact hmodule.afterTransforms masking.applied

/-- The functions that load something differ in what they find and where they put it. -/
theorem outcome_of_load {α ε : Type} {turn : Turn} (hlength : arguments.length = 1)
    (find : String → Except ε α) (refusal : ε → Fault) (install : α → Module)
    (hfound : ∀ {found}, ((soleText? arguments).bind fun text => (find text).toOption) = some found →
      Outcome module turn (install found) (.ok (.bool true)))
    (hnone : ((soleText? arguments).bind fun text => (find text).toOption) = none →
      ∀ {fault}, Outcome module turn module (.error fault)) :
    let result : Except Fault (Module × Result) := do
      let text ← reading Value.asText arguments 0
      let found ← (find text).mapError refusal
      return (install found, .bool true)
    Outcome module turn (module.writes result).1 (module.writes result).2 := by
  obtain ⟨value, rfl⟩ := List.length_eq_one_iff.mp hlength
  cases value with
  | text text =>
    have hresult : (do
        let text ← reading Value.asText [.text text] 0
        let found ← (find text).mapError refusal
        return (install found, Result.bool true)) =
      (find text).mapError refusal >>= fun found => .ok (install found, .bool true) := rfl
    intro result
    dsimp only [result]
    rw [hresult]
    cases hfind : find text with
    | ok found => exact hfound (congrArg Except.toOption hfind)
    | error error => exact hnone (congrArg Except.toOption hfind)
  | _ => exact hnone rfl

theorem outcome_of_register (hshort : 3 ≤ arguments.length) (hlong : arguments.length ≤ 5) :
    Outcome module ⟨module.files, .register, arguments⟩
      (module.writes (module.registerCallable arguments)).1
      (module.writes (module.registerCallable arguments)).2 := by
  cases hcall : module.registerCallable arguments with
  | ok outcome =>
    obtain ⟨registration, hregistration, rfl⟩ :=
      (registerCallable_eq_ok_iff hshort hlong).mp hcall
    exact .registered rfl rfl hregistration
  | error fault =>
    have hnone : Registration.ofArguments? arguments = none := by
      apply Option.eq_none_iff_forall_ne_some.mpr
      intro registration hregistration
      have hok : module.registerCallable arguments = .ok _ :=
        (registerCallable_eq_ok_iff hshort hlong).mpr ⟨registration, hregistration, rfl⟩
      rw [hok] at hcall
      cases hcall
    exact .of_refused rfl rfl hnone

/-- A call with too few or too many arguments. -/
theorem outcome_of_arity {operation : Operation} {fault : Fault}
    (harity : arguments.length < operation.arity.1 ∨ operation.arity.2 < arguments.length) :
    Outcome module ⟨module.files, operation, arguments⟩ module (.error fault) := by
  cases operation with
  | loadSchema | loadMasker | setMasker =>
    have hsole : soleText? arguments = none := by
      apply soleText?_of_length_ne_one
      simp only [Operation.arity] at harity
      omega
    exact .of_refused (by simp [Turn.snapshot?, hsole]) (by simp [Turn.masker?, hsole]) rfl
  | register =>
    have hnone : Registration.ofArguments? arguments = none := by
      apply Option.eq_none_iff_forall_ne_some.mpr
      intro registration h
      obtain ⟨hshort, hlong, -⟩ := ofArguments?_eq_some_iff.mp h
      simp only [Operation.arity] at harity
      omega
    exact .of_refused rfl rfl hnone
  | _ => exact .of_refused rfl rfl rfl

/-- **One call.** -/
theorem outcome_of_call (hmodule : module.Passive) (operation : Operation) (arguments : List Value) :
    Outcome module ⟨module.files, operation, arguments⟩ (module.call operation arguments).1
      (module.call operation arguments).2 := by
  unfold Module.call
  split
  · next harity => exact outcome_of_arity harity
  · next harity =>
    simp only [not_or, Nat.not_lt] at harity
    cases operation with
    | escape | unescape | classify | schemaStatus | maskerStatus =>
      exact .kept rfl rfl rfl nofun
    | row | statement | rows =>
      dsimp only
      rw [hmodule.fst_masks]
      exact .kept rfl rfl rfl nofun
    | loadSchema =>
      have hlength : arguments.length = 1 := le_antisymm harity.2 harity.1
      exact outcome_of_load hlength (Schema.load module.files) _ _
        (fun hfound => .schema hfound rfl rfl) fun hnone => .of_refused hnone rfl rfl
    | loadMasker =>
      have hlength : arguments.length = 1 := le_antisymm harity.2 harity.1
      exact outcome_of_load hlength (Masker.ofFile module.files) _ _
        (fun hfound => .masker rfl hfound rfl) fun hnone => .of_refused rfl hnone rfl
    | setMasker =>
      have hlength : arguments.length = 1 := le_antisymm harity.2 harity.1
      exact outcome_of_load hlength Masker.ofDocument _ _
        (fun hfound => .masker rfl hfound rfl) fun hnone => .of_refused rfl hnone rfl
    | register => exact outcome_of_register harity.1 harity.2

end Module

/-! ### Histories -/

/-- The schema that was loaded last. -/
def lastSnapshot? (history : List Turn) : Option Schema.Snapshot :=
  (history.filterMap Turn.snapshot?).getLast?

/-- The masker that was loaded last. -/
def lastMasker? (history : List Turn) : Option Masker :=
  (history.filterMap Turn.masker?).getLast?

/-- What was registered since a masker was loaded, or ever. -/
def registeredSince (history : List Turn) : List Registration :=
  (history.rtakeWhile (·.masker?.isNone)).filterMap Turn.registration?

/-- The masker that was loaded last with the callables registered since. -/
def maskerOf (history : List Turn) : Option Masker :=
  (registeredSince history).foldl Registration.addTo (lastMasker? history)

/-- A column that has a transform after a history. -/
def HasTransform (history : List Turn) (column : ColumnId) : Prop :=
  (∃ base ∈ lastMasker? history, column ∈ base.columns) ∨
    ∃ registration ∈ registeredSince history, registration.column = column

section Concat

variable {history : List Turn} {turn : Turn}

theorem getLast?_filterMap_concat {α β : Type} (f : α → Option β) (items : List α) (last : α) :
    ((items ++ [last]).filterMap f).getLast? = (f last).or (items.filterMap f).getLast? := by
  rw [List.filterMap_append, List.getLast?_append, List.filterMap_cons]
  cases f last <;> rfl

theorem lastSnapshot?_concat :
    lastSnapshot? (history ++ [turn]) = turn.snapshot?.or (lastSnapshot? history) :=
  getLast?_filterMap_concat ..

theorem lastMasker?_concat :
    lastMasker? (history ++ [turn]) = turn.masker?.or (lastMasker? history) :=
  getLast?_filterMap_concat ..

theorem registeredSince_concat_of_none (h : turn.masker? = none) :
    registeredSince (history ++ [turn]) = registeredSince history ++ turn.registration?.toList := by
  rw [registeredSince, List.rtakeWhile_concat, if_pos (Option.isNone_iff_eq_none.mpr h),
    List.filterMap_append, List.filterMap_cons]
  cases turn.registration? <;> rfl

theorem maskerOf_concat_of_none (h : turn.masker? = none) :
    maskerOf (history ++ [turn]) =
      turn.registration?.toList.foldl Registration.addTo (maskerOf history) := by
  rw [maskerOf, registeredSince_concat_of_none h, List.foldl_append, lastMasker?_concat, h,
    Option.none_or, maskerOf]

theorem maskerOf_concat_of_masker {masker : Masker} (h : turn.masker? = some masker) :
    maskerOf (history ++ [turn]) = some masker := by
  have hnot : ¬ turn.masker?.isNone := by simp [h]
  rw [maskerOf, registeredSince, List.rtakeWhile_concat, if_neg hnot, lastMasker?_concat, h]
  rfl

end Concat

namespace Module

/-- The masker and the schema are as a history says, and no callable on record registers anything. -/
structure Follows (module : Module) (history : List Turn) : Prop where
  masker : module.masker = maskerOf history
  schema : module.schema = lastSnapshot? history
  passive : module.Passive

variable {module : Module} {history : List Turn} {turn : Turn}

/-- The module after a call. -/
def after (module : Module) (turn : Turn) : Module :=
  ({ module with files := turn.files }.call turn.operation turn.arguments).1

/-- The module after several calls. -/
def run (module : Module) (turns : List Turn) : Module :=
  turns.foldl Module.after module

/-- The module before anything is loaded. -/
def blank (files : FileStore) : Module :=
  ⟨files, none, [], none⟩

/-- The calls that an import amounts to. -/
def Environment.turns (environment : Environment) (files : FileStore) : List Turn :=
  environment.schemaPath.toList.map (⟨files, .loadSchema, [.text ·]⟩) ++
    environment.rulesPath.toList.map (⟨files, .loadMasker, [.text ·]⟩)

theorem follows_blank (files : FileStore) : (blank files).Follows [] :=
  ⟨rfl, rfl, List.forall_mem_nil _⟩

theorem Passive.register (h : module.Passive) (column : ColumnId) {registered : Registered}
    (hregistered : registered.callable.registers = []) (quoting : Quoting) :
    (module.register column registered quoting).Passive := by
  intro entry hentry
  obtain rfl | hentry := Assoc.mem_of_mem_insert hentry
  · exact hregistered
  · exact h entry hentry

theorem registers_of_registration? (hturn : turn.Passive) {registration : Registration}
    (h : turn.registration? = some registration) :
    registration.registered.callable.registers = [] := by
  apply hturn
  unfold Turn.registration? at h
  split at h
  · obtain ⟨hshort, -, -, -, hcallable, -⟩ := ofArguments?_eq_some_iff.mp h
    rw [argument, List.getD_eq_getElem?_getD, List.getElem?_eq_getElem hshort] at hcallable
    rw [← hcallable]
    exact List.getElem_mem hshort
  · cases h

theorem Follows.after (h : module.Follows history) (hturn : turn.Passive) :
    (module.after turn).Follows (history ++ [turn]) := by
  have hpassive : ({ module with files := turn.files } : Module).Passive := h.passive
  have houtcome := outcome_of_call hpassive turn.operation turn.arguments
  rw [Module.after]
  generalize { module with files := turn.files }.call turn.operation turn.arguments = called
    at houtcome ⊢
  obtain ⟨out, answer⟩ := called
  dsimp only at houtcome ⊢
  cases houtcome with
  | schema hsnapshot hmasker hregistration =>
    refine ⟨?_, ?_, h.passive⟩
    · rw [maskerOf_concat_of_none hmasker, hregistration]
      exact h.masker
    · rw [lastSnapshot?_concat, hsnapshot]
      rfl
  | masker hsnapshot hmasker hregistration =>
    refine ⟨?_, ?_, List.forall_mem_nil _⟩
    · rw [maskerOf_concat_of_masker hmasker]
      rfl
    · rw [lastSnapshot?_concat, hsnapshot]
      exact h.schema
  | @registered registration hsnapshot hmasker hregistration =>
    refine ⟨?_, ?_, h.passive.register registration.column
      (registers_of_registration? hturn hregistration) registration.quoting⟩
    · rw [maskerOf_concat_of_none hmasker, hregistration, ← h.masker]
      rfl
    · rw [lastSnapshot?_concat, hsnapshot]
      exact h.schema
  | kept hsnapshot hmasker hregistration =>
    refine ⟨?_, ?_, h.passive⟩
    · rw [maskerOf_concat_of_none hmasker, hregistration]
      exact h.masker
    · rw [lastSnapshot?_concat, hsnapshot]
      exact h.schema

theorem Follows.run (h : module.Follows history) {turns : List Turn}
    (hturns : ∀ turn ∈ turns, turn.Passive) : (module.run turns).Follows (history ++ turns) := by
  induction turns generalizing module history with
  | nil =>
    rw [List.append_nil]
    exact h
  | cons turn rest ih =>
    obtain ⟨hturn, hrest⟩ := List.forall_mem_cons.mp hturns
    rw [List.append_cons]
    exact ih (h.after hturn) hrest

theorem after_loadSchema (files : FileStore) (path : String) :
    (blank files).after ⟨files, .loadSchema, [.text path]⟩ =
      ⟨files, none, [], (Schema.load files path).toOption⟩ := by
  have hafter : (blank files).after ⟨files, .loadSchema, [.text path]⟩ =
      ((blank files).writes ((Schema.load files path).mapError (.refused ∘ .schema) >>=
        fun snapshot => .ok (⟨files, none, [], some snapshot⟩, .bool true))).1 := rfl
  rw [hafter]
  cases Schema.load files path <;> rfl

theorem after_loadMasker (files : FileStore) (schema : Option Schema.Snapshot) (path : String) :
    (⟨files, none, [], schema⟩ : Module).after ⟨files, .loadMasker, [.text path]⟩ =
      ⟨files, (Masker.ofFile files path).toOption, [], schema⟩ := by
  have hafter : (⟨files, none, [], schema⟩ : Module).after ⟨files, .loadMasker, [.text path]⟩ =
      (writes ⟨files, none, [], schema⟩ ((Masker.ofFile files path).mapError (.refused ∘ .rules) >>=
        fun masker => .ok (setMasker ⟨files, none, [], schema⟩ masker, .bool true))).1 := rfl
  rw [hafter]
  cases Masker.ofFile files path <;> rfl

theorem load_eq_run (files : FileStore) (environment : Environment) :
    load files environment = (blank files).run (environment.turns files) := by
  obtain ⟨schemaPath, rulesPath⟩ := environment
  cases schemaPath with
  | none =>
    cases rulesPath with
    | none => rfl
    | some path => exact (after_loadMasker files none path).symm
  | some schemaPath =>
    have hschema := after_loadSchema files schemaPath
    cases rulesPath with
    | none => exact hschema.symm
    | some path =>
      have hmasker := after_loadMasker files (Schema.load files schemaPath).toOption path
      rw [← hschema] at hmasker
      exact hmasker.symm

theorem passive_of_mem_turns {environment : Environment} {files : FileStore}
    (h : turn ∈ environment.turns files) : turn.Passive := by
  intro callable hcallable
  obtain h | h := List.mem_append.mp h
  all_goals
    obtain ⟨path, -, rfl⟩ := List.mem_map.mp h
    cases List.mem_singleton.mp hcallable

theorem follows_load (files : FileStore) (environment : Environment) :
    (load files environment).Follows (environment.turns files) := by
  rw [load_eq_run]
  exact (follows_blank files).run fun turn => passive_of_mem_turns

/-! ### What the status tells -/

end Module

section Extension

variable {base : Option Masker} {registrations : List Registration} {history : List Turn}

/-- The columns of a masker, if there is one. -/
def columnsOf (masker : Option Masker) : List ColumnId :=
  (masker.map Masker.columns).getD []

/-- The threshold of a masker, or the one that a new masker gets. -/
def thresholdOf (masker : Option Masker) : Threshold :=
  (masker.map Masker.threshold).getD .standard

theorem columnsOf_addTo (masker : Option Masker) (registration : Registration) :
    columnsOf (registration.addTo masker) =
      Assoc.keys (Assoc.insert registration.column registration.transform
        (masker.getD (.empty .standard)).transforms) := rfl

theorem columnsOf_eq (masker : Option Masker) :
    columnsOf masker = Assoc.keys (masker.getD (.empty .standard)).transforms := by
  cases masker <;> rfl

theorem mem_columnsOf_foldl {column : ColumnId} :
    column ∈ columnsOf (registrations.foldl Registration.addTo base) ↔
      column ∈ columnsOf base ∨ ∃ registration ∈ registrations, registration.column = column := by
  induction registrations generalizing base with
  | nil => simp
  | cons registration rest ih =>
    rw [List.foldl_cons, ih, columnsOf_addTo, Assoc.mem_keys_insert, ← columnsOf_eq]
    simp only [List.exists_mem_cons_iff]
    grind

theorem nodup_columnsOf_foldl (h : (columnsOf base).Nodup) :
    (columnsOf (registrations.foldl Registration.addTo base)).Nodup := by
  refine List.foldlRecOn (motive := fun masker => (columnsOf masker).Nodup) _ _ h ?_
  intro masker hmasker registration _
  rw [columnsOf_eq] at hmasker
  exact Assoc.nodup_keys_insert hmasker _ _

theorem thresholdOf_foldl :
    thresholdOf (registrations.foldl Registration.addTo base) = thresholdOf base := by
  refine List.foldlRecOn (motive := fun masker => thresholdOf masker = thresholdOf base) _ _ rfl ?_
  rintro masker hmasker registration -
  rw [← hmasker]
  cases masker <;> rfl

theorem exists_ofRules_of_masker? {turn : Turn} {masker : Masker} (h : turn.masker? = some masker) :
    ∃ rules, Masker.ofRules rules = .ok masker := by
  unfold Turn.masker? at h
  split at h
  · obtain ⟨path, -, hfile⟩ := Option.bind_eq_some_iff.mp h
    have hfile := eq_ok_of_toOption hfile
    unfold Masker.ofFile at hfile
    split at hfile
    · exact Masker.exists_ofRules hfile
    · cases hfile
  · obtain ⟨document, -, hdocument⟩ := Option.bind_eq_some_iff.mp h
    exact Masker.exists_ofRules (eq_ok_of_toOption hdocument)
  · cases h

theorem nodup_columnsOf_maskerOf : (columnsOf (maskerOf history)).Nodup := by
  apply nodup_columnsOf_foldl
  cases hlast : lastMasker? history with
  | none => exact List.nodup_nil
  | some masker =>
    obtain ⟨turn, -, hturn⟩ := List.mem_filterMap.mp (List.mem_of_getLast? hlast)
    obtain ⟨rules, hrules⟩ := exists_ofRules_of_masker? hturn
    exact Masker.nodup_columns hrules

theorem mem_columnsOf_maskerOf {column : ColumnId} :
    column ∈ columnsOf (maskerOf history) ↔ HasTransform history column := by
  rw [maskerOf, mem_columnsOf_foldl, HasTransform]
  cases lastMasker? history <;> simp [columnsOf]

theorem maskerOf_eq_none_iff :
    maskerOf history = none ↔ lastMasker? history = none ∧ registeredSince history = [] := by
  rw [maskerOf]
  cases registeredSince history with
  | nil => simp
  | cons registration rest =>
    have hsome : ∀ (registrations : List Registration) (masker : Masker),
        registrations.foldl Registration.addTo (some masker) ≠ none := by
      intro registrations masker
      refine List.foldlRecOn (motive := (· ≠ none)) _ _ nofun ?_
      intro _ _ _ _
      exact nofun
    simp only [List.foldl_cons, Registration.addTo, hsome, reduceCtorEq, and_false]

end Extension

/-- What is true of a call after a history: failures, readers and masking functions change nothing; the
other functions succeed exactly where there is something to load or to register; the schema changes
by loading one; and registering tells whether the column already had a transform. -/
structure LawfulCall (history : List Turn) (before : Module) (turn : Turn) (after : Module)
    (answer : Except Fault Result) : Prop where
  kept_of_error : (∃ fault, answer = .error fault) → after = before
  kept_of_reads : turn.operation.writes = false → after = before
  ok_iff : turn.operation.writes = true → ((∃ result, answer = .ok result) ↔
    turn.snapshot?.isSome ∨ turn.masker?.isSome ∨ turn.registration?.isSome)
  schema : after.schema ≠ before.schema →
    turn.operation = .loadSchema ∧ answer = .ok (.bool true) ∧ after.schema = turn.snapshot?
  register : turn.operation = .register → ∀ result, answer = .ok result →
    ∃ registration replaced, turn.registration? = some registration ∧ result = .bool replaced ∧
      (replaced = true ↔ HasTransform history registration.column)

namespace Module

variable {module : Module} {history : List Turn}

theorem pairwise_sortTexts (texts : List String) : (Masker.sortTexts texts).Pairwise (· ≤ ·) := by
  have hsorted : (Masker.sortTexts texts).Pairwise fun left right => decide (left ≤ right) := by
    apply List.pairwise_mergeSort
    · intro first second third hfirst hsecond
      rw [decide_eq_true_eq] at *
      exact String.le_trans hfirst hsecond
    · intro first second
      simpa using String.le_total first second
  exact hsorted.imp decide_eq_true_iff.mp

/-- A status lists the columns that have a transform, each once, in the order of the shown texts. -/
theorem Follows.status (h : module.Follows history) :
    ∃ status, (module.call .maskerStatus []).2 = .ok (.maskerStatus status) ∧
      (status = none ↔ lastMasker? history = none ∧ registeredSince history = []) ∧
      ∀ threshold shown, status = some (threshold, shown) →
        threshold = (thresholdOf (lastMasker? history)).length ∧
        ∃ columns : List ColumnId, columns.Nodup ∧
          (∀ column, column ∈ columns ↔ HasTransform history column) ∧
          shown.Perm (columns.map ColumnId.label) ∧ shown.Pairwise (· ≤ ·) := by
  refine ⟨_, rfl, ?_, ?_⟩
  · rw [h.masker, Option.map_eq_none_iff, maskerOf_eq_none_iff]
  · intro threshold shown hstatus
    obtain ⟨masker, hmasker, heq⟩ := Option.map_eq_some_iff.mp hstatus
    cases heq
    rw [h.masker] at hmasker
    have hcolumns : masker.columns = columnsOf (maskerOf history) := by
      rw [hmasker]
      rfl
    have hthreshold : masker.threshold = thresholdOf (maskerOf history) := by
      rw [hmasker]
      rfl
    refine ⟨?_, masker.columns, ?_, ?_, ?_, ?_⟩
    · rw [hthreshold, maskerOf, thresholdOf_foldl]
    · rw [hcolumns]
      exact nodup_columnsOf_maskerOf
    · intro column
      rw [hcolumns]
      exact mem_columnsOf_maskerOf
    · exact List.mergeSort_perm _ _
    · exact pairwise_sortTexts _

theorem Follows.isRegistered_iff (h : module.Follows history) (column : ColumnId) :
    module.isRegistered column ↔ HasTransform history column := by
  rw [← mem_columnsOf_maskerOf, ← h.masker, isRegistered]
  cases module.masker with
  | none => simp [columnsOf]
  | some masker => exact Assoc.find?_isSome_iff column masker.transforms

theorem Follows.lawfulCall (h : module.Follows history) (operation : Operation)
    (arguments : List Value) :
    LawfulCall history module ⟨module.files, operation, arguments⟩
      (module.call operation arguments).1 (module.call operation arguments).2 := by
  have houtcome := outcome_of_call h.passive operation arguments
  generalize module.call operation arguments = called at houtcome ⊢
  obtain ⟨after, answer⟩ := called
  dsimp only at houtcome ⊢
  cases houtcome with
  | schema hsnapshot hmasker hregistration =>
    obtain rfl : operation = .loadSchema := Turn.operation_of_snapshot? hsnapshot
    exact {
      kept_of_error := nofun
      kept_of_reads := nofun
      ok_iff := fun _ => ⟨fun _ => .inl (Option.isSome_of_mem hsnapshot), fun _ => ⟨_, rfl⟩⟩
      schema := fun _ => ⟨rfl, rfl, hsnapshot.symm⟩
      register := nofun }
  | masker hsnapshot hmasker hregistration =>
    have hwrites := Turn.writes_of_masker? hmasker
    exact {
      kept_of_error := nofun
      kept_of_reads := fun hreads => absurd (hwrites.symm.trans hreads) nofun
      ok_iff := fun _ => ⟨fun _ => .inr (.inl (Option.isSome_of_mem hmasker)), fun _ => ⟨_, rfl⟩⟩
      schema := fun hschema => absurd rfl hschema
      register := by
        rintro rfl
        cases hmasker }
  | @registered registration hsnapshot hmasker hregistration =>
    obtain rfl : operation = .register := Turn.operation_of_registration? hregistration
    exact {
      kept_of_error := nofun
      kept_of_reads := nofun
      ok_iff := fun _ =>
        ⟨fun _ => .inr (.inr (Option.isSome_of_mem hregistration)), fun _ => ⟨_, rfl⟩⟩
      schema := fun hschema => absurd rfl hschema
      register := by
        rintro - result ⟨⟩
        exact ⟨registration, _, hregistration, rfl, h.isRegistered_iff registration.column⟩ }
  | kept hsnapshot hmasker hregistration hanswer =>
    exact {
      kept_of_error := fun _ => rfl
      kept_of_reads := fun _ => rfl
      ok_iff := by
        intro hwrites
        obtain ⟨fault, rfl⟩ := hanswer hwrites
        rw [hsnapshot, hmasker, hregistration]
        simp
      schema := fun hschema => absurd rfl hschema
      register := by
        rintro rfl result rfl
        obtain ⟨fault, hfault⟩ := hanswer rfl
        cases hfault }

end Module

/-- **The module follows its history.** However files change between the calls, and as long as
callables register nothing themselves: an import amounts to the two calls that load its files; the
schema is the last one loaded; the masker is the last one loaded with the callables registered since,
and the status lists its columns; and every further call is lawful. -/
theorem module_follows_history (files : FileStore) (environment : Module.Environment)
    (turns : List Turn) (hturns : ∀ turn ∈ turns, turn.Passive) :
    let history := environment.turns files ++ turns
    let module := (Module.load files environment).run turns
    Module.load files environment = (Module.blank files).run (environment.turns files) ∧
    module.schema = lastSnapshot? history ∧
    module.masker = maskerOf history ∧
    (∃ status, (module.call .maskerStatus []).2 = .ok (.maskerStatus status) ∧
      (status = none ↔ lastMasker? history = none ∧ registeredSince history = []) ∧
      ∀ threshold shown, status = some (threshold, shown) →
        threshold = (thresholdOf (lastMasker? history)).length ∧
        ∃ columns : List ColumnId, columns.Nodup ∧
          (∀ column, column ∈ columns ↔ HasTransform history column) ∧
          shown.Perm (columns.map ColumnId.label) ∧ shown.Pairwise (· ≤ ·)) ∧
    ∀ turn : Turn,
      let before := { module with files := turn.files }
      let called := before.call turn.operation turn.arguments
      LawfulCall history before turn called.1 called.2 := by
  intro history module
  have hmodule : module.Follows history := (Module.follows_load files environment).run hturns
  refine ⟨Module.load_eq_run files environment, hmodule.schema, hmodule.masker, hmodule.status, ?_⟩
  intro turn before called
  have hbefore : before.Follows history := ⟨hmodule.masker, hmodule.schema, hmodule.passive⟩
  exact hbefore.lawfulCall turn.operation turn.arguments

/-- A schema that is missing, a masker from a file, and of the calls after the import only one that
changes anything: a callable for a second column. -/
theorem module_follows_history_replaced :
    let rules := "\x7b\"threshold\":5,\"tables\":\x7b\"t\":\x7b\"a\":\x7b\"mode\":\"null\"\x7d\x7d\x7d\x7d"
    let files : FileStore := ⟨[("rules", ⟨Utf8.encode rules, 0⟩)]⟩
    let environment : Module.Environment := ⟨some "schema", some "rules"⟩
    let callable := Callable.constant (.text "x")
    let registering (column : String) (options : List Value) : Turn :=
      ⟨.empty, .register, .text "t" :: .text column :: .callable callable :: options⟩
    let turns : List Turn := [⟨files, .setMasker, [.text "\x7b"]⟩, registering "b" [],
      registering "c" [.text "loud"]]
    let history := environment.turns files ++ turns
    let module := (Module.load files environment).run turns
    module.masker = maskerOf history ∧
    (module.call .maskerStatus []).2 = .ok (.maskerStatus (some (5, ["t.a", "t.b"]))) ∧
    HasTransform history ⟨"t", "b"⟩ ∧ ¬ HasTransform history ⟨"t", "c"⟩ := by
  intro rules files environment callable registering turns history module
  have hregistering (column : String) (options : List Value)
      (hoptions : ∀ callable, Value.callable callable ∉ options) :
      (registering column options).Passive := by
    intro other hother
    simp only [registering, List.mem_cons, reduceCtorEq, false_or] at hother
    obtain hother | hother := hother
    · cases hother
      rfl
    · exact absurd hother (hoptions other)
  have hturns : ∀ turn ∈ turns, turn.Passive := by
    simp only [turns, List.forall_mem_cons]
    refine ⟨?_, hregistering _ _ (by simp), hregistering _ _ (by simp), List.forall_mem_nil _⟩
    intro other hother
    cases List.mem_singleton.mp hother
  obtain ⟨-, -, hmasker, -, hcall⟩ := module_follows_history files environment turns hturns
  have hstatus : module.masker.map (fun masker => (masker.threshold.length, masker.columns)) =
      some (5, [⟨"t", "a"⟩, ⟨"t", "b"⟩]) := by decide +kernel
  have hsecond : module.isRegistered ⟨"t", "b"⟩ = true := by decide +kernel
  have hthird : module.isRegistered ⟨"t", "c"⟩ = false := by decide +kernel
  have hanswer (column : String) :
      (({ module with files := .empty } : Module).call .register
        (registering column []).arguments).2 = .ok (.bool (module.isRegistered ⟨"t", column⟩)) := rfl
  refine ⟨hmasker, ?_, ?_, ?_⟩
  · obtain ⟨masker, hsome, hpair⟩ := Option.map_eq_some_iff.mp hstatus
    obtain ⟨hthreshold, hcolumns⟩ := Prod.mk.inj hpair
    have hlabels : masker.labels = ["t.a", "t.b"] := by
      rw [Masker.labels, hcolumns]
      exact List.mergeSort_of_pairwise (by decide)
    have hcalled : (module.call .maskerStatus []).2 = .ok (.maskerStatus
        (module.masker.map fun masker => (masker.threshold.length, masker.labels))) := rfl
    rw [hcalled, hsome, Option.map_some, hthreshold, hlabels]
  · obtain ⟨registration, replaced, hregistration, hresult, hreplaced⟩ :=
      (hcall (registering "b" [])).register rfl _ (hanswer "b")
    cases hregistration
    cases hresult
    exact hreplaced.mp hsecond
  · obtain ⟨registration, replaced, hregistration, hresult, hreplaced⟩ :=
      (hcall (registering "c" [])).register rfl _ (hanswer "c")
    cases hregistration
    cases hresult
    rw [← hreplaced, hthird]
    exact Bool.false_ne_true

end DumpMask.Scripting
