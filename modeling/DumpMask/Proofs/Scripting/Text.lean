import DumpMask.Proofs.Masker.Configured
import DumpMask.Scripting.Module

/-!
# Text in, text out

A script gets text back for text as long as the transforms keep text. Those of rules do; a callable
may reply anything. Whatever a script calls and however files change between its calls, the columns
of callables are on record, so without any on record all transforms come from rules. Main statement:
rules keep text, so do the maskers they describe, and so does a module without callables.
-/

namespace DumpMask.Scripting

open Utf8 (isValid)

/-- The modules that calls lead to, with files changing between the calls. -/
inductive Module.Reachable : Module → Prop
  | load (files : FileStore) (environment : Module.Environment) :
    Reachable (Module.load files environment)
  | call {module : Module} (h : Reachable module) (operation : Operation) (arguments : List Value) :
    Reachable (module.call operation arguments).1
  | change {module : Module} (h : Reachable module) (files : FileStore) :
    Reachable { module with files }

namespace Module

variable {module : Module} {arguments : List Value}

/-- A transform that does not keep text belongs to a callable that is on record. -/
def TracksCallables (module : Module) : Prop :=
  ∀ masker ∈ module.masker, ∀ column transform, masker.resolve? column = some transform →
    Assoc.find? column module.callables = none → transform.KeepsText

theorem TracksCallables.keepsText (h : module.TracksCallables) (hcallables : module.callables = [])
    {masker : Masker} (hmasker : module.masker = some masker) : masker.KeepsText := by
  intro column transform hresolve
  apply h masker hmasker column transform hresolve
  rw [hcallables]
  rfl

/-! ### What calls do to the record -/

theorem TracksCallables.register (h : module.TracksCallables) (column : ColumnId)
    (registered : Registered) (quoting : Quoting) :
    (module.register column registered quoting).TracksCallables := by
  intro masker hmasker other transform hresolve hfind
  cases hmasker
  rw [Module.register, Assoc.find?_insert] at hfind
  split at hfind
  · cases hfind
  · next hne =>
    rw [Masker.resolve?_register, if_neg hne] at hresolve
    cases hold : module.masker with
    | none =>
      rw [hold] at hresolve
      cases hresolve
    | some masker =>
      rw [hold] at hresolve
      exact h masker hold other transform hresolve hfind

theorem TracksCallables.runEffects (h : module.TracksCallables) (registered : Registered) :
    (module.runEffects registered).TracksCallables := by
  rw [Module.runEffects]
  split
  · exact List.foldlRecOn _ _ h fun module h entry _ => h.register entry.1 ⟨entry.2, false⟩ .asInput
  · exact h

theorem TracksCallables.afterTransforms (h : module.TracksCallables) (columns : List ColumnId) :
    (module.afterTransforms columns).TracksCallables := by
  refine List.foldlRecOn _ _ h fun current h column _ => ?_
  split
  · exact h.runEffects _
  · exact h

theorem tracksCallables_setMasker {masker : Masker} (h : masker.KeepsText) :
    (module.setMasker masker).TracksCallables := by
  intro other hother column transform hresolve _
  cases hother
  exact h column transform hresolve

theorem keepsText_of_ofFile {files : FileStore} {path : String} {masker : Masker}
    (h : Masker.ofFile files path = .ok masker) : masker.KeepsText := by
  unfold Masker.ofFile at h
  split at h
  · exact Masker.keepsText_of_ofDocument h
  · cases h

theorem TracksCallables.writes (h : module.TracksCallables)
    {result : Except Fault (Module × Result)}
    (hresult : ∀ {after answer}, result = .ok (after, answer) → after.TracksCallables) :
    (module.writes result).1.TracksCallables := by
  cases result with
  | error fault => exact h
  | ok pair => exact hresult rfl

theorem TracksCallables.masks (h : module.TracksCallables) (masking : Except Fault Masking) :
    (module.masks masking).1.TracksCallables := by
  cases masking with
  | error fault => exact h
  | ok masking => exact h.afterTransforms masking.applied

theorem TracksCallables.call (h : module.TracksCallables) (operation : Operation)
    (arguments : List Value) : (module.call operation arguments).1.TracksCallables := by
  unfold Module.call
  split
  · exact h
  · cases operation with
    | escape | unescape | classify | schemaStatus | maskerStatus => exact h
    | loadSchema =>
      refine h.writes fun hload => ?_
      obtain ⟨path, -, hload⟩ := bind_eq_ok_iff.mp hload
      obtain ⟨snapshot, -, heq⟩ := bind_eq_ok_iff.mp hload
      cases heq
      exact h
    | loadMasker =>
      refine h.writes fun hload => ?_
      obtain ⟨path, -, hload⟩ := bind_eq_ok_iff.mp hload
      obtain ⟨masker, hmasker, heq⟩ := bind_eq_ok_iff.mp hload
      cases heq
      exact tracksCallables_setMasker (keepsText_of_ofFile (mapError_eq_ok_iff.mp hmasker))
    | setMasker =>
      refine h.writes fun hload => ?_
      obtain ⟨text, -, hload⟩ := bind_eq_ok_iff.mp hload
      obtain ⟨masker, hmasker, heq⟩ := bind_eq_ok_iff.mp hload
      cases heq
      exact tracksCallables_setMasker
        (Masker.keepsText_of_ofDocument (mapError_eq_ok_iff.mp hmasker))
    | register =>
      refine h.writes fun hregister => ?_
      obtain ⟨table, -, hregister⟩ := bind_eq_ok_iff.mp hregister
      obtain ⟨column, -, hregister⟩ := bind_eq_ok_iff.mp hregister
      obtain ⟨quoting, -, hregister⟩ := bind_eq_ok_iff.mp hregister
      dsimp only at hregister
      split at hregister
      all_goals
        obtain ⟨passClass, -, hregister⟩ := bind_eq_ok_iff.mp hregister
        obtain ⟨callable, -, hregister⟩ := bind_eq_ok_iff.mp hregister
        obtain ⟨quoting, -, heq⟩ := bind_eq_ok_iff.mp hregister
        cases heq
        exact h.register ⟨table, column⟩ ⟨callable, passClass⟩ quoting
    | row | statement | rows => exact h.masks _

theorem Reachable.tracksCallables (h : module.Reachable) : module.TracksCallables := by
  induction h with
  | load files environment =>
    intro masker hmasker column transform hresolve _
    obtain ⟨path, -, hfile⟩ := Option.bind_eq_some_iff.mp hmasker
    exact keepsText_of_ofFile (eq_ok_of_toOption hfile) column transform hresolve
  | call h operation arguments ih => exact ih.call operation arguments
  | change h files ih => exact ih

/-! ### What calls give back -/

/-- What a function answers where it takes the arguments. -/
def answer (module : Module) (operation : Operation) (arguments : List Value) :
    Except Fault Result :=
  match operation with
  | .escape => escape arguments
  | .unescape => unescape arguments
  | .classify => module.classify arguments
  | .schemaStatus => .ok (.schemaStatus module.schema)
  | .maskerStatus => .ok module.maskerStatus
  | .loadSchema => Prod.snd <$> module.loadSchema arguments
  | .loadMasker => Prod.snd <$> module.loadMasker arguments
  | .setMasker => Prod.snd <$> module.setMaskerDocument arguments
  | .register => Prod.snd <$> module.registerCallable arguments
  | .row => module.row arguments >>= Masking.result
  | .statement => module.statement arguments >>= Masking.result
  | .rows => module.rows arguments >>= Masking.result

theorem snd_writes (result : Except Fault (Module × Result)) :
    (module.writes result).2 = Prod.snd <$> result := by
  cases result <;> rfl

theorem snd_masks (masking : Except Fault Masking) :
    (module.masks masking).2 = masking >>= Masking.result := by
  cases masking <;> rfl

theorem snd_call (operation : Operation) (arguments : List Value) :
    (module.call operation arguments).2 =
      if arguments.length < operation.arity.1 ∨ operation.arity.2 < arguments.length then
        .error (.argument .wrongType)
      else module.answer operation arguments := by
  unfold Module.call
  split
  · rfl
  · cases operation with
    | escape | unescape | classify | schemaStatus | maskerStatus => rfl
    | loadSchema | loadMasker | setMasker | register => exact snd_writes _
    | row | statement | rows => exact snd_masks _

theorem answer_of_call {operation : Operation} {result : Result}
    (h : (module.call operation arguments).2 = .ok result) :
    module.answer operation arguments = .ok result := by
  rw [snd_call] at h
  split at h
  · cases h
  · exact h

theorem escape_of_text (line : String) :
    escape [.text line] =
      match Utf8.decode (Literal.escape (Utf8.encode line)) with
      | some text => .ok (.text text)
      | none => refuse .notText := rfl

theorem unescape_of_text (line : String) :
    unescape [.text line] =
      match Literal.unescape (Utf8.encode line) with
      | .error fault => refuse (.literal fault)
      | .ok octets =>
        match Utf8.decode octets with
        | some text => .ok (.text text)
        | none => refuse .notText := rfl

theorem escape_text (line : String) : ∃ text, escape [.text line] = .ok (.text text) := by
  have hvalid := Literal.isValid_escape (Utf8.isValid_encode line)
  obtain ⟨text, hdecode⟩ := Option.isSome_iff_exists.mp hvalid
  refine ⟨text, ?_⟩
  rw [escape_of_text, hdecode]

theorem unescape_text (line : String) :
    (∃ text, unescape [.text line] = .ok (.text text)) ∨
      ∃ fault, unescape [.text line] = refuse (.literal fault) := by
  rw [unescape_of_text]
  cases hoctets : Literal.unescape (Utf8.encode line) with
  | error fault => exact .inr ⟨fault, rfl⟩
  | ok octets =>
    have hvalid := (Literal.edits_of_unescapeFrom hoctets).isValid (Utf8.isValid_encode line)
    obtain ⟨text, hdecode⟩ := Option.isSome_iff_exists.mp hvalid
    refine .inl ⟨text, ?_⟩
    dsimp only
    rw [hdecode]

theorem result_of_isValid {octets : Bytes} (line : String) (h : isValid octets) :
    ∃ text, Input.result ⟨Utf8.encode line, true⟩ octets = .text text := by
  obtain ⟨text, hdecode⟩ := Option.isSome_iff_exists.mp h
  refine ⟨text, ?_⟩
  rw [Input.result, if_pos rfl, hdecode]

theorem collectBatch_eq_ok {index : Nat} {batch : List (Input × Except RowError Bytes)}
    {results : List Result} (h : collectBatch index batch = .ok results) :
    results.length = batch.length ∧
      ∀ (i : Nat) (input : Input) (row : Except RowError Bytes), batch[i]? = some (input, row) →
        ∃ octets, row = .ok octets ∧ results[i]? = some (input.result octets) := by
  induction batch generalizing index results with
  | nil =>
    cases h
    exact ⟨rfl, nofun⟩
  | cons entry rest ih =>
    obtain ⟨first, row⟩ := entry
    cases row with
    | error error => cases h
    | ok octets =>
      obtain ⟨others, hothers, rfl⟩ := map_eq_ok_iff.mp h
      obtain ⟨hlength, hrest⟩ := ih hothers
      refine ⟨congrArg Nat.succ hlength, ?_⟩
      intro i input row hi
      cases i with
      | zero =>
        cases hi
        exact ⟨octets, rfl, rfl⟩
      | succ i => exact hrest i input row hi

section Masking

variable (hmodule : module.TracksCallables) (hcallables : module.callables = [])
include hmodule hcallables

theorem keepsText_of_masker? {masker : Masker} (h : module.masker? = .ok masker) :
    masker.KeepsText := by
  unfold Module.masker? at h
  split at h
  · next found hfound =>
    cases h
    exact hmodule.keepsText hcallables hfound
  · cases h

theorem row_text {table names : Value} {line : String} {result : Result}
    (h : (module.call .row [table, names, .text line]).2 = .ok result) :
    ∃ text, result = .text text := by
  obtain ⟨masking, hmasking, hresult⟩ := bind_eq_ok_iff.mp (answer_of_call h)
  obtain ⟨table, -, hmasking⟩ := bind_eq_ok_iff.mp hmasking
  obtain ⟨names, -, hmasking⟩ := bind_eq_ok_iff.mp hmasking
  obtain ⟨input, hinput, hmasking⟩ := bind_eq_ok_iff.mp hmasking
  obtain ⟨masker, hmasker, hmasking⟩ := bind_eq_ok_iff.mp hmasking
  cases hinput
  cases hmasking
  obtain ⟨out, hout, rfl⟩ := map_eq_ok_iff.mp (mapError_eq_ok_iff.mp hresult)
  have hkeeps := keepsText_of_masker? hmodule hcallables hmasker
  exact result_of_isValid line (Masker.isValid_of_row hkeeps hout (Utf8.isValid_encode line))

theorem statement_text {line : String} {more : List Value} {result : Result}
    (h : (module.call .statement (.text line :: more)).2 = .ok result) :
    ∃ text, result = .text text := by
  obtain ⟨masking, hmasking, hresult⟩ := bind_eq_ok_iff.mp (answer_of_call h)
  obtain ⟨names, -, hmasking⟩ := bind_eq_ok_iff.mp hmasking
  obtain ⟨input, hinput, hmasking⟩ := bind_eq_ok_iff.mp hmasking
  obtain ⟨masker, hmasker, hmasking⟩ := bind_eq_ok_iff.mp hmasking
  cases hinput
  have hkeeps := keepsText_of_masker? hmodule hcallables hmasker
  have hline := Utf8.isValid_encode line
  cases names with
  | some names =>
    cases hmasking
    obtain ⟨out, hout, rfl⟩ := map_eq_ok_iff.mp (mapError_eq_ok_iff.mp hresult)
    exact result_of_isValid line (Masker.isValid_of_statementNamed hkeeps hout hline)
  | none =>
    cases hschema : module.schema with
    | none =>
      rw [hschema] at hmasking
      cases hmasking
    | some snapshot =>
      rw [hschema] at hmasking
      cases hmasking
      obtain ⟨out, hout, rfl⟩ := map_eq_ok_iff.mp (mapError_eq_ok_iff.mp hresult)
      exact result_of_isValid line (Masker.isValid_of_statementWithSchema hkeeps hout hline)

theorem rows_text {table names : Value} {items : List Value} {result : Result}
    (h : (module.call .rows [table, names, .list items]).2 = .ok result) :
    ∃ results, result = .list results ∧ results.length = items.length ∧
      ∀ (i : Nat) (line : String), items[i]? = some (.text line) →
        ∃ text, results[i]? = some (.text text) := by
  obtain ⟨masking, hmasking, hresult⟩ := bind_eq_ok_iff.mp (answer_of_call h)
  obtain ⟨table, -, hmasking⟩ := bind_eq_ok_iff.mp hmasking
  obtain ⟨names, -, hmasking⟩ := bind_eq_ok_iff.mp hmasking
  obtain ⟨items', hitems, hmasking⟩ := bind_eq_ok_iff.mp hmasking
  cases hitems
  obtain ⟨inputs, hinputs, hmasking⟩ := bind_eq_ok_iff.mp hmasking
  obtain ⟨masker, hmasker, hmasking⟩ := bind_eq_ok_iff.mp hmasking
  cases hmasking
  obtain ⟨results, hbatch, rfl⟩ := map_eq_ok_iff.mp hresult
  obtain ⟨hlength, hresults⟩ := collectBatch_eq_ok hbatch
  rw [mapM_eq_ok_iff] at hinputs
  have hcount : inputs.length = items.length := by
    simpa using congrArg List.length hinputs
  refine ⟨results, rfl, ?_, ?_⟩
  · rw [hlength, List.length_zip, Masker.rows, List.length_map, List.length_map, Nat.min_self,
      hcount]
  · intro i line hline
    have hinput : inputs[i]? = some ⟨Utf8.encode line, true⟩ := by
      have hread := congrArg (·[i]?) hinputs
      simp only [List.getElem?_map, hline, Option.map_some] at hread
      obtain ⟨input, hinput, hok⟩ := Option.map_eq_some_iff.mp hread
      cases hok
      exact hinput
    have hrow : (inputs.zip (masker.rows (names.map (⟨table, ·⟩)) (inputs.map Input.octets)))[i]? =
        some (⟨Utf8.encode line, true⟩,
          masker.row (names.map (⟨table, ·⟩)) (Utf8.encode line)) := by
      simp [List.zip, List.getElem?_zipWith, Masker.rows, hinput]
    obtain ⟨octets, hoctets, hresult⟩ := hresults i _ _ hrow
    have hkeeps := keepsText_of_masker? hmodule hcallables hmasker
    have hvalid := Masker.isValid_of_row hkeeps hoctets (Utf8.isValid_encode line)
    obtain ⟨text, htext⟩ := result_of_isValid line hvalid
    exact ⟨text, by rw [hresult, htext]⟩

end Masking

end Module

/-- **Text in, text out.** A rule's transform turns text into text; the masker of a rules document
turns rows and lines that are text into text, hexadecimal literals or not; and a module without
callables answers text with text. -/
theorem text_of_text :
    (∀ setting column rule transform, FieldRule.build setting column rule = .ok transform →
      ∀ value length masked, isValid value → transform.apply value length = .ok masked →
        isValid masked) ∧
    (∀ document masker, Masker.ofDocument document = .ok masker → ∀ line, isValid line →
      (∀ columns out, masker.row columns line = .ok out → isValid out) ∧
      (∀ columns out, masker.statement columns line = .ok out → isValid out) ∧
      (∀ schema out, masker.statementWithSchema schema line = .ok out → isValid out)) ∧
    (∀ module : Module, module.Reachable → module.callables = [] →
      (∀ line, ∃ text, (module.call .escape [.text line]).2 = .ok (.text text)) ∧
      (∀ line, (∃ text, (module.call .unescape [.text line]).2 = .ok (.text text)) ∨
        ∃ fault, (module.call .unescape [.text line]).2 = refuse (.literal fault)) ∧
      (∀ table names line result, (module.call .row [table, names, .text line]).2 = .ok result →
        ∃ text, result = .text text) ∧
      (∀ line more result, (module.call .statement (.text line :: more)).2 = .ok result →
        ∃ text, result = .text text) ∧
      (∀ table names items result, (module.call .rows [table, names, .list items]).2 = .ok result →
        ∃ results, result = .list results ∧ results.length = items.length ∧
          ∀ (i : Nat) (line : String), items[i]? = some (.text line) →
            ∃ text, results[i]? = some (.text text))) := by
  refine ⟨?_, ?_, ?_⟩
  · intro setting column rule transform hbuild value length masked hvalue
    exact (FieldRule.keepsText_of_build hbuild).text hvalue
  · intro document masker hdocument line hline
    have hmasker := Masker.keepsText_of_ofDocument hdocument
    exact ⟨fun columns out h => Masker.isValid_of_row hmasker h hline,
      fun columns out h => Masker.isValid_of_statement hmasker h hline,
      fun schema out h => Masker.isValid_of_statementWithSchema hmasker h hline⟩
  · intro module hreachable hcallables
    have hmodule := hreachable.tracksCallables
    exact ⟨Module.escape_text, Module.unescape_text,
      fun table names line result => Module.row_text hmodule hcallables,
      fun line more result => Module.statement_text hmodule hcallables,
      fun table names items result => Module.rows_text hmodule hcallables⟩

/-- A rules document with a JSON rule for the column `a` of the table `t`. -/
def cutRules : String :=
  "\x7b\"tables\":\x7b\"t\":\x7b\"a\":\x7b\"mode\":\"json\",\"paths\":" ++
    "\x7b\"k\":\x7b\"mode\":\"substring\",\"len\":1\x7d\x7d\x7d\x7d\x7d\x7d"

/-- An octet that is no text, and a nested rule that cuts a string to one character: as a rule, by
the masker of a document, and in a script. -/
theorem text_of_text_hex :
    let rule : FieldRule := ⟨.json, none, none, none, none, none,
      [("k", ⟨.substring, none, some 1, none, none, none, [], .asInput⟩)], .asInput⟩
    let module := ((Module.load .empty ⟨none, none⟩).call .setMasker [.text cutRules]).1
    let value := Utf8.encode "\x7b\"k\":\"éa\"\x7d"
    let masked := Utf8.encode "\x7b\"k\":\"é\"\x7d"
    let columns : List ColumnId := [⟨"t", "b"⟩, ⟨"t", "a"⟩]
    let row := "(0xFF,'\x7b\\\"k\\\":\\\"éa\\\"\x7d')"
    let out := "(0xFF,'\x7b\\\"k\\\":\\\"é\\\"\x7d')"
    let arguments : List Value := [.text "t", .list [.text "b", .text "a"], .text row]
    (∃ transform, FieldRule.build ⟨[], .standard⟩ "a" rule = .ok transform ∧
      transform.apply value .short = .ok masked ∧ isValid masked) ∧
    (∃ masker, Masker.ofDocument cutRules = .ok masker ∧
      masker.row columns (Utf8.encode row) = .ok (Utf8.encode out) ∧ isValid (Utf8.encode out)) ∧
    (module.Reachable ∧ module.callables = [] ∧
      ∃ text, (module.call .row arguments).2 = .ok (.text text)) := by
  intro rule module value masked columns row out arguments
  have happly : ((FieldRule.build ⟨[], .standard⟩ "a" rule).toOption.bind fun transform =>
      (transform.apply value .short).toOption) = some masked := by decide +kernel
  obtain ⟨transform, hbuild, happly⟩ := Option.bind_eq_some_iff.mp happly
  have hmask : ((Masker.ofDocument cutRules).toOption.bind fun masker =>
      (masker.row columns (Utf8.encode row)).toOption) = some (Utf8.encode out) := by
    decide +kernel
  obtain ⟨masker, hdocument, hrow⟩ := Option.bind_eq_some_iff.mp hmask
  have hreachable : module.Reachable := .call (.load _ _) _ _
  have hcallables : module.callables = [] := List.isEmpty_iff.mp (by decide +kernel)
  have hcall : (module.call .row arguments).2.toOption.isSome := by decide +kernel
  obtain ⟨result, hresult⟩ := Option.isSome_iff_exists.mp hcall
  refine ⟨⟨transform, eq_ok_of_toOption hbuild, eq_ok_of_toOption happly, ?_⟩,
    ⟨masker, eq_ok_of_toOption hdocument, eq_ok_of_toOption hrow, ?_⟩,
    ⟨hreachable, hcallables, ?_⟩⟩
  · have htext : isValid value := Utf8.isValid_encode _
    exact text_of_text.1 _ _ _ _ (eq_ok_of_toOption hbuild) _ _ _ htext (eq_ok_of_toOption happly)
  · have hmasker := text_of_text.2.1 _ _ (eq_ok_of_toOption hdocument) _ (Utf8.isValid_encode row)
    exact hmasker.1 _ _ (eq_ok_of_toOption hrow)
  · obtain ⟨-, -, htext, -⟩ := text_of_text.2.2 module hreachable hcallables
    obtain ⟨text, rfl⟩ := htext _ _ _ _ (eq_ok_of_toOption hresult)
    exact ⟨text, eq_ok_of_toOption hresult⟩

end DumpMask.Scripting
