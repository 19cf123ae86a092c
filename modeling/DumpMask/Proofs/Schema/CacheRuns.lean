import DumpMask.Proofs.Results
import DumpMask.Session

/-!
# The schema cache over a run

A run is any sequence of writes and removals of files and of calls that have the cache hold a schema
file. A snapshot may stay in the cache while its file is written over, removed and written again, so
what is kept true from step to step is that the snapshot was read from *some* version of its file.
Main statement: if versions of a file with the same time have the same content, a call that succeeds
leaves the schema of the current version in the cache, also where the file was not read again; and a
call that fails leaves the cache as it was.
-/

namespace DumpMask

namespace Schema

/-- The schema that the content of a file stands for. -/
def IsWrittenIn (schema : Schema) (file : File) : Prop :=
  ∃ text, Utf8.decode file.content = some text ∧ ofDocument text = .ok schema

/-- What reading a version of a file gives. -/
structure Snapshot.IsOf (snapshot : Snapshot) (file : File) : Prop where
  modified : snapshot.modified = some file.modified
  schema : snapshot.schema.IsWrittenIn file

theorem Snapshot.IsOf.congr {snapshot : Snapshot} {file other : File} (h : snapshot.IsOf file)
    (hmodified : other.modified = file.modified) (hcontent : other.content = file.content) :
    snapshot.IsOf other := by
  refine ⟨?_, ?_⟩
  · rw [h.modified, hmodified]
  · rw [IsWrittenIn, hcontent]
    exact h.schema

/-! ### One call -/

variable {files : FileStore} {path : String} {cache after : Cache} {snapshot : Snapshot}

theorem load_eq_ok_iff :
    load files path = .ok snapshot ↔
      snapshot.path = path ∧ ∃ file, files.find? path = some file ∧ snapshot.IsOf file := by
  unfold load
  cases hfile : files.find? path with
  | none =>
    have htext : files.text? path = none := by simp [FileStore.text?, hfile]
    simp [htext]
  | some file =>
    have htext : files.text? path = Utf8.decode file.content := by simp [FileStore.text?, hfile]
    have hmodified : files.modified? path = some file.modified := by
      simp [FileStore.modified?, hfile]
    rw [htext, hmodified]
    cases hdecode : Utf8.decode file.content with
    | none =>
      constructor
      · intro h
        cases h
      · rintro ⟨-, file', heq, -, text, hdecode', -⟩
        cases heq
        rw [hdecode] at hdecode'
        cases hdecode'
    | some text =>
      dsimp only
      rw [bind_eq_ok_iff]
      constructor
      · rintro ⟨schema, hschema, heq⟩
        cases heq
        exact ⟨rfl, file, rfl, rfl, text, hdecode, hschema⟩
      · rintro ⟨hpath, file', heq, htime, text', hdecode', hschema⟩
        cases heq
        obtain rfl : text = text' := Option.some.inj (hdecode.symm.trans hdecode')
        obtain ⟨path', modified, schema⟩ := snapshot
        cases hpath
        cases htime
        exact ⟨schema, hschema, rfl⟩

theorem Cache.isFresh_iff :
    cache.isFresh files path = true ↔
      ∃ snapshot, cache = some snapshot ∧ snapshot.path = path ∧
        files.modified? path = snapshot.modified := by
  cases cache with
  | none => simp [isFresh]
  | some snapshot => simp [isFresh]

/-- A fresh cache is kept, and otherwise the file is read. -/
theorem Cache.ensure_eq_ok_iff :
    cache.ensure files path = .ok after ↔
      (cache.isFresh files path = true ∧ after = cache) ∨
        (cache.isFresh files path = false ∧
          ∃ snapshot, load files path = .ok snapshot ∧ after = some snapshot) := by
  unfold ensure
  cases hfresh : cache.isFresh files path with
  | true => simp [eq_comm]
  | false =>
    rw [if_neg Bool.false_ne_true, map_eq_ok_iff]
    simp [eq_comm]

end Schema

namespace Session

/-! ### Runs -/

inductive FileEvent where
  | write (name : String) (file : File)
  | remove (name : String)
  | ensure (path : String)
  | reload (path : String)

/-- The answer of a call and the session after it. -/
def settle (session : Session) : Except Schema.Fault Session → Except Schema.Fault Unit × Session
  | .ok after => (.ok (), after)
  | .error fault => (.error fault, session)

def step (session : Session) : FileEvent → Except Schema.Fault Unit × Session
  | .write name file => (.ok (), session.writeFile name file)
  | .remove name => (.ok (), (session.removeFile name).2)
  | .ensure path => session.settle (session.ensureSchema path)
  | .reload path => session.settle (session.reloadSchema path)

/-- One event of a run, with the sessions before and after it. -/
structure Turn where
  before : Session
  event : FileEvent
  answer : Except Schema.Fault Unit
  after : Session

def turns (session : Session) : List FileEvent → List Turn
  | [] => []
  | event :: rest =>
    ⟨session, event, (session.step event).1, (session.step event).2⟩ ::
      turns (session.step event).2 rest

def FileEvent.version? (name : String) : FileEvent → Option File
  | .write written file => if written = name then some file else none
  | _ => none

/-- All versions of a file in a run: the one that was there and those that are written. -/
def versions (session : Session) (events : List FileEvent) (name : String) : List File :=
  (session.files.find? name).toList ++ events.filterMap (FileEvent.version? name)

/-- The time of a version tells its content. -/
def TimesTell (versions : String → List File) : Prop :=
  ∀ name, ∀ left ∈ versions name, ∀ right ∈ versions name,
    left.modified = right.modified → left.content = right.content

/-! ### What a step keeps -/

/-- The files are versions, and the snapshot was read from a version of its file. -/
structure IsBacked (versions : String → List File) (session : Session) : Prop where
  files : ∀ name file, session.files.find? name = some file → file ∈ versions name
  cache : ∀ snapshot, session.cache = some snapshot →
    ∃ file ∈ versions snapshot.path, snapshot.IsOf file

variable {versions : String → List File} {session after : Session} {path : String}

theorem ensureSchema_eq_ok_iff :
    session.ensureSchema path = .ok after ↔
      ∃ cache, session.cache.ensure session.files path = .ok cache ∧
        { session with cache } = after := by
  simp only [ensureSchema, bind_eq_ok_iff, pure, Except.pure, Except.ok.injEq]

theorem reloadSchema_eq_ok_iff :
    session.reloadSchema path = .ok after ↔
      ∃ snapshot, Schema.load session.files path = .ok snapshot ∧
        { session with cache := some snapshot } = after := by
  simp only [reloadSchema, bind_eq_ok_iff, pure, Except.pure, Except.ok.injEq]

theorem files_of_settle {result : Except Schema.Fault Session}
    (h : ∀ after, result = .ok after → after.files = session.files) :
    (session.settle result).2.files = session.files := by
  cases result with
  | error fault => rfl
  | ok after => exact h after rfl

theorem isBacked_settle (hbacked : session.IsBacked versions)
    {result : Except Schema.Fault Session}
    (h : ∀ after, result = .ok after → after.IsBacked versions) :
    (session.settle result).2.IsBacked versions := by
  cases result with
  | error fault => exact hbacked
  | ok after => exact h after rfl

/-- A snapshot that was just read is one of a version, since the files are. -/
theorem IsBacked.loaded (hbacked : session.IsBacked versions) {snapshot : Schema.Snapshot}
    (hload : Schema.load session.files path = .ok snapshot) :
    ({ session with cache := some snapshot } : Session).IsBacked versions := by
  obtain ⟨rfl, file, hfile, hof⟩ := Schema.load_eq_ok_iff.mp hload
  refine ⟨hbacked.files, ?_⟩
  intro snapshot' heq
  cases heq
  exact ⟨file, hbacked.files _ file hfile, hof⟩

theorem IsBacked.step (hbacked : session.IsBacked versions) {event : FileEvent}
    (hversion : ∀ name file, event.version? name = some file → file ∈ versions name) :
    (session.step event).2.IsBacked versions := by
  cases event with
  | write written file =>
    refine ⟨?_, hbacked.cache⟩
    intro name current hcurrent
    rw [Session.step, writeFile, FileStore.find?_write] at hcurrent
    split at hcurrent
    · next heq =>
      apply hversion
      rw [FileEvent.version?, if_pos heq, hcurrent]
    · exact hbacked.files name current hcurrent
  | remove removed =>
    refine ⟨?_, hbacked.cache⟩
    intro name current hcurrent
    rw [Session.step, removeFile, FileStore.find?_remove] at hcurrent
    split at hcurrent
    · cases hcurrent
    · exact hbacked.files name current hcurrent
  | ensure path =>
    apply isBacked_settle hbacked
    intro after hafter
    obtain ⟨cache, hcache, rfl⟩ := ensureSchema_eq_ok_iff.mp hafter
    rcases Schema.Cache.ensure_eq_ok_iff.mp hcache with ⟨-, rfl⟩ | ⟨-, snapshot, hload, rfl⟩
    · exact hbacked
    · exact hbacked.loaded hload
  | reload path =>
    apply isBacked_settle hbacked
    intro after hafter
    obtain ⟨snapshot, hload, rfl⟩ := reloadSchema_eq_ok_iff.mp hafter
    exact hbacked.loaded hload

/-! ### What a call answers -/

/-- A cache that is fresh holds the current version: it has the time of the version that was read,
and so its content. -/
theorem IsBacked.isOf_of_isFresh (hbacked : session.IsBacked versions)
    (htimes : TimesTell versions) (hfresh : session.cache.isFresh session.files path = true) :
    ∃ file snapshot, session.files.find? path = some file ∧ session.cache = some snapshot ∧
      snapshot.path = path ∧ snapshot.IsOf file := by
  obtain ⟨snapshot, hcache, rfl, htime⟩ := Schema.Cache.isFresh_iff.mp hfresh
  obtain ⟨old, hold, hof⟩ := hbacked.cache snapshot hcache
  rw [hof.modified, FileStore.modified?, Option.map_eq_some_iff] at htime
  obtain ⟨file, hfile, hmodified⟩ := htime
  have hcontent : file.content = old.content :=
    htimes snapshot.path file (hbacked.files _ file hfile) old hold hmodified
  exact ⟨file, snapshot, hfile, hcache, rfl, hof.congr hmodified hcontent⟩

theorem IsBacked.ensureSchema_ok (hbacked : session.IsBacked versions)
    (htimes : TimesTell versions) (hafter : session.ensureSchema path = .ok after) :
    ∃ file snapshot, session.files.find? path = some file ∧ after.cache = some snapshot ∧
      snapshot.path = path ∧ snapshot.IsOf file := by
  obtain ⟨cache, hcache, rfl⟩ := ensureSchema_eq_ok_iff.mp hafter
  rcases Schema.Cache.ensure_eq_ok_iff.mp hcache with ⟨hfresh, rfl⟩ | ⟨-, snapshot, hload, rfl⟩
  · exact hbacked.isOf_of_isFresh htimes hfresh
  · obtain ⟨hpath, file, hfile, hof⟩ := Schema.load_eq_ok_iff.mp hload
    exact ⟨file, snapshot, hfile, rfl, hpath, hof⟩

theorem exists_ensureSchema_of_isWrittenIn {file : File} {schema : Schema}
    (hfile : session.files.find? path = some file) (hschema : schema.IsWrittenIn file) :
    ∃ after, session.ensureSchema path = .ok after := by
  have hload : Schema.load session.files path = .ok ⟨path, some file.modified, schema⟩ :=
    Schema.load_eq_ok_iff.mpr ⟨rfl, file, hfile, rfl, hschema⟩
  cases hfresh : session.cache.isFresh session.files path with
  | true =>
    exact ⟨session, ensureSchema_eq_ok_iff.mpr
      ⟨session.cache, Schema.Cache.ensure_eq_ok_iff.mpr (Or.inl ⟨hfresh, rfl⟩), rfl⟩⟩
  | false =>
    exact ⟨_, ensureSchema_eq_ok_iff.mpr
      ⟨_, Schema.Cache.ensure_eq_ok_iff.mpr (Or.inr ⟨hfresh, _, hload, rfl⟩), rfl⟩⟩

theorem settle_fst_eq_ok_iff {result : Except Schema.Fault Session} :
    (session.settle result).1 = .ok () ↔ ∃ after, result = .ok after := by
  cases result <;> simp [settle]

theorem settle_of_ok {result : Except Schema.Fault Session} (h : result = .ok after) :
    session.settle result = (.ok (), after) := by
  rw [h, settle]

theorem settle_of_error {result : Except Schema.Fault Session} {fault : Schema.Fault}
    (h : (session.settle result).1 = .error fault) : (session.settle result).2 = session := by
  cases result with
  | error fault' => rfl
  | ok after => cases h

theorem step_of_error {event : FileEvent} {fault : Schema.Fault}
    (h : (session.step event).1 = .error fault) : (session.step event).2 = session := by
  cases event with
  | write name file => cases h
  | remove name => cases h
  | ensure path => exact settle_of_error h
  | reload path => exact settle_of_error h

/-! ### Runs from an empty cache -/

/-- Every turn of a run begins in a session that the versions of the run back. -/
theorem isBacked_of_mem_turns {events : List FileEvent} (hbacked : session.IsBacked versions)
    (hversions : ∀ event ∈ events, ∀ name file, event.version? name = some file →
      file ∈ versions name) :
    ∀ turn ∈ session.turns events, turn.before.IsBacked versions ∧
      turn.answer = (turn.before.step turn.event).1 ∧
      turn.after = (turn.before.step turn.event).2 := by
  induction events generalizing session with
  | nil =>
    intro turn hturn
    cases hturn
  | cons event rest ih =>
    intro turn hturn
    rcases List.mem_cons.mp hturn with rfl | hturn
    · exact ⟨hbacked, rfl, rfl⟩
    · refine ih ?_ ?_ turn hturn
      · exact hbacked.step (hversions event (List.mem_cons_self ..))
      · intro event' hevent'
        exact hversions event' (List.mem_cons_of_mem _ hevent')

theorem isBacked_start (files : FileStore) (events : List FileEvent) :
    ({ start with files } : Session).IsBacked
      (({ start with files } : Session).versions events) := by
  refine ⟨?_, ?_⟩
  · intro name file hfile
    exact List.mem_append_left _ (Option.mem_toList.mpr hfile)
  · intro snapshot hsnapshot
    cases hsnapshot

/-- **The cache is fresh and survives failures.** In a run in which versions of a file with the same
time have the same content, a call for a schema file succeeds exactly if the file is there and holds
a schema, and the cache then holds this schema with the time of the file. A call that fails leaves
the cache as it was. -/
theorem turns_cache_fresh {files : FileStore} {events : List FileEvent}
    (htimes : TimesTell (({ start with files } : Session).versions events)) :
    ∀ turn ∈ ({ start with files } : Session).turns events,
      (∀ path, turn.event = .ensure path →
        turn.after.files = turn.before.files ∧
        (turn.answer = .ok () → ∃ file snapshot, turn.before.files.find? path = some file ∧
          turn.after.cache = some snapshot ∧ snapshot.path = path ∧ snapshot.IsOf file) ∧
        (turn.answer = .ok () ↔ ∃ (file : File) (schema : Schema),
          turn.before.files.find? path = some file ∧ schema.IsWrittenIn file)) ∧
      ∀ fault, turn.answer = .error fault → turn.after.cache = turn.before.cache := by
  intro turn hturn
  obtain ⟨hbacked, hanswer, hafter⟩ :=
    isBacked_of_mem_turns (isBacked_start files events) (by
      intro event hevent name file hversion
      exact List.mem_append_right _ (List.mem_filterMap.mpr ⟨event, hevent, hversion⟩)) turn hturn
  obtain ⟨before, event, answer, after⟩ := turn
  dsimp only at hbacked hanswer hafter ⊢
  subst hanswer
  subst hafter
  refine ⟨?_, ?_⟩
  · rintro path rfl
    refine ⟨?_, ?_, ?_⟩
    · apply files_of_settle
      intro after hafter
      obtain ⟨cache, -, rfl⟩ := ensureSchema_eq_ok_iff.mp hafter
      rfl
    · intro hok
      obtain ⟨after, hafter⟩ := settle_fst_eq_ok_iff.mp hok
      rw [step, settle_of_ok hafter]
      exact hbacked.ensureSchema_ok htimes hafter
    · rw [step, settle_fst_eq_ok_iff]
      constructor
      · rintro ⟨after, hafter⟩
        obtain ⟨file, snapshot, hfile, -, -, hof⟩ := hbacked.ensureSchema_ok htimes hafter
        exact ⟨file, snapshot.schema, hfile, hof.schema⟩
      · rintro ⟨file, schema, hfile, hschema⟩
        exact exists_ensureSchema_of_isWrittenIn hfile hschema
  · intro fault hfault
    rw [step_of_error hfault]

/-- A schema that is written over by a broken one, and comes back with its old time. -/
theorem turns_cache_fresh_restored :
    let good : File := ⟨ascii "\x7b\"tables\":\x7b\"t\":[\"id\"]\x7d\x7d", 1⟩
    let broken : File := ⟨ascii "\x7b", 2⟩
    let events : List FileEvent := [.write "s" good, .ensure "s", .write "s" broken, .ensure "s",
      .remove "s", .write "s" good, .ensure "s"]
    let session : Session := { start with files := .empty }
    TimesTell (session.versions events) ∧
      ∃ failed served, (session.turns events)[3]? = some failed ∧
        (session.turns events)[6]? = some served ∧ failed.event = .ensure "s" ∧
        failed.answer ≠ .ok () ∧ failed.after.cache = failed.before.cache ∧
        served.event = .ensure "s" ∧ served.answer = .ok () ∧
        ∃ snapshot, served.after.cache = some snapshot ∧ snapshot.path = "s" ∧
          snapshot.IsOf good := by
  intro good broken events session
  have hversions : ∀ name, ∀ version ∈ session.versions events name,
      version = good ∨ version = broken := by
    intro name version hmem
    obtain ⟨event, hevent, hversion⟩ := List.mem_filterMap.mp hmem
    simp only [events, List.mem_cons, List.not_mem_nil, or_false] at hevent
    rcases hevent with rfl | rfl | rfl | rfl | rfl | rfl | rfl <;>
      simp_all [FileEvent.version?]
  have htimes : TimesTell (session.versions events) := by
    intro name left hleft right hright htime
    rcases hversions name left hleft with rfl | rfl <;>
      rcases hversions name right hright with rfl | rfl
    · rfl
    · cases htime
    · cases htime
    · rfl
  have hgood : ∃ schema : Schema, schema.IsWrittenIn good :=
    ⟨⟨[("t", [⟨"t", "id"⟩])]⟩, "\x7b\"tables\":\x7b\"t\":[\"id\"]\x7d\x7d", by decide +kernel,
      eq_ok_of_toOption (by decide +kernel)⟩
  have hbroken : ∀ schema : Schema, ¬ schema.IsWrittenIn broken := by
    rintro schema ⟨text, hdecode, hdocument⟩
    have htext : Utf8.decode broken.content = some "\x7b" := by decide +kernel
    obtain rfl : "\x7b" = text := Option.some.inj (htext.symm.trans hdecode)
    have hread : (Schema.ofDocument "\x7b").toOption = none := by decide +kernel
    rw [hdocument] at hread
    cases hread
  have hfresh := @turns_cache_fresh .empty events htimes
  obtain ⟨failed, hfailed, hfailedEvent, hfailedFile⟩ : ∃ failed,
      (session.turns events)[3]? = some failed ∧ failed.event = .ensure "s" ∧
        failed.before.files.find? "s" = some broken := ⟨_, rfl, rfl, by decide +kernel⟩
  obtain ⟨served, hserved, hservedEvent, hservedFile⟩ : ∃ served,
      (session.turns events)[6]? = some served ∧ served.event = .ensure "s" ∧
        served.before.files.find? "s" = some good := ⟨_, rfl, rfl, by decide +kernel⟩
  obtain ⟨hfailedCall, hfailedCache⟩ := hfresh failed (List.mem_of_getElem? hfailed)
  obtain ⟨-, hservedCache, hservedIff⟩ :=
    (hfresh served (List.mem_of_getElem? hserved)).1 "s" hservedEvent
  have hnot : failed.answer ≠ .ok () := by
    intro hok
    obtain ⟨file, schema, hfile, hschema⟩ := (hfailedCall "s" hfailedEvent).2.2.mp hok
    obtain rfl : broken = file := Option.some.inj (hfailedFile.symm.trans hfile)
    exact hbroken schema hschema
  have hkept : failed.after.cache = failed.before.cache := by
    cases hanswer : failed.answer with
    | ok answer => exact absurd hanswer hnot
    | error fault => exact hfailedCache fault hanswer
  obtain ⟨schema, hschema⟩ := hgood
  have hok : served.answer = .ok () := hservedIff.mpr ⟨good, schema, hservedFile, hschema⟩
  obtain ⟨file, snapshot, hfile, hcache, hpath, hof⟩ := hservedCache hok
  obtain rfl : good = file := Option.some.inj (hservedFile.symm.trans hfile)
  exact ⟨htimes, failed, served, hfailed, hserved, hfailedEvent, hnot, hkept, hservedEvent, hok,
    snapshot, hcache, hpath, hof⟩

end Session

end DumpMask
