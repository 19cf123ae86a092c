import DumpMask.Masker.Statement
import DumpMask.Proofs.Statement.Rows

/-!
# The columns of a line

The columns of a line are looked up in a schema or given by name. Main statement: if the schema
lists the columns that are given, both ways give the same result, except for one kind of line. A line
of a truncated table is dropped on account of its table if there is a schema, whereas its rows are
looked for first if there is none, so where no rows are found the one succeeds and the other fails.
-/

namespace DumpMask

namespace Statement

variable {line : Bytes} {table : String}

theorem isInsert_of_table? (h : table? line = some table) : isInsert line = true := by
  unfold table? at h
  split at h
  · next hinsert => exact hinsert
  · cases h

theorem target?_of_table? (h : table? line = some table) : target? line = .ok (some table) := by
  rw [target?, if_pos (isInsert_of_table? h), h]

theorem target?_of_isInsert (hinsert : isInsert line = true) (h : table? line = none) :
    target? line = .error (.malformed ⟨0, .unknownTable⟩) := by
  rw [target?, if_pos hinsert, h]

theorem target?_of_not_isInsert (h : isInsert line = false) : target? line = .ok none := by
  rw [target?, h]
  rfl

end Statement

namespace Masker

variable {masker : Masker} {schema : Schema} {names : List String} {line : Bytes} {table : String}

theorem drops_of_table? (h : Statement.table? line = some table) :
    masker.drops line = masker.isTruncated table := by
  rw [drops, h]

theorem statementWithSchema_of_table? (h : Statement.table? line = some table) :
    masker.statementWithSchema schema line =
      if masker.isTruncated table = true then .ok []
      else
        match schema.columns? table with
        | some columns => masker.statement columns line
        | none =>
          if masker.hasTable table = true then .error (.unknownColumns table) else .ok line := by
  rw [statementWithSchema, Statement.target?_of_table? h]
  rfl

theorem statementNamed_of_table? (h : Statement.table? line = some table) :
    masker.statementNamed names line = masker.statement (names.map (⟨table, ·⟩)) line := by
  rw [statementNamed, Statement.target?_of_table? h]
  rfl

/-- Without a table, the columns do not matter. -/
theorem statementWithSchema_eq_statementNamed (h : Statement.table? line = none) :
    masker.statementWithSchema schema line = masker.statementNamed names line := by
  cases hinsert : Statement.isInsert line with
  | true =>
    rw [statementWithSchema, statementNamed, Statement.target?_of_isInsert hinsert h]
    rfl
  | false =>
    rw [statementWithSchema, statementNamed, Statement.target?_of_not_isInsert hinsert]
    rfl

theorem statement_of_values?_error {fault : MalformedRow}
    (h : Statement.values? line = .error fault) (columns : List ColumnId) :
    masker.statement columns line = .error (.malformed fault) := by
  rw [statement, h]

theorem statement_eq_ok_nil_iff (hinsert : Statement.isInsert line = true)
    (hdrops : masker.drops line = true) {columns : List ColumnId} :
    masker.statement columns line = .ok [] ↔ ∀ fault, Statement.values? line ≠ .error fault := by
  cases hvalues : Statement.values? line with
  | error fault =>
    rw [statement_of_values?_error hvalues]
    simp
  | ok found =>
    cases found with
    | none => exact absurd hvalues (Statement.values?_ne_ok_none hinsert)
    | some list =>
      rw [statement, hvalues]
      simp [hdrops]

/-- **Two ways to the columns.** A schema that lists the columns that are given leads to the same
result, except where a truncated table meets rows that cannot be found. -/
theorem withSchema_eq_named_iff
    (hcolumns : ∀ table, Statement.table? line = some table →
      schema.columns? table = some (names.map (⟨table, ·⟩))) :
    (masker.statementWithSchema schema line = masker.statementNamed names line ↔
      ¬ (masker.drops line = true ∧ ∃ fault, Statement.values? line = .error fault)) ∧
    ∀ fault, masker.drops line = true → Statement.values? line = .error fault →
      masker.statementWithSchema schema line = .ok [] ∧
        masker.statementNamed names line = .error (.malformed fault) := by
  cases htable : Statement.table? line with
  | none =>
    have hkeep : masker.drops line = false := by rw [drops, htable]
    have hnot : ¬ masker.drops line = true := by rw [hkeep]; exact Bool.false_ne_true
    refine ⟨⟨fun _ hdrops => hnot hdrops.1, fun _ => ?_⟩, fun _ hdrops => absurd hdrops hnot⟩
    exact statementWithSchema_eq_statementNamed htable
  | some table =>
    have hschema : masker.statementWithSchema schema line = _ :=
      statementWithSchema_of_table? htable
    rw [hcolumns table htable] at hschema
    rw [hschema, statementNamed_of_table? htable, drops_of_table? htable]
    cases htruncated : masker.isTruncated table with
    | false => simp
    | true =>
      have hdrops : masker.drops line = true := (drops_of_table? htable).trans htruncated
      have hinsert := Statement.isInsert_of_table? htable
      rw [if_pos rfl]
      refine ⟨?_, ?_⟩
      · rw [eq_comm, statement_eq_ok_nil_iff hinsert hdrops]
        simp
      · intro fault _ hfault
        exact ⟨rfl, statement_of_values?_error hfault _⟩

theorem withSchema_eq_named_truncated :
    let masker := (Masker.empty .standard).truncate "s"
    let schema := Schema.ofTables [("`s`", ["id"])]
    let line := ascii "INSERT INTO `s` VALUES (1);"
    masker.drops line = true ∧
      masker.statementWithSchema schema line = masker.statementNamed ["id"] line := by
  intro masker schema line
  have htable : Statement.table? line = some "s" := by decide +kernel
  have hcolumns : ∀ table, Statement.table? line = some table →
      schema.columns? table = some (["id"].map (⟨table, ·⟩)) := by
    intro table heq
    rw [htable] at heq
    cases heq
    decide +kernel
  have hvalues : Statement.values? line = .ok (some ⟨ascii "INSERT INTO `s` VALUES",
      ⟨[⟨ascii " ", ascii "(1)"⟩], ascii ";"⟩⟩) := eq_ok_of_toOption (by decide +kernel)
  refine ⟨by decide +kernel, (withSchema_eq_named_iff hcolumns).1.mpr ?_⟩
  rintro ⟨-, fault, hfault⟩
  rw [hvalues] at hfault
  cases hfault

/-- A truncated table, and no rows. -/
theorem withSchema_ne_named_truncated :
    let masker := (Masker.empty .standard).truncate "s"
    let schema := Schema.ofTables [("`s`", ["id"])]
    let line := ascii "INSERT INTO `s` SELECT 1;"
    (∀ table, Statement.table? line = some table →
        schema.columns? table = some (["id"].map (⟨table, ·⟩))) ∧
      masker.statementWithSchema schema line ≠ masker.statementNamed ["id"] line := by
  intro masker schema line
  have htable : Statement.table? line = some "s" := by decide +kernel
  have hschema : masker.statementWithSchema schema line = .ok [] :=
    eq_ok_of_toOption (by decide +kernel)
  have hnamed : (masker.statementNamed ["id"] line).toOption = none := by decide +kernel
  refine ⟨?_, ?_⟩
  · intro table heq
    rw [htable] at heq
    cases heq
    decide +kernel
  · intro heq
    rw [← heq, hschema] at hnamed
    cases hnamed

end Masker

end DumpMask
