import DumpMask.Proofs.Assoc
import DumpMask.Proofs.Masker.Tables

/-!
# What a line depends on

A line is masked by what the masker and the schema know about its table: the columns of the table,
their transforms, and whether its rows are dropped. Everything else may change without changing the
result.
-/

namespace DumpMask

namespace Masker

variable {left right : Masker}

/-- Two maskers treat the values of the columns alike. -/
structure AgreesOn (left right : Masker) (columns : List ColumnId) : Prop where
  threshold_eq : left.threshold = right.threshold
  resolve_eq : ∀ column ∈ columns, left.resolve? column = right.resolve? column

theorem AgreesOn.subset {columns fewer : List ColumnId} (h : AgreesOn left right columns)
    (hsubset : fewer ⊆ columns) : AgreesOn left right fewer :=
  ⟨h.threshold_eq, fun column hcolumn => h.resolve_eq column (hsubset hcolumn)⟩

theorem transformFor?_congr {column : Option ColumnId} (h : AgreesOn left right column.toList)
    (literal : Literal) :
    left.transformFor? column literal = right.transformFor? column literal := by
  cases column with
  | none => rfl
  | some column =>
    have hresolve := h.resolve_eq column (List.mem_singleton_self column)
    simp only [transformFor?, Option.bind_eq_bind, Option.bind_some, hresolve]

theorem literal_congr {column : Option ColumnId} (h : AgreesOn left right column.toList)
    (position : Nat) (text : Bytes) :
    left.literal position column text = right.literal position column text := by
  have happly : ∀ id transform value,
      left.applyWith id transform value = right.applyWith id transform value := by
    intro id transform value
    rw [applyWith, applyWith, h.threshold_eq]
  simp only [literal, transformFor?_congr h, happly]

theorem literals_congr {columns : List ColumnId} (h : AgreesOn left right columns)
    (position : Nat) (texts : List Bytes) :
    left.literals position columns texts = right.literals position columns texts := by
  induction texts generalizing position columns with
  | nil => rfl
  | cons text rest ih =>
    have hhead : AgreesOn left right columns.head?.toList := by
      apply h.subset
      intro column hcolumn
      exact List.mem_of_mem_head? (Option.mem_toList.mp hcolumn)
    rw [literals, literals, literal_congr hhead, ih (h.subset (List.tail_sublist columns).subset)]

theorem row_congr {columns : List ColumnId} (h : AgreesOn left right columns) (text : Bytes) :
    left.row columns text = right.row columns text := by
  simp only [row, literals_congr h]

theorem statement_congr {columns : List ColumnId} {line : Bytes} (h : AgreesOn left right columns)
    (hdrops : left.drops line = right.drops line) :
    left.statement columns line = right.statement columns line := by
  have hrows : left.row columns = right.row columns := funext (row_congr h)
  simp only [statement, rows, hrows, hdrops]

theorem hasTable_iff {masker : Masker} {table : String} :
    masker.hasTable table = true ↔ ∃ column, (masker.resolve? ⟨table, column⟩).isSome = true := by
  simp only [hasTable, columns, List.any_eq_true, beq_iff_eq, resolve?, Assoc.find?_isSome_iff]
  constructor
  · rintro ⟨id, hid, rfl⟩
    exact ⟨id.column, hid⟩
  · rintro ⟨column, hcolumn⟩
    exact ⟨_, hcolumn, rfl⟩

end Masker

namespace Schema

/-- Every column that is listed for a table is a column of the table. -/
def IsOwned (schema : Schema) : Prop :=
  ∀ table columns, schema.columns? table = some columns → ∀ column ∈ columns, column.table = table

theorem isOwned_ofTables (tables : List (String × List String)) : (ofTables tables).IsOwned := by
  intro table columns hcolumns column hcolumn
  obtain ⟨entry, -, hentry⟩ := List.mem_map.mp (Assoc.mem_of_find?_ofList hcolumns)
  cases hentry
  obtain ⟨name, -, rfl⟩ := List.mem_map.mp hcolumn
  rfl

/-- A table is found under its bare name, however it is spelled. -/
theorem columns?_ofTables {tables : List (String × List String)} {spelling table : String}
    {columns : List String} (hmem : (spelling, columns) ∈ tables)
    (hspelling : Identifier.normalize spelling = table)
    (hunique : ∀ entry ∈ tables, Identifier.normalize entry.1 = table → entry.2 = columns) :
    (ofTables tables).columns? table =
      some (columns.map fun column => ⟨table, Identifier.normalize column⟩) := by
  apply Assoc.find?_ofList_of_mem
  · subst hspelling
    exact List.mem_map.mpr ⟨_, hmem, rfl⟩
  · intro entry hentry hkey
    obtain ⟨found, hfound, rfl⟩ := List.mem_map.mp hentry
    have hkey' : Identifier.normalize found.1 = table := hkey
    rw [← hunique found hfound hkey', ← hkey']
    rfl

end Schema

namespace Masker

/-- What two maskers with their schemas know about a table is the same. -/
structure AgreesOnTable (table : String) (left right : Masker)
    (leftSchema rightSchema : Schema) : Prop where
  threshold_eq : left.threshold = right.threshold
  resolve_eq : ∀ column, left.resolve? ⟨table, column⟩ = right.resolve? ⟨table, column⟩
  isTruncated_eq : left.isTruncated table = right.isTruncated table
  columns_eq : leftSchema.columns? table = rightSchema.columns? table

theorem statementWithSchema_congr {table : String} {left right : Masker}
    {leftSchema rightSchema : Schema}
    (h : AgreesOnTable table left right leftSchema rightSchema) (howned : leftSchema.IsOwned)
    {line : Bytes} (htable : Statement.table? line = some table) :
    left.statementWithSchema leftSchema line = right.statementWithSchema rightSchema line := by
  rw [statementWithSchema_of_table? htable, statementWithSchema_of_table? htable, h.isTruncated_eq,
    ← h.columns_eq]
  cases hcolumns : leftSchema.columns? table with
  | none =>
    have hhas : left.hasTable table = right.hasTable table := by
      rw [Bool.eq_iff_iff, hasTable_iff, hasTable_iff]
      simp only [h.resolve_eq]
    rw [hhas]
  | some columns =>
    have hagrees : AgreesOn left right columns := by
      refine ⟨h.threshold_eq, ?_⟩
      rintro ⟨table', column⟩ hcolumn
      obtain rfl : table' = table := howned table columns hcolumns _ hcolumn
      exact h.resolve_eq column
    have hdrops : left.drops line = right.drops line := by
      rw [drops_of_table? htable, drops_of_table? htable, h.isTruncated_eq]
    dsimp only
    rw [statement_congr hagrees hdrops]

end Masker

end DumpMask
