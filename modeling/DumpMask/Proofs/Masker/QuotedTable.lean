import DumpMask.Proofs.Masker.Scope
import DumpMask.Proofs.Statement.QuotedNames

/-!
# Under which table a line is masked

A schema spells the name of a table between backticks as a statement does. Main statement: the table
that is read from a line is the one that the schema means exactly when no backtick in a name gets in
the way, and the line is masked by what is known about the table that was read and by nothing else.
-/

namespace DumpMask.Masker

open Statement

/-- **The table of a line.** A name with a backtick in it is cut there, and the line is masked as
one of the table with the shorter name. -/
theorem written_table_read_iff (header : Header) (name : TableName) {rest : Bytes}
    (hrest : rest.head? ≠ some Ascii.dot) :
    let line := header.text ++ (name.text ++ rest)
    table? line = some name.read ∧
      (table? line = some (Identifier.normalize (Identifier.quote name.table)) ↔
        '\x60' ∉ name.table.toList ∧ ∀ database ∈ name.database?, '\x60' ∈ database.toList →
          beforeBacktick database = name.table) ∧
      (∀ (masker : Masker) (tables : List (String × List String)) (columns : List String),
        name.read = name.table → (Identifier.quote name.table, columns) ∈ tables →
        (∀ entry ∈ tables, Identifier.normalize entry.1 = name.table → entry.2 = columns) →
        masker.statementWithSchema (Schema.ofTables tables) line =
          if masker.isTruncated name.table = true then .ok []
          else masker.statement
            (columns.map fun column => ⟨name.table, Identifier.normalize column⟩) line) ∧
      ∀ (left right : Masker) (leftTables rightTables : List (String × List String)),
        AgreesOnTable name.read left right (Schema.ofTables leftTables)
          (Schema.ofTables rightTables) →
        left.statementWithSchema (Schema.ofTables leftTables) line =
          right.statementWithSchema (Schema.ofTables rightTables) line := by
  intro line
  have htable : table? line = some name.read := table?_header_name header name hrest
  refine ⟨htable, ?_, ?_, ?_⟩
  · rw [htable, Identifier.normalize_quote, Option.some_inj, TableName.read_eq_table_iff]
  · intro masker tables columns hread hmem hunique
    rw [hread] at htable
    rw [statementWithSchema_of_table? htable,
      Schema.columns?_ofTables hmem (Identifier.normalize_quote name.table) hunique]
  · intro left right leftTables rightTables hagrees
    exact statementWithSchema_congr hagrees (Schema.isOwned_ofTables leftTables) htable

theorem written_table_read_orders :
    let header : Header :=
      { lead := [], keyword := ascii "insert", gap := ascii " "
        modifiers := [⟨ascii " ", ascii "ignore", by decide, by decide⟩]
        into? := some ⟨ascii " ", ascii "INTO", by decide, by decide⟩
        lead_blank := by decide, keyword_eq := by decide, modifiers_eq := by decide
        into_eq := by decide, gap_blank := by decide }
    let name : TableName := ⟨some "shop", "orders"⟩
    let line := header.text ++ (name.text ++ ascii " VALUES (1);")
    let masker := (Masker.empty .standard).truncate "shop"
    line = ascii "insert ignore INTO \x60shop\x60.\x60orders\x60 VALUES (1);" ∧
      table? line = some "orders" ∧
      masker.statementWithSchema
          (Schema.ofTables [("\x60orders\x60", ["id"]), ("shop", ["key"])]) line =
        masker.statement [⟨"orders", "id"⟩] line := by
  intro header name line masker
  have hrest : (ascii " VALUES (1);").head? ≠ some Ascii.dot := by decide
  have hread : name.read = name.table := by decide +kernel
  have horders := written_table_read_iff header name hrest
  have hschema := horders.2.2.1 masker [("\x60orders\x60", ["id"]), ("shop", ["key"])] ["id"] hread
    (by decide +kernel) (by decide +kernel)
  have hkept : ¬ masker.isTruncated name.table = true := by decide +kernel
  have hcolumns :
      (["id"].map fun column => (⟨name.table, Identifier.normalize column⟩ : ColumnId)) =
        [⟨"orders", "id"⟩] := by decide +kernel
  rw [if_neg hkept, hcolumns] at hschema
  exact ⟨by decide +kernel, horders.1.trans (congrArg some hread), hschema⟩

/-- A line of one table is dropped because another is truncated. -/
theorem written_table_not_read_backtick :
    let header : Header :=
      { lead := [], keyword := ascii "INSERT", gap := ascii " ", modifiers := []
        into? := some ⟨ascii " ", ascii "INTO", by decide, by decide⟩
        lead_blank := by decide, keyword_eq := by decide, modifiers_eq := by decide
        into_eq := by decide, gap_blank := by decide }
    let name : TableName := ⟨none, "a\x60b"⟩
    let line := header.text ++ (name.text ++ ascii " VALUES (1);")
    let masker := (Masker.empty .standard).truncate "a"
    line = ascii "INSERT INTO \x60a\x60\x60b\x60 VALUES (1);" ∧
      Identifier.normalize (Identifier.quote name.table) = "a\x60b" ∧ table? line = some "a" ∧
      masker.isTruncated "a\x60b" = false ∧
      masker.statementWithSchema (Schema.ofTables [("\x60a\x60\x60b\x60", ["id"])]) line =
        .ok [] := by
  intro header name line masker
  have hdropped : masker.statementWithSchema
      (Schema.ofTables [("\x60a\x60\x60b\x60", ["id"])]) line = .ok [] :=
    eq_ok_of_toOption (by decide +kernel)
  exact ⟨by decide +kernel, by decide +kernel, by decide +kernel, by decide +kernel, hdropped⟩

end DumpMask.Masker
