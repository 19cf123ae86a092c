import DumpMask.Proofs.Assoc
import DumpMask.Proofs.Json.Reread
import DumpMask.Proofs.Json.Text
import DumpMask.Proofs.Rules.Names
import DumpMask.Proofs.Schema.Identifier
import DumpMask.Schema.Cache

/-!
# Tables under quoted names

Reading a schema document may merge tables twice: a name that the document repeats keeps its last
columns, and so do two spellings of which the blanks and the quotes are dropped to give one name. The
first merge compares names as they are written, the second as they are meant. Main statement: quoting
is undone exactly, so neither merge touches tables whose quoted names mean different names, whatever
backticks and blanks these hold, and in whatever order the tables come.
-/

namespace DumpMask.Schema

/-! ### What a document lists -/

def interest : Json.Interest :=
  .members (fieldNames.map fun name => (name, .all))

/-- The tables of a document in its order, with the names that it repeats. -/
def entries? (json : Json) : Option (List (String × List String)) := do
  match ← json.record? fieldNames 0 with
  | [tables] => Json.standard [] (Json.entries? columnNames?) tables
  | _ => none

/-- The tables that a text lists. -/
def listed? (text : String) : Option (List (String × List String)) :=
  (Json.readWith interest (Utf8.encode text)).bind entries?

theorem tables?_eq_map_entries? (json : Json) :
    tables? json = (entries? json).map Assoc.ofList := by
  rw [tables?, entries?]
  cases json.record? fieldNames 0 with
  | none => rfl
  | some fields =>
    rcases fields with _ | ⟨tables, _ | ⟨other, more⟩⟩
    · rfl
    · cases tables with
      | none => rfl
      | some tables => exact Json.table?_eq_map_entries? columnNames? tables
    · rfl

/-- The two merges: `Assoc.ofList` compares the names as written and `ofTables` as meant. -/
theorem read_eq_map_listed? (text : String) :
    read text = (listed? text).map fun tables => ofTables (Assoc.ofList tables) := by
  rw [read, listed?]
  change (Json.readWith interest _).bind _ = _
  cases Json.readWith interest (Utf8.encode text) with
  | none => rfl
  | some json =>
    rw [Option.bind_some, Option.bind_some, tables?_eq_map_entries?]
    cases entries? json <;> rfl

/-! ### Quoted names -/

/-- A table of a document, with its columns as they are written. -/
structure QuotedTable extends Identifier.QuotedName where
  columns : List String

namespace QuotedTable

/-- The entry of a document. -/
def written (table : QuotedTable) : String × List String :=
  (table.spelling, table.columns)

/-- The entry of a schema. -/
def known (table : QuotedTable) : String × List ColumnId :=
  (table.name, table.columns.map fun column => ⟨table.name, Identifier.normalize column⟩)

theorem tableColumns_spelling (table : QuotedTable) :
    tableColumns table.spelling table.columns = table.known := by
  rw [tableColumns, Identifier.normalize_spelling]
  rfl

end QuotedTable

section Distinct

variable {tables : List QuotedTable} (hnames : (tables.map fun table => table.name).Nodup)
include hnames

/-- Names that are meant to differ are written differently, so the first merge finds nothing. -/
theorem nodup_keys_written : (Assoc.keys (tables.map QuotedTable.written)).Nodup := by
  have hmeant : (Assoc.keys (tables.map QuotedTable.written)).map Identifier.normalize =
      tables.map fun table => table.name := by
    rw [Assoc.keys, List.map_map, List.map_map]
    exact List.map_congr_left fun table _ => Identifier.normalize_spelling table.toQuotedName
  rw [← hmeant] at hnames
  exact hnames.of_map

theorem nodup_keys_known : (Assoc.keys (tables.map QuotedTable.known)).Nodup := by
  rwa [Assoc.keys, List.map_map]

theorem ofTables_written :
    ofTables (tables.map QuotedTable.written) = ⟨tables.map QuotedTable.known⟩ := by
  have hknown : (tables.map QuotedTable.written).map
      (fun entry => tableColumns entry.1 entry.2) = tables.map QuotedTable.known := by
    rw [List.map_map]
    exact List.map_congr_left fun table _ => table.tableColumns_spelling
  calc ofTables (tables.map QuotedTable.written)
      = ⟨Assoc.ofList ((tables.map QuotedTable.written).map fun entry =>
          tableColumns entry.1 entry.2)⟩ := rfl
    _ = ⟨tables.map QuotedTable.known⟩ := by
      rw [hknown, Assoc.ofList_of_nodup (nodup_keys_known hnames)]

theorem ofDocument_of_listed? {text : String}
    (hlisted : listed? text = some (tables.map QuotedTable.written)) :
    ofDocument text = .ok ⟨tables.map QuotedTable.known⟩ := by
  rw [ofDocument, read_eq_map_listed?, hlisted, Option.map_some,
    Assoc.ofList_of_nodup (nodup_keys_written hnames), ofTables_written hnames]

theorem columns?_ofTables_written {table : QuotedTable} (htable : table ∈ tables) :
    (ofTables (tables.map QuotedTable.written)).columns? table.name = some table.known.2 := by
  rw [ofTables_written hnames]
  exact (Assoc.find?_eq_some_iff_mem (nodup_keys_known hnames)).mpr
    (List.mem_map.mpr ⟨table, htable, rfl⟩)

end Distinct

/-- An entry of another name leaves what is known of a name as it is. -/
theorem columns?_ofTables_of_ne (before after : List (String × List String))
    {entry : String × List String} {name : String} (hname : Identifier.normalize entry.1 ≠ name) :
    (ofTables (before ++ entry :: after)).columns? name =
      (ofTables (before ++ after)).columns? name := by
  have hother : Assoc.find? name [tableColumns entry.1 entry.2] = none := if_neg hname
  simp only [columns?, ofTables, Assoc.find?_ofList, List.map_append, List.map_cons,
    List.reverse_append, List.reverse_cons, Assoc.find?_append, hother, Option.or_none]

/-! ### A document for every list of tables -/

def document (tables : List QuotedTable) : Json :=
  .object [("tables", .object (tables.map fun table =>
    (table.spelling, .array (table.columns.map Json.string))))]

theorem columnNames?_strings (columns : List String) :
    columnNames? (.array (columns.map Json.string)) = some columns := by
  calc columnNames? (.array (columns.map Json.string))
      = columns.mapM fun column => pure column := List.mapM_map
    _ = some columns := by
      rw [List.mapM_pure, List.map_id']
      rfl

theorem entries?_document (tables : List QuotedTable) :
    entries? (document tables) = some (tables.map QuotedTable.written) := by
  calc entries? (document tables)
      = tables.mapM fun table => do
          return (table.spelling, ← columnNames? (.array (table.columns.map Json.string))) :=
        List.mapM_map
    _ = tables.mapM fun table => pure table.written := by
      simp only [columnNames?_strings]
      rfl
    _ = some (tables.map QuotedTable.written) := List.mapM_pure

theorem numbersOfItems_strings (position : Json.Position) (index : Nat) (texts : List String) :
    Json.numbersOfItems position index (texts.map Json.string) = [] := by
  induction texts generalizing index with
  | nil => rfl
  | cons text rest ih => exact ih (index + 1)

theorem depthOfItems_strings (texts : List String) :
    Json.depthOfItems (texts.map Json.string) = 0 := by
  induction texts with
  | nil => rfl
  | cons text rest ih =>
    rw [List.map_cons, Json.depthOfItems, ih]
    rfl

theorem numbersAt_document (tables : List QuotedTable) : (document tables).numbersAt [] = [] := by
  rw [document, Json.numbersAt, Json.numbersOfMembers, Json.numbersOfMembers, List.append_nil,
    Json.numbersAt]
  induction tables with
  | nil => rfl
  | cons table rest ih =>
    rw [List.map_cons, Json.numbersOfMembers, ih, Json.numbersAt, numbersOfItems_strings]
    rfl

theorem depth_document_le (tables : List QuotedTable) : (document tables).depth ≤ 3 := by
  have hmembers : Json.depthOfMembers (tables.map fun table =>
      (table.spelling, Json.array (table.columns.map Json.string))) ≤ 1 := by
    induction tables with
    | nil => decide
    | cons table rest ih =>
      rw [List.map_cons, Json.depthOfMembers, Json.depth, depthOfItems_strings]
      exact Nat.max_le.mpr ⟨Nat.le_refl 1, ih⟩
  simp only [document, Json.depth, Json.depthOfMembers]
  omega

theorem exists_listed? (tables : List QuotedTable) :
    ∃ text, listed? text = some (tables.map QuotedTable.written) := by
  obtain ⟨text, htext⟩ := Utf8.isValid_iff_exists_encode.mp (Json.isValid_print (document tables))
  have hwanted : ∀ value : Json, ∀ member ∈ [("tables", value)],
      interest.ofMember member.1 = .all := by
    intro value member hmember
    rw [List.mem_singleton.mp hmember]
    rfl
  have hdepth : (document tables).depth ≤ Json.maxDepth :=
    Nat.le_trans (depth_document_le tables) (by decide)
  have hread : Json.readWith interest (document tables).print = some (document tables) :=
    Json.readWith_print rfl (hwanted _) (numbersAt_document tables) hdepth
  refine ⟨text, ?_⟩
  rw [listed?, htext, hread, Option.bind_some, entries?_document]

/-! ### Names stay apart -/

/-- **Quoted names stay apart.** Reading undoes the quoting of every name, with any blanks around the
quotes. So of tables with different names none is lost or merged: every list of them has a document,
each document that lists them is read as a schema of just these tables, and each order of them gives
a table its own columns. Among other tables, quoted or not, a quoted name changes what is known of
that name alone. -/
theorem quoted_names_stay_apart :
    (∀ quoted : Identifier.QuotedName, Identifier.normalize quoted.spelling = quoted.name) ∧
    (∀ tables : List QuotedTable, (tables.map fun table => table.name).Nodup →
      (∃ text, listed? text = some (tables.map QuotedTable.written)) ∧
      (∀ text, listed? text = some (tables.map QuotedTable.written) →
        ofDocument text = .ok ⟨tables.map QuotedTable.known⟩) ∧
      ∀ order : List QuotedTable, order.Perm tables → ∀ table ∈ tables,
        (ofTables (order.map QuotedTable.written)).columns? table.name = some table.known.2) ∧
    ∀ (before after : List (String × List String)) (table : QuotedTable) (name : String),
      table.name ≠ name →
        (ofTables (before ++ table.written :: after)).columns? name =
          (ofTables (before ++ after)).columns? name := by
  refine ⟨Identifier.normalize_spelling, ?_, ?_⟩
  · intro tables hnames
    refine ⟨exists_listed? tables, fun text => ofDocument_of_listed? hnames, ?_⟩
    intro order hperm table htable
    have horder : (order.map fun table => table.name).Nodup :=
      (hperm.map _).nodup_iff.mpr hnames
    exact columns?_ofTables_written horder (hperm.mem_iff.mpr htable)
  · intro before after table name hname
    have hspelling : Identifier.normalize table.written.1 ≠ name := by
      rwa [QuotedTable.written, Identifier.normalize_spelling table.toQuotedName]
    exact columns?_ofTables_of_ne before after hspelling

/-- Names that differ in their backticks and blanks alone, one of them empty. -/
theorem quoted_names_stay_apart_backticks :
    let one : QuotedTable := ⟨⟨[], "a\x60b", [], List.all_eq_true.mp rfl,
      List.all_eq_true.mp rfl⟩, ["id"]⟩
    let two : QuotedTable := ⟨⟨[' '], "a\x60\x60b", ['\u00a0'], List.all_eq_true.mp rfl,
      List.all_eq_true.mp rfl⟩, ["\x60id\x60", "key"]⟩
    let nameless : QuotedTable := ⟨⟨['\t'], "", ['\u2003'], List.all_eq_true.mp rfl,
      List.all_eq_true.mp rfl⟩, ["id"]⟩
    let blank : QuotedTable := ⟨⟨[], " \x60", ['\n'], List.all_eq_true.mp rfl,
      List.all_eq_true.mp rfl⟩, []⟩
    let tables := [one, two, nameless, blank]
    let text := "\x7b \"tables\": \x7b \"\x60a\x60\x60b\x60\": [\"id\"], " ++
      "\" \x60a\x60\x60\x60\x60b\x60\u00a0\": [\"\x60id\x60\", \x7b\"name\": \"key\"\x7d], " ++
      "\"\\t\x60\x60\\u2003\": [\"id\"], \"\x60 \x60\x60\x60\\n\": [] \x7d \x7d"
    (tables.map fun table => table.name).Nodup ∧
      listed? text = some (tables.map QuotedTable.written) ∧
      ofDocument text = .ok ⟨tables.map QuotedTable.known⟩ ∧
      (ofTables (tables.reverse.map QuotedTable.written)).columns? "a\x60\x60b" =
        some [⟨"a\x60\x60b", "id"⟩, ⟨"a\x60\x60b", "key"⟩] ∧
      (ofTables [("a\x60\x60b", ["id"]), two.written]).columns? "a\x60b" =
        (ofTables [("a\x60\x60b", ["id"])]).columns? "a\x60b" := by
  intro one two nameless blank tables text
  obtain ⟨-, hdistinct, hother⟩ := quoted_names_stay_apart
  have hnames : (tables.map fun table => table.name).Nodup := by decide +kernel
  have hlisted : listed? text = some (tables.map QuotedTable.written) := by decide +kernel
  obtain ⟨-, hread, horder⟩ := hdistinct tables hnames
  have htwo : two ∈ tables := .tail one (.head [nameless, blank])
  have hne : two.name ≠ "a\x60b" := by decide +kernel
  have hcolumns : two.known.2 = [⟨"a\x60\x60b", "id"⟩, ⟨"a\x60\x60b", "key"⟩] := by decide +kernel
  refine ⟨hnames, hlisted, hread text hlisted, ?_, hother [("a\x60\x60b", ["id"])] [] two _ hne⟩
  rw [← hcolumns]
  exact horder tables.reverse tables.reverse_perm two htwo

end DumpMask.Schema
