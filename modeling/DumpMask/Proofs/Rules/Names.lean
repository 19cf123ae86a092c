import DumpMask.Proofs.Assoc
import DumpMask.Rules.Reader

/-!
# Names in documents

A document may repeat a name, but the table that is read from it has every name once. So the tables
of a rules document have distinct names, and so have the columns of each of them.
-/

namespace DumpMask

namespace Json

variable {α : Type} {read : Json → Option α} {json : Json} {entries : List (String × α)}

/-- The entries of a table as the document has them, with the names that it repeats. -/
def entries? (read : Json → Option α) : Json → Option (List (String × α))
  | .object members => members.mapM fun (name, value) => do return (name, ← read value)
  | _ => none

theorem table?_eq_map_entries? (read : Json → Option α) (json : Json) :
    json.table? read = (json.entries? read).map Assoc.ofList := by
  cases json with
  | object members =>
    rw [table?, entries?]
    exact Option.map_eq_bind.symm
  | _ => rfl

theorem exists_read_of_mem_entries? (h : json.entries? read = some entries) {entry : String × α}
    (hentry : entry ∈ entries) : ∃ value, read value = some entry.2 := by
  unfold entries? at h
  split at h
  · next members =>
    induction members generalizing entries with
    | nil =>
      cases h
      cases hentry
    | cons member rest ih =>
      rw [List.mapM_cons] at h
      obtain ⟨first, hfirst, hrest⟩ := Option.bind_eq_some_iff.mp h
      obtain ⟨others, hothers, hentries⟩ := Option.bind_eq_some_iff.mp hrest
      obtain ⟨value, hvalue, hpair⟩ := Option.bind_eq_some_iff.mp hfirst
      cases hentries
      cases hpair
      obtain rfl | hmem := List.mem_cons.mp hentry
      · exact ⟨member.2, hvalue⟩
      · exact ih hmem hothers
  · cases h

theorem nodup_keys_of_table? (h : json.table? read = some entries) :
    (Assoc.keys entries).Nodup := by
  rw [table?_eq_map_entries?] at h
  obtain ⟨listed, -, rfl⟩ := Option.map_eq_some_iff.mp h
  exact Assoc.nodup_keys_ofList listed

theorem exists_read_of_mem_table? (h : json.table? read = some entries) {entry : String × α}
    (hentry : entry ∈ entries) : ∃ value, read value = some entry.2 := by
  rw [table?_eq_map_entries?] at h
  obtain ⟨listed, hlisted, rfl⟩ := Option.map_eq_some_iff.mp h
  exact exists_read_of_mem_entries? hlisted (Assoc.mem_of_mem_ofList hentry)

/-- A table that may be missing is empty then. -/
theorem standard_table?_cases {field : Option Json}
    (h : standard [] (table? read) field = some entries) :
    entries = [] ∨ ∃ json : Json, json.table? read = some entries := by
  cases field with
  | none => exact .inl (Option.some.inj h).symm
  | some json => exact .inr ⟨json, h⟩

end Json

theorem TableRule.nodup_keys_of_ofJson? {json : Json} {columns : List (String × FieldRule)}
    (h : TableRule.ofJson? json = some (.columns columns)) : (Assoc.keys columns).Nodup := by
  unfold ofJson? at h
  split at h
  · next rule hrule =>
    have htruncate : rule = .truncate := by
      unfold Json.choice? at hrule
      split at hrule
      · cases List.mem_singleton.mp (Assoc.mem_of_find? hrule)
        rfl
      · cases List.mem_singleton.mp (Assoc.mem_of_find? hrule)
        rfl
      · cases hrule
    rw [htruncate] at h
    cases h
  · obtain ⟨found, hfound, hcolumns⟩ := Option.map_eq_some_iff.mp h
    cases hcolumns
    exact Json.nodup_keys_of_table? hfound

namespace Rules

/-- Every table has one rule, and so has every column of a table. -/
structure NamesDistinct (rules : Rules) : Prop where
  tables : (Assoc.keys rules.tables).Nodup
  columns : ∀ table columns, (table, .columns columns) ∈ rules.tables →
    (Assoc.keys columns).Nodup

theorem namesDistinct_of_ofJson? {json : Json} {rules : Rules} (h : ofJson? json = some rules) :
    rules.NamesDistinct := by
  obtain ⟨fields, -, h⟩ := Option.bind_eq_some_iff.mp h
  split at h
  · obtain ⟨version, -, h⟩ := Option.bind_eq_some_iff.mp h
    obtain ⟨secret, -, h⟩ := Option.bind_eq_some_iff.mp h
    obtain ⟨threshold, -, h⟩ := Option.bind_eq_some_iff.mp h
    obtain ⟨tables, htables, h⟩ := Option.bind_eq_some_iff.mp h
    cases h
    obtain rfl | ⟨json, hjson⟩ := Json.standard_table?_cases htables
    · exact ⟨List.nodup_nil, fun _ _ hmem => absurd hmem List.not_mem_nil⟩
    · refine ⟨Json.nodup_keys_of_table? hjson, ?_⟩
      intro table columns hmem
      obtain ⟨value, hvalue⟩ := Json.exists_read_of_mem_table? hjson hmem
      exact TableRule.nodup_keys_of_ofJson? hvalue
  · cases h

theorem namesDistinct_of_read {text : String} {rules : Rules} (h : read text = some rules) :
    rules.NamesDistinct := by
  obtain ⟨json, -, hjson⟩ := Option.bind_eq_some_iff.mp h
  exact namesDistinct_of_ofJson? hjson

end Rules

end DumpMask
