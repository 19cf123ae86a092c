import DumpMask.Proofs.Masker.Scope
import DumpMask.Schema.Reader

/-!
# Spellings of one name

The tables of a schema document come in no order of their own, and two of them may spell the same
name, one with backticks or blanks and the other without. The schema then keeps the columns of the
spelling that is enumerated last. Main statement: what a schema knows about a table is independent of
the order exactly when all spellings of its name give the same columns.
-/

namespace DumpMask.Schema

/-- All spellings of a table's name give it the same columns. -/
def SpellingsAgree (tables : List (String × List String)) (table : String) : Prop :=
  ∀ entry ∈ tables, ∀ other ∈ tables, Identifier.normalize entry.1 = table →
    Identifier.normalize other.1 = table →
      entry.2.map Identifier.normalize = other.2.map Identifier.normalize

variable {tables order : List (String × List String)} {table : String}

theorem SpellingsAgree.perm (h : SpellingsAgree tables table) (hperm : order.Perm tables) :
    SpellingsAgree order table := by
  intro entry hentry other hother
  exact h entry (hperm.mem_iff.mp hentry) other (hperm.mem_iff.mp hother)

theorem tableColumns_eq (entry : String × List String) :
    tableColumns entry.1 entry.2 = (Identifier.normalize entry.1,
      (entry.2.map Identifier.normalize).map (ColumnId.mk (Identifier.normalize entry.1))) := by
  rw [tableColumns, List.map_map]
  rfl

/-- The last spelling counts. -/
theorem columns?_ofTables_concat (before : List (String × List String))
    (entry : String × List String) :
    (ofTables (before ++ [entry])).columns? (Identifier.normalize entry.1) =
      some (tableColumns entry.1 entry.2).2 := by
  rw [columns?, ofTables, Assoc.find?_ofList, List.map_append, List.reverse_append]
  exact if_pos rfl

theorem columns?_ofTables_of_agree (h : SpellingsAgree tables table)
    {entry : String × List String} (hentry : entry ∈ tables)
    (hname : Identifier.normalize entry.1 = table) :
    (ofTables tables).columns? table = some (tableColumns entry.1 entry.2).2 := by
  apply Assoc.find?_ofList_of_mem
  · rw [← hname]
    exact List.mem_map.mpr ⟨entry, hentry, rfl⟩
  · intro found hfound hkey
    obtain ⟨other, hother, rfl⟩ := List.mem_map.mp hfound
    have hother' : Identifier.normalize other.1 = table := hkey
    dsimp only
    rw [tableColumns_eq, tableColumns_eq, hname, hother', h entry hentry other hother hname hother']

theorem columns?_ofTables_isSome_iff :
    ((ofTables tables).columns? table).isSome = true ↔
      ∃ entry ∈ tables, Identifier.normalize entry.1 = table := by
  rw [columns?, ofTables, Assoc.find?_ofList, Assoc.find?_isSome_iff, Assoc.keys, List.mem_map]
  constructor
  · rintro ⟨found, hfound, rfl⟩
    obtain ⟨entry, hentry, rfl⟩ := List.mem_map.mp (List.mem_reverse.mp hfound)
    exact ⟨entry, hentry, rfl⟩
  · rintro ⟨entry, hentry, rfl⟩
    exact ⟨_, List.mem_reverse.mpr (List.mem_map.mpr ⟨entry, hentry, rfl⟩), rfl⟩

theorem columns?_ofTables_perm (h : SpellingsAgree tables table) (hperm : order.Perm tables) :
    (ofTables order).columns? table = (ofTables tables).columns? table := by
  by_cases hspelled : ∃ entry ∈ tables, Identifier.normalize entry.1 = table
  · obtain ⟨entry, hentry, hname⟩ := hspelled
    rw [columns?_ofTables_of_agree h hentry hname,
      columns?_ofTables_of_agree (h.perm hperm) (hperm.mem_iff.mpr hentry) hname]
  · have hunspelled : ¬ ∃ entry ∈ order, Identifier.normalize entry.1 = table := by
      simpa only [hperm.mem_iff] using hspelled
    rw [← columns?_ofTables_isSome_iff, Bool.not_eq_true, Option.isSome_eq_false_iff,
      Option.isNone_iff_eq_none] at hspelled hunspelled
    rw [hspelled, hunspelled]

/-- Any spelling can come last. -/
theorem exists_perm_columns? {entry : String × List String} (hentry : entry ∈ tables) :
    ∃ order, order.Perm tables ∧ (ofTables order).columns? (Identifier.normalize entry.1) =
      some (tableColumns entry.1 entry.2).2 := by
  obtain ⟨before, after, rfl⟩ := List.append_of_mem hentry
  refine ⟨before ++ after ++ [entry], ?_, columns?_ofTables_concat _ entry⟩
  exact (List.perm_append_singleton entry _).trans List.perm_middle.symm

theorem spellingsAgree_of_columns?_eq
    (h : ∀ order, order.Perm tables →
      (ofTables order).columns? table = (ofTables tables).columns? table) :
    SpellingsAgree tables table := by
  intro entry hentry other hother hname hother'
  obtain ⟨order, hperm, hcolumns⟩ := exists_perm_columns? hentry
  obtain ⟨order', hperm', hcolumns'⟩ := exists_perm_columns? hother
  rw [hname, h order hperm, tableColumns_eq] at hcolumns
  rw [hother', h order' hperm', hcolumns, tableColumns_eq, hname, hother', Option.some_inj]
    at hcolumns'
  exact (List.map_inj_right fun _ _ => congrArg ColumnId.column).mp hcolumns'

theorem nodup_keys_ofTables (tables : List (String × List String)) :
    (Assoc.keys (ofTables tables).tables).Nodup :=
  Assoc.nodup_keys_ofList _

/-- **The order of the spellings decides.** Which names a schema has does not depend on the order of
its tables. What it knows about a name, and how the lines of that table are masked, does not either if
and only if the spellings of the name agree; else the one that comes last counts. -/
theorem columns?_independent_of_order_iff (tables : List (String × List String)) :
    (∀ order, order.Perm tables → ∀ table, ((ofTables order).columns? table).isSome = true ↔
      ∃ entry ∈ tables, Identifier.normalize entry.1 = table) ∧
    (∀ table, (∀ order order', order.Perm tables → order'.Perm tables →
        (ofTables order).columns? table = (ofTables order').columns? table) ↔
      SpellingsAgree tables table) ∧
    ((∀ order order', order.Perm tables → order'.Perm tables →
        (ofTables order).tables.Perm (ofTables order').tables) ↔
      ∀ table, SpellingsAgree tables table) ∧
    (∀ before entry, (before ++ [entry]).Perm tables →
      (ofTables (before ++ [entry])).columns? (Identifier.normalize entry.1) =
        some (tableColumns entry.1 entry.2).2) ∧
    ∀ (masker : Masker) table line, SpellingsAgree tables table →
      Statement.table? line = some table → ∀ order, order.Perm tables →
        masker.statementWithSchema (ofTables order) line =
          masker.statementWithSchema (ofTables tables) line := by
  have hone : ∀ table, (∀ order order', order.Perm tables → order'.Perm tables →
      (ofTables order).columns? table = (ofTables order').columns? table) ↔
        SpellingsAgree tables table := by
    intro table
    constructor
    · intro h
      exact spellingsAgree_of_columns?_eq fun order hperm => h order tables hperm (.refl _)
    · intro h order order' hperm hperm'
      rw [columns?_ofTables_perm h hperm, columns?_ofTables_perm h hperm']
  refine ⟨?_, hone, ?_, fun before entry _ => columns?_ofTables_concat before entry, ?_⟩
  · intro order hperm table
    rw [columns?_ofTables_isSome_iff]
    simp only [hperm.mem_iff]
  · simp only [← hone, Assoc.perm_iff_find?_eq (nodup_keys_ofTables _) (nodup_keys_ofTables _)]
    constructor
    · intro h table order order' hperm hperm'
      exact h order order' hperm hperm' table
    · intro h order order' hperm hperm' table
      exact h table order order' hperm hperm'
  · intro masker table line hagree htable order hperm
    exact Masker.statementWithSchema_congr
      ⟨rfl, fun _ => rfl, rfl, columns?_ofTables_perm hagree hperm⟩ (isOwned_ofTables _) htable

/-- Two spellings with the same columns, which the masker reads in either order. -/
theorem columns?_independent_of_order_agreeing :
    let tables := [("users", ["id"]), ("\x60users\x60", [" id "])]
    SpellingsAgree tables "users" ∧
      (ofTables tables.reverse).columns? "users" = (ofTables tables).columns? "users" ∧
      ∀ masker : Masker, masker.statementWithSchema (ofTables tables.reverse)
          (ascii "INSERT INTO users VALUES (1);") =
        masker.statementWithSchema (ofTables tables) (ascii "INSERT INTO users VALUES (1);") := by
  intro tables
  have hagree : SpellingsAgree tables "users" := by
    unfold SpellingsAgree
    decide +kernel
  have hperm : tables.reverse.Perm tables := List.reverse_perm tables
  obtain ⟨-, hcolumns, -, -, hlines⟩ := columns?_independent_of_order_iff tables
  refine ⟨hagree, (hcolumns "users").mpr hagree _ _ hperm (.refl _), fun masker => ?_⟩
  exact hlines masker "users" _ hagree (by decide +kernel) _ hperm

/-- A document spells one name twice, and each order of its tables gives other columns. -/
theorem columns?_depends_on_order :
    let text := "\x7b\"tables\":\x7b\"users\":[\"id\"],\"\x60users\x60\":[\"name\"]\x7d\x7d"
    let tables := [("users", ["id"]), ("\x60users\x60", ["name"])]
    read text = some (ofTables tables) ∧ (Assoc.keys tables).Nodup ∧
      tables.reverse.Perm tables ∧
      (ofTables tables).columns? "users" = some [⟨"users", "name"⟩] ∧
      (ofTables tables.reverse).columns? "users" = some [⟨"users", "id"⟩] := by
  intro text tables
  exact ⟨by decide +kernel, by decide +kernel, List.reverse_perm tables, by decide +kernel,
    by decide +kernel⟩

end DumpMask.Schema
