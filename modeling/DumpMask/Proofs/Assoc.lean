import DumpMask.Assoc
import Mathlib.Data.List.Nodup

/-!
# Looking up in a table of entries

A table that is filled by a list of entries holds under each key the value of the last entry with
that key. If the entries with a key agree, their order does not matter. The keys of such a table are
distinct, so a look-up finds every entry of it, and the look-ups tell what it holds.
-/

namespace DumpMask.Assoc

universe u v

variable {α : Type u} {β : Type v} [DecidableEq α] {key : α} {value : β} {entries : List (α × β)}

theorem find?_append (key : α) (left right : List (α × β)) :
    find? key (left ++ right) = (find? key left).or (find? key right) := by
  induction left with
  | nil => rfl
  | cons entry rest ih =>
    obtain ⟨k, v⟩ := entry
    rw [List.cons_append, find?, find?]
    split
    · rfl
    · exact ih

theorem find?_foldl_insert (key : α) (entries table : List (α × β)) :
    find? key (entries.foldl (fun table (key, value) => insert key value table) table) =
      (find? key entries.reverse).or (find? key table) := by
  induction entries generalizing table with
  | nil => rfl
  | cons entry rest ih =>
    obtain ⟨k, v⟩ := entry
    rw [List.foldl_cons, ih, find?_insert, List.reverse_cons, find?_append, Option.or_assoc]
    by_cases hk : k = key <;> simp [find?, hk]

theorem find?_ofList (key : α) (entries : List (α × β)) :
    find? key (ofList entries) = find? key entries.reverse := by
  rw [ofList, find?_foldl_insert, find?_nil, Option.or_none]

theorem mem_of_find? (h : find? key entries = some value) : (key, value) ∈ entries := by
  induction entries with
  | nil => cases h
  | cons entry rest ih =>
    obtain ⟨k, v⟩ := entry
    rw [find?] at h
    split at h
    · next hk =>
      cases h
      rw [← hk]
      exact List.mem_cons_self ..
    · exact List.mem_cons_of_mem _ (ih h)

theorem find?_of_mem (hmem : (key, value) ∈ entries)
    (hunique : ∀ entry ∈ entries, entry.1 = key → entry.2 = value) :
    find? key entries = some value := by
  have hkey : key ∈ keys entries := List.mem_map.mpr ⟨_, hmem, rfl⟩
  obtain ⟨found, hfound⟩ := Option.isSome_iff_exists.mp ((find?_isSome_iff key entries).mpr hkey)
  have heq : found = value := hunique _ (mem_of_find? hfound) rfl
  rw [hfound, heq]

theorem find?_ofList_of_mem (hmem : (key, value) ∈ entries)
    (hunique : ∀ entry ∈ entries, entry.1 = key → entry.2 = value) :
    find? key (ofList entries) = some value := by
  rw [find?_ofList]
  refine find?_of_mem (List.mem_reverse.mpr hmem) ?_
  intro entry hentry
  exact hunique entry (List.mem_reverse.mp hentry)

theorem mem_of_find?_ofList (h : find? key (ofList entries) = some value) :
    (key, value) ∈ entries := by
  rw [find?_ofList] at h
  exact List.mem_reverse.mp (mem_of_find? h)

/-! ### Distinct keys -/

theorem keys_insert (key : α) (value : β) (entries : List (α × β)) :
    keys (insert key value entries) =
      if key ∈ keys entries then keys entries else keys entries ++ [key] := by
  induction entries with
  | nil => rfl
  | cons entry rest ih =>
    obtain ⟨k, v⟩ := entry
    unfold keys at ih
    by_cases hk : k = key
    · subst hk
      simp [insert, keys]
    · by_cases hmem : key ∈ rest.map Prod.fst <;> simp [insert, keys, hk, Ne.symm hk, ih, hmem]

theorem nodup_keys_insert (h : (keys entries).Nodup) (key : α) (value : β) :
    (keys (insert key value entries)).Nodup := by
  rw [keys_insert]
  split
  · exact h
  · next hnew =>
    refine List.nodup_append.mpr ⟨h, List.pairwise_singleton _ key, ?_⟩
    intro k hk other hother heq
    rw [← List.mem_singleton.mp hother, ← heq] at hnew
    exact hnew hk

theorem mem_of_mem_insert {entry : α × β} (h : entry ∈ insert key value entries) :
    entry = (key, value) ∨ entry ∈ entries := by
  induction entries with
  | nil => exact .inl (List.mem_singleton.mp h)
  | cons first rest ih =>
    obtain ⟨k, v⟩ := first
    rw [insert] at h
    split at h
    · next hk =>
      subst hk
      exact (List.mem_cons.mp h).imp_right (List.mem_cons_of_mem _)
    · obtain rfl | hrest := List.mem_cons.mp h
      · exact .inr (List.mem_cons_self ..)
      · exact (ih hrest).imp_right (List.mem_cons_of_mem _)

/-- A table that is filled entry by entry keeps its keys apart and holds nothing else. -/
theorem nodup_keys_ofList (entries : List (α × β)) : (keys (ofList entries)).Nodup := by
  have hfold : ∀ table : List (α × β), (keys table).Nodup →
      (keys (entries.foldl (fun table (key, value) => insert key value table) table)).Nodup := by
    induction entries with
    | nil => exact fun _ h => h
    | cons entry rest ih => exact fun table h => ih _ (nodup_keys_insert h entry.1 entry.2)
  exact hfold [] List.nodup_nil

theorem mem_of_mem_ofList {entry : α × β} (h : entry ∈ ofList entries) :
    entry ∈ entries := by
  have hfold : ∀ table : List (α × β),
      entry ∈ entries.foldl (fun table (key, value) => insert key value table) table →
        entry ∈ table ∨ entry ∈ entries := by
    clear h
    induction entries with
    | nil => exact fun _ h => .inl h
    | cons first rest ih =>
      intro table h
      obtain hinsert | hrest := ih _ h
      · obtain rfl | htable := mem_of_mem_insert hinsert
        · exact .inr (List.mem_cons_self ..)
        · exact .inl htable
      · exact .inr (List.mem_cons_of_mem _ hrest)
  exact (hfold [] h).resolve_left List.not_mem_nil

theorem insert_of_not_mem (h : key ∉ keys entries) (value : β) :
    insert key value entries = entries ++ [(key, value)] := by
  induction entries with
  | nil => rfl
  | cons entry rest ih =>
    obtain ⟨k, v⟩ := entry
    obtain ⟨hne, hrest⟩ := not_or.mp (mt List.mem_cons.mpr h)
    rw [insert, if_neg (Ne.symm hne), ih hrest]
    rfl

/-- Entries of distinct keys are the table of their list. -/
theorem ofList_of_nodup (h : (keys entries).Nodup) : ofList entries = entries := by
  have hfold : ∀ table : List (α × β), (keys (table ++ entries)).Nodup →
      entries.foldl (fun table (key, value) => insert key value table) table =
        table ++ entries := by
    clear h
    induction entries with
    | nil => exact fun table _ => (List.append_nil table).symm
    | cons entry rest ih =>
      intro table hnodup
      obtain ⟨key, value⟩ := entry
      have hnew : key ∉ keys table := by
        rw [keys, List.map_append, List.nodup_append] at hnodup
        exact fun hmem => hnodup.2.2 _ hmem _ (List.mem_cons_self ..) rfl
      rw [List.foldl_cons]
      dsimp only
      rw [insert_of_not_mem hnew, ih, List.append_assoc, List.singleton_append]
      rwa [List.append_assoc, List.singleton_append]
  exact hfold [] h

theorem find?_of_getElem? {index : Nat} (hkeys : (keys entries).Nodup)
    (h : entries[index]? = some (key, value)) :
    find? key entries = some value := by
  induction entries generalizing index with
  | nil => cases h
  | cons entry rest ih =>
    obtain ⟨k, v⟩ := entry
    obtain ⟨hnew, hrest⟩ := List.nodup_cons.mp hkeys
    cases index with
    | zero =>
      cases h
      exact if_pos rfl
    | succ index =>
      have hmem : key ∈ keys rest := List.mem_map.mpr ⟨_, List.mem_of_getElem? h, rfl⟩
      have hne : k ≠ key := fun heq => hnew (heq ▸ hmem)
      rw [find?, if_neg hne]
      exact ih hrest h

theorem find?_eq_some_iff_mem (hkeys : (keys entries).Nodup) :
    find? key entries = some value ↔ (key, value) ∈ entries := by
  constructor
  · exact mem_of_find?
  · intro hmem
    obtain ⟨index, hindex⟩ := List.mem_iff_getElem?.mp hmem
    exact find?_of_getElem? hkeys hindex

/-- Two tables of distinct keys hold the same entries if every look-up gives the same. -/
theorem perm_iff_find?_eq {left right : List (α × β)} (hleft : (keys left).Nodup)
    (hright : (keys right).Nodup) : left.Perm right ↔ ∀ key, find? key left = find? key right := by
  rw [List.perm_ext_iff_of_nodup (List.Nodup.of_map Prod.fst hleft)
    (List.Nodup.of_map Prod.fst hright)]
  constructor
  · intro hmem key
    refine Option.ext fun value => ?_
    rw [find?_eq_some_iff_mem hleft, find?_eq_some_iff_mem hright]
    exact hmem (key, value)
  · rintro hfind ⟨key, value⟩
    rw [← find?_eq_some_iff_mem hleft, ← find?_eq_some_iff_mem hright, hfind key]

end DumpMask.Assoc
