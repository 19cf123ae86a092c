/-!
# Association lists

Tables of named things keep the order in which the names first came, and a name that comes again
takes the later value in the earlier place.
-/

namespace DumpMask.Assoc

universe u v

variable {α : Type u} {β : Type v} [DecidableEq α]

/-- The value under a key. -/
def find? (key : α) : List (α × β) → Option β
  | [] => none
  | (k, value) :: rest => if k = key then some value else find? key rest

/-- Sets the value under a key, in its place or at the end. -/
def insert (key : α) (value : β) : List (α × β) → List (α × β)
  | [] => [(key, value)]
  | (k, v) :: rest => if k = key then (k, value) :: rest else (k, v) :: insert key value rest

def erase (key : α) : List (α × β) → List (α × β)
  | [] => []
  | (k, v) :: rest => if k = key then erase key rest else (k, v) :: erase key rest

/-- The table of a list of entries, later ones over earlier ones. -/
def ofList (entries : List (α × β)) : List (α × β) :=
  entries.foldl (fun table (key, value) => insert key value table) []

def keys (entries : List (α × β)) : List α :=
  entries.map Prod.fst

@[simp]
theorem find?_nil (key : α) : find? key ([] : List (α × β)) = none := rfl

theorem find?_insert (key other : α) (value : β) (entries : List (α × β)) :
    find? other (insert key value entries) =
      if key = other then some value else find? other entries := by
  induction entries with
  | nil => simp [insert, find?]
  | cons entry rest ih =>
    obtain ⟨k, v⟩ := entry
    by_cases hk : k = key
    · subst hk
      by_cases ho : k = other <;> simp [insert, find?, ho]
    · by_cases ho : k = other
      · subst ho
        simp [insert, find?, hk, Ne.symm hk]
      · simp [insert, find?, hk, ho, ih]

theorem find?_erase (key other : α) (entries : List (α × β)) :
    find? other (erase key entries) = if key = other then none else find? other entries := by
  induction entries with
  | nil => simp [erase]
  | cons entry rest ih =>
    obtain ⟨k, v⟩ := entry
    by_cases hk : k = key
    · subst hk
      by_cases ho : k = other <;> simp_all [erase, find?]
    · by_cases ho : k = other
      · subst ho
        simp [erase, find?, hk, Ne.symm hk]
      · simp [erase, find?, hk, ho, ih]

theorem mem_keys_insert (key other : α) (value : β) (entries : List (α × β)) :
    other ∈ keys (insert key value entries) ↔ other = key ∨ other ∈ keys entries := by
  induction entries with
  | nil => simp [insert, keys]
  | cons entry rest ih =>
    obtain ⟨k, v⟩ := entry
    unfold keys at ih
    by_cases hk : k = key
    · subst hk
      simp [insert, keys]
    · simp [insert, keys, hk, ih, or_left_comm]

theorem find?_isSome_iff (key : α) (entries : List (α × β)) :
    (find? key entries).isSome ↔ key ∈ keys entries := by
  induction entries with
  | nil => simp [keys]
  | cons entry rest ih =>
    obtain ⟨k, v⟩ := entry
    by_cases hk : k = key
    · simp [find?, keys, hk]
    · simp [find?, keys, hk, Ne.symm hk] at ih ⊢
      simpa [keys] using ih

end DumpMask.Assoc
