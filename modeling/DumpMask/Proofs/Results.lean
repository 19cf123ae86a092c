/-!
# Results

When a computation that may fail gives a value or an error, in terms of its parts.
-/

namespace DumpMask

variable {ε α β : Type}

theorem bind_eq_ok_iff {result : Except ε α} {next : α → Except ε β} {value : β} :
    (result >>= next) = .ok value ↔ ∃ first, result = .ok first ∧ next first = .ok value := by
  cases result <;> simp [bind, Except.bind]

theorem bind_eq_error_iff {result : Except ε α} {next : α → Except ε β} {error : ε} :
    (result >>= next) = .error error ↔
      result = .error error ∨ ∃ first, result = .ok first ∧ next first = .error error := by
  cases result <;> simp [bind, Except.bind]

theorem map_eq_ok_iff {result : Except ε α} {f : α → β} {value : β} :
    f <$> result = .ok value ↔ ∃ first, result = .ok first ∧ f first = value := by
  cases result <;> simp [Functor.map, Except.map]

theorem map_eq_error_iff {result : Except ε α} {f : α → β} {error : ε} :
    f <$> result = .error error ↔ result = .error error := by
  cases result <;> simp [Functor.map, Except.map]

theorem mapError_eq_ok_iff {ε' : Type} {f : ε → ε'} {result : Except ε α} {value : α} :
    result.mapError f = .ok value ↔ result = .ok value := by
  cases result with
  | error fault => exact ⟨nofun, nofun⟩
  | ok found =>
    constructor
    all_goals
      intro h
      cases h
      rfl

theorem mapM_eq_ok_iff {f : α → Except ε β} {items : List α} {values : List β} :
    items.mapM f = .ok values ↔ values.map Except.ok = items.map f := by
  induction items generalizing values with
  | nil => cases values <;> simp [pure, Except.pure]
  | cons item rest ih =>
    rw [List.mapM_cons, bind_eq_ok_iff, List.map_cons]
    constructor
    · rintro ⟨value, hvalue, hrest⟩
      obtain ⟨others, hothers, hvalues⟩ := bind_eq_ok_iff.mp hrest
      cases hvalues
      rw [List.map_cons, hvalue, ih.mp hothers]
    · intro h
      cases values with
      | nil => cases h
      | cons value others =>
        obtain ⟨hvalue, hothers⟩ := List.cons.inj h
        exact ⟨value, hvalue.symm, bind_eq_ok_iff.mpr ⟨others, ih.mpr hothers, rfl⟩⟩

theorem exists_of_mapM_eq_error {f : α → Except ε β} {items : List α} {error : ε}
    (h : items.mapM f = .error error) : ∃ item ∈ items, f item = .error error := by
  induction items with
  | nil => cases h
  | cons item rest ih =>
    rw [List.mapM_cons] at h
    obtain hitem | ⟨value, -, hrest⟩ := bind_eq_error_iff.mp h
    · exact ⟨item, List.mem_cons_self .., hitem⟩
    · obtain hrest | ⟨others, -, h⟩ := bind_eq_error_iff.mp hrest
      · obtain ⟨other, hother, herror⟩ := ih hrest
        exact ⟨other, List.mem_cons_of_mem _ hother, herror⟩
      · cases h

theorem exists_mapM_iff {f : α → Except ε β} {items : List α} :
    (∃ values, items.mapM f = .ok values) ↔ ∀ item ∈ items, ∃ value, f item = .ok value := by
  constructor
  · rintro ⟨values, hvalues⟩ item hitem
    have hmem : f item ∈ values.map Except.ok := by
      rw [mapM_eq_ok_iff.mp hvalues]
      exact List.mem_map_of_mem hitem
    obtain ⟨value, -, hvalue⟩ := List.mem_map.mp hmem
    exact ⟨value, hvalue.symm⟩
  · intro h
    cases hresult : items.mapM f with
    | ok values => exact ⟨values, rfl⟩
    | error error =>
      obtain ⟨item, hitem, herror⟩ := exists_of_mapM_eq_error hresult
      obtain ⟨value, hvalue⟩ := h item hitem
      rw [hvalue] at herror
      cases herror

theorem toOption_eq_some_iff {result : Except ε α} {value : α} :
    result.toOption = some value ↔ result = .ok value := by
  cases result <;> simp [Except.toOption]

/-- Errors need no decidable equality for a closed result to be computed. -/
theorem eq_ok_of_toOption {result : Except ε α} {value : α} (h : result.toOption = some value) :
    result = .ok value :=
  toOption_eq_some_iff.mp h

theorem exists_error_of_toOption {result : Except ε α} (h : result.toOption = none) :
    ∃ error, result = .error error := by
  cases result with
  | error error => exact ⟨error, rfl⟩
  | ok value => cases h

end DumpMask
