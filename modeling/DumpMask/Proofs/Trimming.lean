import DumpMask.Bytes

/-!
# Runs of blanks

Readers skip runs of blanks on both sides of what they read. A text with no blank at its ends is cut
out of such runs as a whole, so skipping finds the same ends however long the runs are. What is said
of blanks in front holds of the run of any class.
-/

namespace DumpMask

/-! ### Runs of a class -/

section Runs

variable {α : Type} {inClass : α → Bool} {run tail : List α}

theorem takeWhile_append_stop (htail : ∀ a ∈ tail.head?, inClass a = false) :
    (run ++ tail).takeWhile inClass = run.takeWhile inClass := by
  have hstop : tail.takeWhile inClass = [] := by
    cases tail with
    | nil => rfl
    | cons a rest => exact List.takeWhile_cons_of_neg (Bool.eq_false_iff.mp (htail a rfl))
  induction run with
  | nil => exact hstop
  | cons a rest ih => rw [List.cons_append, List.takeWhile_cons, List.takeWhile_cons, ih]

theorem dropWhile_append_stop (htail : ∀ a ∈ tail.head?, inClass a = false) :
    (run ++ tail).dropWhile inClass = run.dropWhile inClass ++ tail := by
  have hstop : tail.dropWhile inClass = tail := by
    cases tail with
    | nil => rfl
    | cons a rest => exact List.dropWhile_cons_of_neg (Bool.eq_false_iff.mp (htail a rfl))
  induction run with
  | nil => exact hstop
  | cons a rest ih =>
    rw [List.cons_append, List.dropWhile_cons, List.dropWhile_cons, ih]
    split
    · rfl
    · rfl

theorem takeWhile_run (hrun : ∀ a ∈ run, inClass a = true)
    (htail : ∀ a ∈ tail.head?, inClass a = false) : (run ++ tail).takeWhile inClass = run := by
  have hall : (run ++ []).takeWhile inClass = run ++ [] := List.takeWhile_append_of_pos hrun
  rw [List.append_nil] at hall
  rw [takeWhile_append_stop htail, hall]

theorem dropWhile_run (hrun : ∀ a ∈ run, inClass a = true)
    (htail : ∀ a ∈ tail.head?, inClass a = false) : (run ++ tail).dropWhile inClass = tail := by
  have hnone : (run ++ []).dropWhile inClass = [] := List.dropWhile_append_of_pos hrun
  rw [List.append_nil] at hnone
  rw [dropWhile_append_stop htail, hnone, List.nil_append]

end Runs

namespace Bytes

def AllBlank (bytes : Bytes) : Prop := ∀ b ∈ bytes, Ascii.isBlank b = true

def NoLeadingBlank (bytes : Bytes) : Prop := ∀ b ∈ bytes.head?, Ascii.isBlank b = false

def NoTrailingBlank (bytes : Bytes) : Prop := ∀ b ∈ bytes.getLast?, Ascii.isBlank b = false

instance (bytes : Bytes) : Decidable (AllBlank bytes) :=
  decidable_of_iff (bytes.all Ascii.isBlank = true) List.all_eq_true

/-- No blank stands at either end. -/
structure IsTrimmed (bytes : Bytes) : Prop where
  leading : NoLeadingBlank bytes
  trailing : NoTrailingBlank bytes

theorem allBlank_nil : AllBlank [] := by
  intro b hb
  cases hb

theorem allBlank_append_iff {left right : Bytes} :
    AllBlank (left ++ right) ↔ AllBlank left ∧ AllBlank right := by
  simp only [AllBlank, List.mem_append]
  exact ⟨fun h => ⟨fun b hb => h b (Or.inl hb), fun b hb => h b (Or.inr hb)⟩,
    fun h b hb => hb.elim (h.1 b) (h.2 b)⟩

theorem noLeadingBlank_nil : NoLeadingBlank [] := by
  intro b hb
  cases hb

theorem noLeadingBlank_cons_iff {b : UInt8} {rest : Bytes} :
    NoLeadingBlank (b :: rest) ↔ Ascii.isBlank b = false := by
  simp [NoLeadingBlank]

theorem NoLeadingBlank.append_of_ne_nil {left : Bytes} (h : NoLeadingBlank left) (hne : left ≠ [])
    (right : Bytes) : NoLeadingBlank (left ++ right) := by
  cases left with
  | nil => exact absurd rfl hne
  | cons b rest => exact noLeadingBlank_cons_iff.mpr (noLeadingBlank_cons_iff.mp h)

theorem noTrailingBlank_concat_iff {bytes : Bytes} {b : UInt8} :
    NoTrailingBlank (bytes ++ [b]) ↔ Ascii.isBlank b = false := by
  simp [NoTrailingBlank]

theorem noTrailingBlank_of_cons {b : UInt8} {rest : Bytes} (h : NoTrailingBlank (b :: rest)) :
    NoTrailingBlank rest := by
  intro last hlast
  apply h
  rw [List.getLast?_cons, Option.mem_def.mp hlast]
  rfl

/-! ### Skipping blanks in front -/

theorem allBlank_takeWhile (bytes : Bytes) : AllBlank (bytes.takeWhile Ascii.isBlank) := by
  have hall : (bytes.takeWhile Ascii.isBlank).all Ascii.isBlank = true := List.all_takeWhile
  exact List.all_eq_true.mp hall

theorem noLeadingBlank_dropWhile (bytes : Bytes) :
    NoLeadingBlank (bytes.dropWhile Ascii.isBlank) := by
  intro b hb
  have hnot := List.head?_dropWhile_not Ascii.isBlank bytes
  rw [Option.mem_def.mp hb] at hnot
  exact hnot

theorem takeWhile_append {blanks text : Bytes} (hblanks : AllBlank blanks)
    (htext : NoLeadingBlank text) : (blanks ++ text).takeWhile Ascii.isBlank = blanks :=
  takeWhile_run hblanks htext

theorem dropWhile_append {blanks text : Bytes} (hblanks : AllBlank blanks)
    (htext : NoLeadingBlank text) : (blanks ++ text).dropWhile Ascii.isBlank = text :=
  dropWhile_run hblanks htext

theorem dropWhile_of_noLeadingBlank {text : Bytes} (htext : NoLeadingBlank text) :
    text.dropWhile Ascii.isBlank = text :=
  dropWhile_append allBlank_nil htext

/-! ### Skipping blanks behind -/

theorem splitTrailing_of_allBlank {blanks : Bytes} (hblanks : AllBlank blanks) :
    splitTrailing blanks = ([], blanks) := by
  induction blanks with
  | nil => rfl
  | cons b rest ih =>
    have hb : Ascii.isBlank b = true := hblanks b (List.mem_cons_self ..)
    have hrest : AllBlank rest := fun c hc => hblanks c (List.mem_cons_of_mem b hc)
    rw [splitTrailing, ih hrest]
    simp [hb]

theorem splitTrailing_append_of_noTrailingBlank {kept blanks : Bytes} (hkept : NoTrailingBlank kept)
    (hblanks : AllBlank blanks) : splitTrailing (kept ++ blanks) = (kept, blanks) := by
  induction kept with
  | nil => exact splitTrailing_of_allBlank hblanks
  | cons b rest ih =>
    by_cases hne : rest = []
    · subst hne
      have hb : Ascii.isBlank b = false := hkept b rfl
      rw [List.cons_append, List.nil_append, splitTrailing, splitTrailing_of_allBlank hblanks]
      simp [hb]
    · rw [List.cons_append, splitTrailing, ih (noTrailingBlank_of_cons hkept)]
      split
      · next heq => exact absurd (congrArg Prod.fst heq) hne
      · next heq =>
        cases heq
        rfl

theorem noTrailingBlank_splitTrailing (bytes : Bytes) :
    NoTrailingBlank (splitTrailing bytes).1 := by
  induction bytes with
  | nil => exact noLeadingBlank_nil
  | cons b rest ih =>
    unfold splitTrailing
    split
    · next blanks h =>
      split
      · exact noLeadingBlank_nil
      · next hb =>
        change NoTrailingBlank ([] ++ [b])
        exact noTrailingBlank_concat_iff.mpr (by simpa using hb)
    · next kept blanks hne h =>
      intro last hlast
      rw [h] at ih
      cases hkept : kept.getLast? with
      | none => exact absurd (List.getLast?_eq_none_iff.mp hkept) hne
      | some c =>
        rw [Option.mem_def, List.getLast?_cons, hkept] at hlast
        cases hlast
        exact ih c hkept

theorem allBlank_splitTrailing (bytes : Bytes) : AllBlank (splitTrailing bytes).2 :=
  splitTrailing_snd_blank bytes

theorem trim_of_isTrimmed {bytes : Bytes} (h : IsTrimmed bytes) : trim bytes = bytes := by
  have hend := splitTrailing_append_of_noTrailingBlank h.trailing allBlank_nil
  rw [List.append_nil] at hend
  rw [trim, trimStart, dropWhile_of_noLeadingBlank h.leading, trimEnd, hend]

theorem isTrimmed_trim (bytes : Bytes) : IsTrimmed (trim bytes) := by
  refine ⟨?_, noTrailingBlank_splitTrailing (trimStart bytes)⟩
  intro b hb
  have hstart := noLeadingBlank_dropWhile bytes
  rw [← splitTrailing_append (bytes.dropWhile Ascii.isBlank)] at hstart
  apply hstart
  rw [List.head?_append, ← trimStart, ← trimEnd, ← trim, Option.mem_def.mp hb]
  rfl

instance (bytes : Bytes) : Decidable (IsTrimmed bytes) :=
  decidable_of_iff (trim bytes = bytes) ⟨fun h => h ▸ isTrimmed_trim bytes, trim_of_isTrimmed⟩

theorem exists_trim (bytes : Bytes) :
    ∃ lead trail, AllBlank lead ∧ AllBlank trail ∧ bytes = lead ++ (trim bytes ++ trail) := by
  refine ⟨bytes.takeWhile Ascii.isBlank, (splitTrailing (trimStart bytes)).2,
    allBlank_takeWhile bytes, allBlank_splitTrailing _, ?_⟩
  rw [trim, trimEnd, splitTrailing_append, trimStart, List.takeWhile_append_dropWhile]

end Bytes

end DumpMask
