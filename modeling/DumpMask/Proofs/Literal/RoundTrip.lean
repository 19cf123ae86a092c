import DumpMask.Proofs.Literal.Forms

/-!
# Reading what was written

A literal that was written is read back with its value and its kind, but for the two kinds that have
no form for some values: these are written, and so read, as strings. Writing the literal that was
read gives the same text again.
-/

namespace DumpMask.Literal

/-- The kind in which a value is written. -/
def writtenKind (kind : Kind) (value : Bytes) : Kind :=
  if (kind = .hex ∧ value = []) ∨ (kind = .bare ∧ isBareToken value = false) then .quoted else kind

theorem isTrimmed_write (literal : Literal) : Bytes.IsTrimmed (write literal) := by
  have hquoted : ∀ value, Bytes.IsTrimmed (writeQuoted value) := fun value =>
    ⟨Bytes.noLeadingBlank_cons_iff.mpr (by decide), noTrailingBlank_append_writeQuoted [] value⟩
  obtain ⟨kind, value⟩ := literal
  cases kind with
  | null =>
    have hall : nullToken.all isBareOctet = true := by decide
    exact isTrimmed_of_all_isBareOctet hall
  | quoted => exact hquoted value
  | binary =>
    refine ⟨Bytes.noLeadingBlank_cons_iff.mpr (by decide), ?_⟩
    exact noTrailingBlank_append_writeQuoted (binaryIntroducer ++ [Ascii.space]) value
  | hex =>
    rw [write]
    split
    · exact hquoted value
    · exact isTrimmed_of_all_isBareOctet (all_isBareOctet_hex value)
  | bare =>
    rw [write]
    split
    · next hbare => exact isTrimmed_of_all_isBareOctet (isBareToken_iff.mp hbare).2.2.2
    · exact hquoted value

theorem read_write_null (value : Bytes) : read (write ⟨.null, value⟩) = .ok ⟨.null, []⟩ := by
  rw [read, Bytes.trim_of_isTrimmed (isTrimmed_write _)]
  rfl

theorem read_write_of_ne_null {kind : Kind} (hkind : kind ≠ .null) (value : Bytes) :
    read (write ⟨kind, value⟩) = .ok ⟨writtenKind kind value, value⟩ := by
  rw [read, Bytes.trim_of_isTrimmed (isTrimmed_write _)]
  cases kind with
  | null => exact absurd rfl hkind
  | quoted => exact readTrimmed_writeQuoted value
  | binary => exact readTrimmed_binary value
  | hex =>
    by_cases hvalue : value = []
    · rw [hvalue]
      exact readTrimmed_writeQuoted []
    · have hempty : value.isEmpty = false := by simpa using hvalue
      have hwritten : writtenKind .hex value = .hex := by simp [writtenKind, hvalue]
      rw [write, hempty, hwritten]
      exact readTrimmed_hex hvalue
  | bare =>
    by_cases hbare : isBareToken value = true
    · have hwritten : writtenKind .bare value = .bare := by simp [writtenKind, hbare]
      rw [write, if_pos hbare, hwritten]
      exact readTrimmed_bare hbare
    · have hwritten : writtenKind .bare value = .quoted := by simp [writtenKind, hbare]
      rw [write, if_neg hbare, hwritten]
      exact readTrimmed_writeQuoted value

theorem write_writtenKind (kind : Kind) (value : Bytes) :
    write ⟨writtenKind kind value, value⟩ = write ⟨kind, value⟩ := by
  unfold writtenKind
  split
  · next h =>
    rcases h with ⟨rfl, rfl⟩ | ⟨rfl, hbare⟩
    · rfl
    · simp [write, hbare]
  · rfl

/-- **Round trip.** Only NULL loses its value, and a literal that was read back is written the same
way as before. -/
theorem read_write (kind : Kind) (value : Bytes) :
    (kind ≠ .null → read (write ⟨kind, value⟩) = .ok ⟨writtenKind kind value, value⟩) ∧
      ∀ decoded, read (write ⟨kind, value⟩) = .ok decoded →
        write decoded = write ⟨kind, value⟩ := by
  refine ⟨fun hkind => read_write_of_ne_null hkind value, ?_⟩
  intro decoded hread
  by_cases hkind : kind = .null
  · rw [hkind, read_write_null] at hread
    cases hread
    rw [hkind]
    rfl
  · rw [read_write_of_ne_null hkind] at hread
    cases hread
    exact write_writtenKind kind value

theorem read_write_bare_null :
    Kind.bare ≠ .null ∧
      read (write ⟨.bare, ascii "null"⟩) = .ok ⟨.quoted, ascii "null"⟩ ∧
        write ⟨.quoted, ascii "null"⟩ = write ⟨.bare, ascii "null"⟩ := by
  have hread := (read_write .bare (ascii "null")).1 (by decide)
  have hkind : writtenKind .bare (ascii "null") = .quoted := by decide
  rw [hkind] at hread
  exact ⟨by decide, hread, (read_write .bare (ascii "null")).2 _ hread⟩

end DumpMask.Literal
