import DumpMask.Proofs.Literal.Bodies

/-!
# Literals as text

The value of a literal that stands in a text is text, unless it is given by hexadecimal digits:
these spell any octets. Written literals are text if the value is, and hexadecimal ones always are.
-/

namespace DumpMask

open Utf8 (isValid)

theorem Bytes.AllBlank.isAscii {bytes : Bytes} (h : bytes.AllBlank) : bytes.IsAscii := by
  intro b hb
  have hblank := h b hb
  simp only [Ascii.isBlank, Bool.or_eq_true, beq_iff_eq] at hblank
  obtain (((rfl | rfl) | rfl) | rfl) | rfl := hblank <;> decide

theorem Bytes.isValid_trim {text : Bytes} (h : isValid text) : isValid (trim text) := by
  obtain ⟨lead, trail, hlead, htrail, htext⟩ := exists_trim text
  rw [htext, Utf8.isValid_ascii_append_iff hlead.isAscii,
    Utf8.isValid_append_ascii_iff htrail.isAscii] at h
  exact h

namespace Literal

variable {value text : Bytes} {literal : Literal}

/-! ### String bodies -/

theorem escapeOctet_cases :
    ∀ b, (b < 0x80 ∧ (escapeOctet b).IsAscii) ∨ escapeOctet b = [b] :=
  Bytes.forall_octet (by decide +kernel)

theorem isValid_escape (h : isValid value) : isValid (escape value) :=
  (Utf8.edits_flatMap escapeOctet_cases value).isValid h

theorem isAscii_of_mem_escapeTable :
    ∀ entry ∈ escapeTable, entry.1 < 0x80 ∧ Bytes.IsAscii entry.2 := by
  decide

/-- A token that is read loses its backslash and has ASCII octets for the code behind it. -/
theorem edits_tokens (tokens : List Token) :
    Utf8.Edits (tokens.flatMap Token.text) (tokens.flatMap Token.meaning) := by
  induction tokens with
  | nil => exact .nil
  | cons token tokens ih =>
    cases token with
    | plain b => exact .keep b ih
    | doubled => exact .erase (by decide) (.keep Ascii.quote ih)
    | escaped code meaning hmeaning =>
      obtain ⟨hcode, hascii⟩ := isAscii_of_mem_escapeTable _ hmeaning
      exact .erase (by decide) (.replace hcode hascii ih)

theorem edits_of_unescapeFrom {offset : Nat} {body : Bytes}
    (h : unescapeFrom offset body = .ok value) : Utf8.Edits body value := by
  obtain ⟨tokens, rfl, rfl⟩ := unescapeFrom_eq_ok_iff.mp h
  exact edits_tokens tokens

theorem isValid_of_unquote {rest : Bytes} (h : unquote (Ascii.quote :: rest) = .ok value)
    (hrest : isValid rest) : isValid value := by
  obtain ⟨inner, rfl, hinner⟩ := exists_inner_of_unquote h
  rw [Utf8.isValid_append_ascii_iff (by decide)] at hrest
  exact (edits_of_unescapeFrom hinner).isValid hrest

/-! ### Whole literals -/

theorem isValid_of_read (h : read text = .ok literal) (htext : isValid text)
    (hkind : literal.kind ≠ .hex) : isValid literal.value := by
  have htoken := Bytes.isValid_trim htext
  rw [read] at h
  generalize Bytes.trim text = token at h htoken
  have hreading := reading token
  rw [h] at hreading
  generalize hresult : Except.ok literal = result at hreading
  cases hreading with
  | empty => cases hresult
  | null =>
    cases hresult
    exact Utf8.isValid_nil
  | binary hblanks rest =>
    obtain ⟨value, hvalue, rfl⟩ := map_eq_ok_iff.mp hresult.symm
    rw [Utf8.isValid_ascii_append_iff (by decide), Utf8.isValid_ascii_append_iff hblanks.isAscii,
      Utf8.isValid_ascii_cons_iff (by decide)] at htoken
    exact isValid_of_unquote hvalue htoken
  | quoted rest =>
    obtain ⟨value, hvalue, rfl⟩ := map_eq_ok_iff.mp hresult.symm
    rw [Utf8.isValid_ascii_cons_iff (by decide)] at htoken
    exact isValid_of_unquote hvalue htoken
  | hex =>
    obtain ⟨value, -, rfl⟩ := map_eq_ok_iff.mp hresult.symm
    exact absurd rfl hkind
  | bare =>
    cases hresult
    exact htoken
  | invalid => cases hresult

theorem isValid_writeQuoted (h : isValid value) : isValid (writeQuoted value) := by
  rw [writeQuoted, Utf8.isValid_ascii_cons_iff (by decide),
    Utf8.isValid_append_ascii_iff (by decide)]
  exact isValid_escape h

theorem lt_of_isBareOctet : ∀ b, isBareOctet b = true → b < 0x80 :=
  Bytes.forall_octet (by decide +kernel)

/-- Hexadecimal digits are ASCII, whatever octets they spell. -/
theorem isValid_write (h : literal.kind ≠ .hex → isValid literal.value) :
    isValid (write literal) := by
  obtain ⟨kind, value⟩ := literal
  cases kind with
  | null =>
    rw [write]
    decide
  | quoted => exact isValid_writeQuoted (h (by simp))
  | binary =>
    rw [write, Utf8.isValid_ascii_append_iff (by decide), Utf8.isValid_ascii_cons_iff (by decide)]
    exact isValid_writeQuoted (h (by simp))
  | hex =>
    rw [write]
    split
    · next hempty =>
      rw [List.isEmpty_iff.mp hempty]
      decide
    · apply Utf8.isValid_of_isAscii
      intro b hb
      exact lt_of_isBareOctet b (List.all_eq_true.mp (all_isBareOctet_hex value) b hb)
  | bare =>
    rw [write]
    split
    · exact h (by simp)
    · exact isValid_writeQuoted (h (by simp))

end Literal

end DumpMask
