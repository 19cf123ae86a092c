import DumpMask.Literal.Codec
import DumpMask.Proofs.Trimming

/-!
# Written forms

A reader tries NULL, `_binary`, strings, hexadecimal digits and bare tokens in this order. Each form
that writing produces is told apart by its first octets, or by holding no quote at all, so none is
taken for an earlier one.
-/

namespace DumpMask.Literal

/-! ### Classes of octets -/

theorem isBareOctet_of_isBlank {b : UInt8} (h : Ascii.isBlank b = true) :
    isBareOctet b = false := by
  simp only [Ascii.isBlank, Bool.or_eq_true, beq_iff_eq] at h
  rcases h with (((rfl | rfl) | rfl) | rfl) | rfl <;> decide

theorem quote_not_mem_of_all_isBareOctet {token : Bytes} (h : token.all isBareOctet = true) :
    Ascii.quote ∉ token := by
  intro hmem
  have hquote := List.all_eq_true.mp h Ascii.quote hmem
  cases hquote

theorem isTrimmed_of_all_isBareOctet {token : Bytes} (h : token.all isBareOctet = true) :
    Bytes.IsTrimmed token := by
  have hplain : ∀ b ∈ token, Ascii.isBlank b = false := by
    intro b hb
    cases hblank : Ascii.isBlank b with
    | false => rfl
    | true =>
      have hbare := List.all_eq_true.mp h b hb
      rw [isBareOctet_of_isBlank hblank] at hbare
      cases hbare
  exact ⟨fun b hb => hplain b (List.mem_of_mem_head? hb),
    fun b hb => hplain b (List.mem_of_mem_getLast? hb)⟩

theorem hexValue?_upperHexDigit {value : UInt8} (h : value.toNat < 16) :
    Ascii.hexValue? (Ascii.upperHexDigit value) = some value := by
  have hall : ∀ n : Fin 16, Ascii.hexValue? (Ascii.upperHexDigit (UInt8.ofNat n.val)) =
      some (UInt8.ofNat n.val) := by decide
  simpa using hall ⟨value.toNat, h⟩

theorem isBareOctet_upperHexDigit {value : UInt8} (h : value.toNat < 16) :
    isBareOctet (Ascii.upperHexDigit value) = true := by
  have hall : ∀ n : Fin 16, isBareOctet (Ascii.upperHexDigit (UInt8.ofNat n.val)) = true := by
    decide
  simpa using hall ⟨value.toNat, h⟩

theorem toNat_div_sixteen_lt (b : UInt8) : (b / 16).toNat < 16 := by
  have hlt := b.toNat_lt
  simp only [UInt8.toNat_div, UInt8.reduceToNat]
  omega

theorem toNat_mod_sixteen_lt (b : UInt8) : (b % 16).toNat < 16 := by
  simp only [UInt8.toNat_mod, UInt8.reduceToNat]
  omega

theorem div_mul_add_mod_sixteen (b : UInt8) : b / 16 * 16 + b % 16 = b := by
  have hlt := b.toNat_lt
  apply UInt8.toNat_inj.mp
  simp only [UInt8.toNat_add, UInt8.toNat_mul, UInt8.toNat_div, UInt8.toNat_mod,
    UInt8.reduceToNat]
  omega

/-! ### NULL and introducers -/

theorem equalsIgnoringCase_nullToken_cons {b : UInt8} (h : Ascii.toLower b ≠ 0x6E) (rest : Bytes) :
    Bytes.equalsIgnoringCase (b :: rest) nullToken = false := by
  have hnull : nullToken.map Ascii.toLower = [0x6E, 0x75, 0x6C, 0x6C] := by decide
  rw [Bytes.equalsIgnoringCase, hnull]
  exact beq_false_of_ne fun heq => h (List.head_eq_of_cons_eq heq)

theorem introduced?_cons {b : UInt8} (h : b ≠ Ascii.underscore) (rest : Bytes) :
    introduced? (b :: rest) = none := by
  have hstrip : Bytes.stripStart? binaryIntroducer (b :: rest) = none := by
    cases hstrip : Bytes.stripStart? binaryIntroducer (b :: rest) with
    | none => rfl
    | some more =>
      have heq := Bytes.stripStart?_eq_some_iff.mp hstrip
      exact absurd (List.head_eq_of_cons_eq heq) h
  rw [introduced?, hstrip]

theorem introduced?_of_quote_not_mem {token : Bytes} (h : Ascii.quote ∉ token) :
    introduced? token = none := by
  unfold introduced?
  split
  · rfl
  · next rest hstrip =>
    have htoken := Bytes.stripStart?_eq_some_iff.mp hstrip
    dsimp only
    split
    · next hhead =>
      have hmem : Ascii.quote ∈ rest :=
        (List.dropWhile_sublist Ascii.isBlank).mem (List.mem_of_mem_head? hhead)
      rw [htoken] at h
      exact absurd (List.mem_append_right _ hmem) h
    · rfl

theorem bitBody?_of_quote_not_mem {token : Bytes} (h : Ascii.quote ∉ token) :
    bitBody? token = none := by
  unfold bitBody?
  split
  · next b q rest =>
    refine if_neg ?_
    rintro ⟨-, rfl, -⟩
    exact h (by simp)
  · rfl

/-! ### Strings -/

theorem unquote_writeQuoted (value : Bytes) : unquote (writeQuoted value) = .ok value := by
  rw [writeQuoted, unquote, if_pos List.getLast?_concat, List.dropLast_concat,
    unescapeFrom_escape]

theorem noTrailingBlank_append_writeQuoted (before value : Bytes) :
    Bytes.NoTrailingBlank (before ++ writeQuoted value) := by
  have hconcat : before ++ writeQuoted value =
      (before ++ Ascii.quote :: escape value) ++ [Ascii.quote] := by simp [writeQuoted]
  rw [hconcat]
  exact Bytes.noTrailingBlank_concat_iff.mpr (by decide)

theorem readTrimmed_writeQuoted (value : Bytes) :
    readTrimmed (writeQuoted value) = .ok ⟨.quoted, value⟩ := by
  have hnull : Bytes.equalsIgnoringCase (writeQuoted value) nullToken = false :=
    equalsIgnoringCase_nullToken_cons (by decide) _
  have hintro : introduced? (writeQuoted value) = none := introduced?_cons (by decide) _
  have hhead : (writeQuoted value).head? = some Ascii.quote := rfl
  have hempty : (writeQuoted value).isEmpty = false := rfl
  simp only [readTrimmed, hempty, hnull, hintro, hhead, unquote_writeQuoted, if_true,
    Bool.false_eq_true, if_false]
  rfl

theorem readTrimmed_binary (value : Bytes) :
    readTrimmed (binaryIntroducer ++ Ascii.space :: writeQuoted value) =
      .ok ⟨.binary, value⟩ := by
  have hnull : Bytes.equalsIgnoringCase (binaryIntroducer ++ Ascii.space :: writeQuoted value)
      nullToken = false :=
    equalsIgnoringCase_nullToken_cons (by decide) _
  have hstrip : Bytes.stripStart? binaryIntroducer
      (binaryIntroducer ++ Ascii.space :: writeQuoted value) =
        some (Ascii.space :: writeQuoted value) :=
    Bytes.stripStart?_eq_some_iff.mpr rfl
  have htrim : Bytes.trimStart (Ascii.space :: writeQuoted value) = writeQuoted value := rfl
  have hhead : (writeQuoted value).head? = some Ascii.quote := rfl
  have hintro : introduced? (binaryIntroducer ++ Ascii.space :: writeQuoted value) =
      some (writeQuoted value) := by
    rw [introduced?, hstrip]
    dsimp only
    rw [htrim, if_pos hhead]
  have hempty : (binaryIntroducer ++ Ascii.space :: writeQuoted value).isEmpty = false := rfl
  simp only [readTrimmed, hempty, hnull, hintro, unquote_writeQuoted, Bool.false_eq_true, if_false]
  rfl

/-! ### Tokens without quotes -/

theorem readHex_flatMap_hexOctet (value : Bytes) :
    readHex (value.flatMap hexOctet) = .ok value := by
  induction value with
  | nil => rfl
  | cons b rest ih =>
    have hcons : (b :: rest).flatMap hexOctet =
        Ascii.upperHexDigit (b / 16) :: Ascii.upperHexDigit (b % 16) :: rest.flatMap hexOctet := rfl
    rw [hcons, readHex, hexValue?_upperHexDigit (toNat_div_sixteen_lt b),
      hexValue?_upperHexDigit (toNat_mod_sixteen_lt b)]
    dsimp only
    rw [ih, div_mul_add_mod_sixteen]
    rfl

theorem all_isBareOctet_hex (value : Bytes) :
    (ascii "0x" ++ value.flatMap hexOctet).all isBareOctet = true := by
  have hdigits : (value.flatMap hexOctet).all isBareOctet = true := by
    induction value with
    | nil => rfl
    | cons b rest ih =>
      rw [List.flatMap_cons, List.all_append, ih]
      simp [hexOctet, isBareOctet_upperHexDigit (toNat_div_sixteen_lt b),
        isBareOctet_upperHexDigit (toNat_mod_sixteen_lt b)]
  rw [List.all_append, hdigits]
  decide

theorem readTrimmed_hex {value : Bytes} (hvalue : value ≠ []) :
    readTrimmed (ascii "0x" ++ value.flatMap hexOctet) = .ok ⟨.hex, value⟩ := by
  have hquote := quote_not_mem_of_all_isBareOctet (all_isBareOctet_hex value)
  have hnull : Bytes.equalsIgnoringCase (ascii "0x" ++ value.flatMap hexOctet) nullToken = false :=
    equalsIgnoringCase_nullToken_cons (by decide) _
  have hintro := introduced?_of_quote_not_mem hquote
  have hhead : (ascii "0x" ++ value.flatMap hexOctet).head? ≠ some Ascii.quote :=
    fun heq => hquote (List.mem_of_mem_head? heq)
  have hlength : 2 < (ascii "0x" ++ value.flatMap hexOctet).length := by
    cases value with
    | nil => exact absurd rfl hvalue
    | cons b rest =>
      have hascii : (ascii "0x").length = 2 := by decide
      simp only [List.length_append, List.flatMap_cons, hascii, hexOctet, List.length_cons]
      omega
  have hdrop : (ascii "0x" ++ value.flatMap hexOctet).drop 2 = value.flatMap hexOctet := rfl
  have hmarker : hasHexMarker (ascii "0x" ++ value.flatMap hexOctet) = true := rfl
  have hempty : (ascii "0x" ++ value.flatMap hexOctet).isEmpty = false := rfl
  simp only [readTrimmed, hempty, hnull, hintro, Bool.false_eq_true, if_false, if_neg hhead,
    hmarker, hlength, and_self, if_true, hdrop, readHex_flatMap_hexOctet]
  rfl

theorem isBareToken_iff {value : Bytes} :
    isBareToken value = true ↔ value.isEmpty = false ∧
      Bytes.equalsIgnoringCase value nullToken = false ∧ hasHexMarker value = false ∧
        value.all isBareOctet = true := by
  simp [isBareToken, and_assoc]

theorem readTrimmed_bare {value : Bytes} (h : isBareToken value = true) :
    readTrimmed value = .ok ⟨.bare, value⟩ := by
  obtain ⟨hempty, hnull, hmarker, hall⟩ := isBareToken_iff.mp h
  have hquote := quote_not_mem_of_all_isBareOctet hall
  have hhead : value.head? ≠ some Ascii.quote := fun heq => hquote (List.mem_of_mem_head? heq)
  have hunquoted : isUnquoted value = true := by
    rw [isUnquoted, bitBody?_of_quote_not_mem hquote]
    exact hall
  simp only [readTrimmed, hempty, hnull, introduced?_of_quote_not_mem hquote, Bool.false_eq_true,
    if_false, if_neg hhead, hmarker, false_and, hunquoted, if_true]

end DumpMask.Literal
