import DumpMask.Proofs.Literal.RoundTrip
import DumpMask.Proofs.Results

/-!
# Readings

`Reading` lists what a text without blanks around it may be read as, one rule for each written form.
A literal that was read is written in its own form again, except for two kinds of bare text that no
writer produces: bit literals, and a hexadecimal marker without digits. These become strings.
-/

namespace DumpMask.Literal

/-! ### Bare texts -/

def IsBitLiteral (text : Bytes) : Prop :=
  ∃ b bits, (b = 0x62 ∨ b = 0x42) ∧ (∀ bit ∈ bits, bit = 0x30 ∨ bit = 0x31) ∧
    text = b :: Ascii.quote :: (bits ++ [Ascii.quote])

theorem bitBody?_eq_some_iff {token bits : Bytes} :
    bitBody? token = some bits ↔
      ∃ b, (b = 0x62 ∨ b = 0x42) ∧ token = b :: Ascii.quote :: (bits ++ [Ascii.quote]) := by
  constructor
  · intro h
    unfold bitBody? at h
    split at h
    · next b q rest =>
      split at h
      · next hform =>
        obtain ⟨hb, rfl, hlast⟩ := hform
        obtain ⟨inner, rfl⟩ := List.getLast?_eq_some_iff.mp hlast
        rw [List.dropLast_concat] at h
        cases h
        exact ⟨b, hb, rfl⟩
      · cases h
    · cases h
  · rintro ⟨b, hb, rfl⟩
    rw [bitBody?, if_pos ⟨hb, rfl, List.getLast?_concat⟩, List.dropLast_concat]

theorem isUnquoted_iff {token : Bytes} :
    isUnquoted token = true ↔ IsBitLiteral token ∨ token.all isBareOctet = true := by
  constructor
  · intro h
    unfold isUnquoted at h
    split at h
    · next bits hbody =>
      obtain ⟨b, hb, rfl⟩ := bitBody?_eq_some_iff.mp hbody
      refine Or.inl ⟨b, bits, hb, ?_, rfl⟩
      intro bit hbit
      simpa using List.all_eq_true.mp h bit hbit
    · exact Or.inr h
  · rintro (⟨b, bits, hb, hbits, rfl⟩ | hall)
    · rw [isUnquoted, bitBody?_eq_some_iff.mpr ⟨b, hb, rfl⟩]
      refine List.all_eq_true.mpr ?_
      intro bit hbit
      simpa using hbits bit hbit
    · rw [isUnquoted, bitBody?_of_quote_not_mem (quote_not_mem_of_all_isBareOctet hall)]
      exact hall

theorem hasHexMarker_iff {token : Bytes} :
    hasHexMarker token = true ↔ ∃ x rest, (x = 0x78 ∨ x = 0x58) ∧ token = 0x30 :: x :: rest := by
  constructor
  · intro h
    unfold hasHexMarker at h
    split at h
    · next zero x rest =>
      simp only [Bool.and_eq_true, Bool.or_eq_true, beq_iff_eq] at h
      obtain ⟨rfl, hx⟩ := h
      exact ⟨x, rest, hx, rfl⟩
    · cases h
  · rintro ⟨x, rest, hx, rfl⟩
    simpa [hasHexMarker] using hx

theorem introduced?_eq_some_iff {token string : Bytes} :
    introduced? token = some string ↔
      string.head? = some Ascii.quote ∧
        ∃ blanks, Bytes.AllBlank blanks ∧ token = binaryIntroducer ++ (blanks ++ string) := by
  constructor
  · intro h
    unfold introduced? at h
    split at h
    · cases h
    · next rest hstrip =>
      dsimp only at h
      split at h
      · next hhead =>
        cases h
        refine ⟨hhead, rest.takeWhile Ascii.isBlank, Bytes.allBlank_takeWhile rest, ?_⟩
        rw [Bytes.trimStart, List.takeWhile_append_dropWhile]
        exact Bytes.stripStart?_eq_some_iff.mp hstrip
      · cases h
  · rintro ⟨hhead, blanks, hblanks, rfl⟩
    have hstring : Bytes.NoLeadingBlank string := by
      intro b hb
      rw [Option.mem_def, hhead] at hb
      cases hb
      decide
    rw [introduced?, Bytes.stripStart?_eq_some_iff.mpr rfl]
    simp only [Bytes.trimStart, Bytes.dropWhile_append hblanks hstring, if_pos hhead]

theorem unescapeFrom_backslash (offset : Nat) (code : UInt8) (rest : Bytes) :
    unescapeFrom offset (Ascii.backslash :: code :: rest) =
      match escapeMeaning? code with
      | some meaning => (meaning ++ ·) <$> unescapeFrom (offset + 2) rest
      | none => .error (.unknownEscape code offset) := by
  rw [unescapeFrom.eq_def]
  rfl

theorem unquote_concat_quote (inner : Bytes) :
    unquote (Ascii.quote :: (inner ++ [Ascii.quote])) = unescapeFrom 1 inner := by
  rw [unquote, if_pos List.getLast?_concat, List.dropLast_concat]

theorem exists_inner_of_unquote {rest value : Bytes}
    (h : unquote (Ascii.quote :: rest) = .ok value) :
    ∃ inner, rest = inner ++ [Ascii.quote] ∧ unescapeFrom 1 inner = .ok value := by
  rw [unquote] at h
  split at h
  · next hlast =>
    obtain ⟨inner, rfl⟩ := List.getLast?_eq_some_iff.mp hlast
    rw [List.dropLast_concat] at h
    exact ⟨inner, rfl, h⟩
  · cases h

theorem isBareOctet_of_isLetter {b : UInt8} (h : Ascii.isLetter b = true) :
    isBareOctet b = true := by
  simp [isBareOctet, Ascii.isAlphanumeric, h]

theorem isBareOctet_of_hexValue? {b value : UInt8} (h : Ascii.hexValue? b = some value) :
    isBareOctet b = true := by
  unfold Ascii.hexValue? at h
  split at h
  · next hdigit => simp [isBareOctet, Ascii.isAlphanumeric, hdigit]
  · split at h
    · next hlower =>
      apply isBareOctet_of_isLetter
      simp only [Ascii.isLetter, Ascii.isUpper, Ascii.isLower, Bool.and_eq_true, Bool.or_eq_true,
        decide_eq_true_eq, UInt8.le_iff_toNat_le, UInt8.reduceToNat] at hlower ⊢
      omega
    · split at h
      · next hupper =>
        apply isBareOctet_of_isLetter
        simp only [Ascii.isLetter, Ascii.isUpper, Ascii.isLower, Bool.and_eq_true, Bool.or_eq_true,
          decide_eq_true_eq, UInt8.le_iff_toNat_le, UInt8.reduceToNat] at hupper ⊢
        omega
      · cases h

theorem all_isBareOctet_of_readHex {digits value : Bytes} (h : readHex digits = .ok value) :
    digits.all isBareOctet = true := by
  fun_induction readHex digits generalizing value with
  | case1 => rfl
  | case2 => cases h
  | case3 high low rest _ _ hlow hhigh ih =>
    obtain ⟨inner, hinner, -⟩ := map_eq_ok_iff.mp h
    rw [List.all_cons, List.all_cons, isBareOctet_of_hexValue? hhigh,
      isBareOctet_of_hexValue? hlow, ih hinner]
    rfl
  | case4 => cases h

/-! ### What a text is read as -/

structure IsBare (token : Bytes) : Prop where
  ne_nil : token ≠ []
  not_null : Bytes.equalsIgnoringCase token nullToken = false
  no_digits : hasHexMarker token = true → token.length ≤ 2
  unquoted : isUnquoted token = true

inductive Reading : Bytes → Except Fault Literal → Prop
  | empty : Reading [] (.error .empty)
  | null {token : Bytes} (hnull : Bytes.equalsIgnoringCase token nullToken = true) :
      Reading token (.ok ⟨.null, []⟩)
  | binary {blanks : Bytes} (hblanks : Bytes.AllBlank blanks) (rest : Bytes) :
      Reading (binaryIntroducer ++ (blanks ++ Ascii.quote :: rest))
        ((⟨.binary, ·⟩) <$> unquote (Ascii.quote :: rest))
  | quoted (rest : Bytes) :
      Reading (Ascii.quote :: rest) ((⟨.quoted, ·⟩) <$> unquote (Ascii.quote :: rest))
  | hex {x : UInt8} {digits : Bytes} (hx : x = 0x78 ∨ x = 0x58) (hdigits : digits ≠ []) :
      Reading (0x30 :: x :: digits) ((⟨.hex, ·⟩) <$> readHex digits)
  | bare {token : Bytes} (hbare : IsBare token) : Reading token (.ok ⟨.bare, token⟩)
  | invalid (token : Bytes) : Reading token (.error .invalidBareToken)

theorem reading (token : Bytes) : Reading token (readTrimmed token) := by
  unfold readTrimmed
  -- the reader tries the forms in this order, and a form is ruled out for all that come after it
  by_cases hempty : token.isEmpty = true
  · rw [if_pos hempty, List.isEmpty_iff.mp hempty]
    exact .empty
  rw [if_neg hempty]
  by_cases hnull : Bytes.equalsIgnoringCase token nullToken = true
  · rw [if_pos hnull]
    exact .null hnull
  rw [if_neg hnull]
  split
  · next string hstring =>
    obtain ⟨hhead, blanks, hblanks, rfl⟩ := introduced?_eq_some_iff.mp hstring
    obtain ⟨rest, rfl⟩ := List.head?_eq_some_iff.mp hhead
    exact .binary hblanks rest
  by_cases hquote : token.head? = some Ascii.quote
  · obtain ⟨rest, rfl⟩ := List.head?_eq_some_iff.mp hquote
    rw [if_pos hquote]
    exact .quoted rest
  rw [if_neg hquote]
  by_cases hhex : hasHexMarker token = true ∧ 2 < token.length
  · rw [if_pos hhex]
    obtain ⟨x, digits, hx, rfl⟩ := hasHexMarker_iff.mp hhex.1
    refine .hex hx ?_
    rintro rfl
    exact absurd hhex.2 (Nat.lt_irrefl 2)
  rw [if_neg hhex]
  by_cases hunquoted : isUnquoted token = true
  · rw [if_pos hunquoted]
    refine .bare ⟨by simpa using hempty, by simpa using hnull, ?_, hunquoted⟩
    intro hmarker
    exact Nat.le_of_not_lt fun hlength => hhex ⟨hmarker, hlength⟩
  · rw [if_neg hunquoted]
    exact .invalid token

/-! ### Writing what was read -/

/-- Read as a bare text, and not written as one. -/
def IsRequoted (literal : Literal) : Prop :=
  literal.kind = .bare ∧
    (IsBitLiteral literal.value ∨ literal.value = ascii "0x" ∨ literal.value = ascii "0X")

theorem ne_nil_of_readHex {digits value : Bytes} (hdigits : digits ≠ [])
    (h : readHex digits = .ok value) : value ≠ [] := by
  unfold readHex at h
  split at h
  · exact absurd rfl hdigits
  · cases h
  · split at h
    · obtain ⟨rest, -, rfl⟩ := map_eq_ok_iff.mp h
      exact List.cons_ne_nil _ _
    · cases h

theorem IsBare.isBareToken_eq_false_iff {token : Bytes} (h : IsBare token) :
    isBareToken token = false ↔
      IsBitLiteral token ∨ token = ascii "0x" ∨ token = ascii "0X" := by
  have hempty : token.isEmpty = false := by simpa using h.ne_nil
  constructor
  · intro hnot
    rcases isUnquoted_iff.mp h.unquoted with hbits | hall
    · exact Or.inl hbits
    · have hmarker : hasHexMarker token = true := by
        cases hmarker : hasHexMarker token with
        | true => rfl
        | false =>
          rw [isBareToken_iff.mpr ⟨hempty, h.not_null, hmarker, hall⟩] at hnot
          cases hnot
      have hlength := h.no_digits hmarker
      obtain ⟨x, rest, hx, rfl⟩ := hasHexMarker_iff.mp hmarker
      obtain rfl : rest = [] := by simpa using hlength
      rcases hx with rfl | rfl
      · exact Or.inr (Or.inl rfl)
      · exact Or.inr (Or.inr rfl)
  · rintro (⟨b, bits, -, -, rfl⟩ | rfl | rfl)
    · cases hbare : isBareToken (b :: Ascii.quote :: (bits ++ [Ascii.quote])) with
      | false => rfl
      | true =>
        obtain ⟨-, -, -, hall⟩ := isBareToken_iff.mp hbare
        exact absurd (by simp) (quote_not_mem_of_all_isBareOctet hall)
    · decide
    · decide

/-- The literals that texts are read as. -/
inductive IsReadable : Literal → Prop
  | null : IsReadable ⟨.null, []⟩
  | binary (value : Bytes) : IsReadable ⟨.binary, value⟩
  | quoted (value : Bytes) : IsReadable ⟨.quoted, value⟩
  | hex {value : Bytes} (hvalue : value ≠ []) : IsReadable ⟨.hex, value⟩
  | bare {value : Bytes} (hbare : IsBare value) : IsReadable ⟨.bare, value⟩

theorem Reading.isReadable {token : Bytes} {result : Except Fault Literal} {literal : Literal}
    (h : Reading token result) (hok : result = .ok literal) : IsReadable literal := by
  cases h with
  | empty => cases hok
  | null hnull =>
    cases hok
    exact .null
  | binary hblanks rest =>
    obtain ⟨value, -, rfl⟩ := map_eq_ok_iff.mp hok
    exact .binary value
  | quoted rest =>
    obtain ⟨value, -, rfl⟩ := map_eq_ok_iff.mp hok
    exact .quoted value
  | hex hx hdigits =>
    obtain ⟨value, hvalue, rfl⟩ := map_eq_ok_iff.mp hok
    exact .hex (ne_nil_of_readHex hdigits hvalue)
  | bare hbare =>
    cases hok
    exact .bare hbare
  | invalid token => cases hok

theorem IsReadable.writtenKind {literal : Literal} (h : IsReadable literal) :
    (IsRequoted literal → writtenKind literal.kind literal.value = .quoted) ∧
      (¬ IsRequoted literal → writtenKind literal.kind literal.value = literal.kind) := by
  cases h with
  | null => simp [IsRequoted, Literal.writtenKind]
  | binary value => simp [IsRequoted, Literal.writtenKind]
  | quoted value => simp [IsRequoted, Literal.writtenKind]
  | hex hvalue => simp [IsRequoted, Literal.writtenKind, hvalue]
  | bare hbare =>
    constructor
    · intro hrequoted
      exact if_pos (Or.inr ⟨rfl, hbare.isBareToken_eq_false_iff.mpr hrequoted.2⟩)
    · intro hrequoted
      refine if_neg ?_
      rintro (⟨hkind, -⟩ | ⟨-, hnot⟩)
      · cases hkind
      · exact hrequoted ⟨rfl, hbare.isBareToken_eq_false_iff.mp hnot⟩

theorem read_write_of_isReadable {literal : Literal} (h : IsReadable literal) :
    read (write literal) = .ok ⟨Literal.writtenKind literal.kind literal.value, literal.value⟩ := by
  cases h with
  | null => exact read_write_null []
  | binary value => exact read_write_of_ne_null (by decide) value
  | quoted value => exact read_write_of_ne_null (by decide) value
  | hex hvalue => exact read_write_of_ne_null (by decide) _
  | bare hbare => exact read_write_of_ne_null (by decide) _

theorem IsRequoted.read_write_quoted {literal : Literal} (hrequoted : IsRequoted literal)
    (h : IsReadable literal) : read (write literal) = .ok ⟨.quoted, literal.value⟩ := by
  rw [read_write_of_isReadable h, h.writtenKind.1 hrequoted]

/-- Only a literal that is requoted is read as something else after it is written. -/
theorem IsReadable.read_write_eq_iff {literal : Literal} (h : IsReadable literal) :
    read (write literal) = .ok literal ↔ ¬ IsRequoted literal := by
  constructor
  · intro hread hrequoted
    rw [hrequoted.read_write_quoted h] at hread
    have hquoted := congrArg Literal.kind (Except.ok.inj hread)
    rw [hrequoted.1] at hquoted
    cases hquoted
  · intro hrequoted
    rw [read_write_of_isReadable h, h.writtenKind.2 hrequoted]

theorem isReadable_of_read {text : Bytes} {literal : Literal} (h : read text = .ok literal) :
    IsReadable literal :=
  (reading (Bytes.trim text)).isReadable h

end DumpMask.Literal
