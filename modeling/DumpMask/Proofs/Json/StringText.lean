import DumpMask.Json.Printer
import DumpMask.Json.Reader
import DumpMask.Proofs.Text.Utf8
import DumpMask.Proofs.Text.Validity

/-!
# Written strings

Each octet of a string is written as itself or as an escape. The cut at the closing quote passes over
both, and the escape is undone to the octet. Main statement: a written string is read again.
-/

namespace DumpMask.Json

/-- The octet stands for itself in a string. -/
def IsPlain (b : UInt8) : Prop :=
  b ≠ Ascii.doubleQuote ∧ b ≠ Ascii.backslash ∧ ¬ b < 0x20

instance : DecidablePred IsPlain :=
  fun b => inferInstanceAs (Decidable (b ≠ Ascii.doubleQuote ∧ b ≠ Ascii.backslash ∧ ¬ b < 0x20))

/-- How an octet is written. -/
inductive Writes (b : UInt8) : Bytes → Prop where
  | plain (hb : IsPlain b) : Writes b [b]
  | letter (code : UInt8) (hcode : code ≠ 0x75) (h : escapeLetter? code = some b) :
    Writes b [Ascii.backslash, code]
  | unit {high low : UInt8} (hb : b < 0x20) (hhigh : IsPlain high) (hlow : IsPlain low)
    (h : hexUnit? 0x30 0x30 high low = some b.toNat) :
    Writes b [Ascii.backslash, 0x75, 0x30, 0x30, high, low]

theorem unit_digits : ∀ b : UInt8, b < 0x20 →
    IsPlain (Ascii.lowerHexDigit (b / 16)) ∧ IsPlain (Ascii.lowerHexDigit (b % 16)) ∧
      hexUnit? 0x30 0x30 (Ascii.lowerHexDigit (b / 16)) (Ascii.lowerHexDigit (b % 16)) =
        some b.toNat :=
  Bytes.forall_octet (by decide +kernel)

theorem unit_control : ∀ b : UInt8, b < 0x20 → isLowSurrogate b.toNat = false ∧
    isHighSurrogate b.toNat = false ∧ unitOctets b.toNat = [b] :=
  Bytes.forall_octet (by decide +kernel)

theorem writes_printOctet (b : UInt8) : Writes b (printOctet b) := by
  rw [printOctet]
  split
  · next hb =>
    subst hb
    exact .letter Ascii.doubleQuote (by decide) rfl
  split
  · next hb =>
    subst hb
    exact .letter Ascii.backslash (by decide) rfl
  split
  · next hb =>
    subst hb
    exact .letter 0x62 (by decide) rfl
  split
  · next hb =>
    subst hb
    exact .letter 0x66 (by decide) rfl
  split
  · next hb =>
    subst hb
    exact .letter 0x6E (by decide) rfl
  split
  · next hb =>
    subst hb
    exact .letter 0x72 (by decide) rfl
  split
  · next hb =>
    subst hb
    exact .letter 0x74 (by decide) rfl
  split
  · next hb =>
    obtain ⟨hhigh, hlow, hunit⟩ := unit_digits b hb
    exact .unit hb hhigh hlow hunit
  · next hquote hbackslash _ _ _ _ _ hb => exact .plain ⟨hquote, hbackslash, hb⟩

variable {b : UInt8} {written rest : Bytes}

theorem cutString_plain (hb : IsPlain b) (rest : Bytes) :
    cutString (b :: rest) = (cutString rest).map fun (body, after) => (b :: body, after) := by
  obtain ⟨hquote, hbackslash, hcontrol⟩ := hb
  rw [cutString.eq_def]
  dsimp only
  rw [if_neg hquote, if_neg hcontrol, if_neg hbackslash]

theorem cutString_shielded (code : UInt8) (rest : Bytes) :
    cutString (Ascii.backslash :: code :: rest) =
      (cutString rest).map fun (body, after) => (Ascii.backslash :: code :: body, after) := by
  rw [cutString]
  rfl

theorem cutString_of_writes (h : Writes b written) (rest : Bytes) :
    cutString (written ++ rest) =
      (cutString rest).map fun (body, after) => (written ++ body, after) := by
  cases h with
  | plain hb => exact cutString_plain hb rest
  | letter => exact cutString_shielded _ rest
  | unit _ hhigh hlow =>
    have hzero : IsPlain 0x30 := by decide
    simp only [List.cons_append, List.nil_append]
    rw [cutString_shielded, cutString_plain hzero, cutString_plain hzero, cutString_plain hhigh,
      cutString_plain hlow]
    simp only [Option.map_map, Function.comp_def]

theorem unescape_of_writes (h : Writes b written) (rest : Bytes) :
    unescape true (written ++ rest) = (unescape true rest).map (b :: ·) := by
  cases h with
  | plain hb =>
    rw [List.singleton_append, unescape.eq_def]
    exact if_pos hb.2.1
  | letter code hcode hletter =>
    simp only [List.cons_append, List.nil_append]
    rw [unescape.eq_def]
    dsimp only
    rw [if_neg (by decide), if_neg hcode, hletter]
  | unit hb _ _ hunit =>
    simp only [List.cons_append, List.nil_append]
    rw [unescape.eq_def]
    dsimp only
    rw [if_neg (by decide), if_pos rfl, hunit]
    dsimp only
    obtain ⟨hlow, hhigh, hoctets⟩ := unit_control b hb
    rw [hlow, hhigh, hoctets]
    rfl

theorem cutString_flatMap (octets rest : Bytes) :
    cutString (octets.flatMap printOctet ++ Ascii.doubleQuote :: rest) =
      some (octets.flatMap printOctet, rest) := by
  induction octets with
  | nil =>
    rw [List.flatMap_nil, List.nil_append, cutString.eq_def]
    rfl
  | cons b more ih =>
    rw [List.flatMap_cons, List.append_assoc, cutString_of_writes (writes_printOctet b), ih]
    rfl

theorem unescape_flatMap (octets : Bytes) :
    unescape true (octets.flatMap printOctet) = some octets := by
  induction octets with
  | nil => rfl
  | cons b more ih =>
    rw [List.flatMap_cons, unescape_of_writes (writes_printOctet b), ih]
    rfl

/-- **A written string is read again**, from behind its opening quote. -/
theorem readString_print (text : String) (rest : Bytes) :
    readString true ((Utf8.encode text).flatMap printOctet ++ Ascii.doubleQuote :: rest) =
      some (text, rest) := by
  simp [readString, cutString_flatMap, unescape_flatMap, Utf8.decode_encode]

end DumpMask.Json
