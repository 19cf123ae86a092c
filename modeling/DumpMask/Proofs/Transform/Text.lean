import DumpMask.Proofs.Json.Text
import DumpMask.Proofs.Transform.Pseudonym

/-!
# Transforms keep text

Every transform that a rule describes turns text into text, each for a reason of its own: characters
are kept whole, or only ASCII octets are replaced, or the result is written anew. A transform that
also chooses the written form gives text for any octets, because the value of a hexadecimal literal
need not be text and may be written as a string.
-/

namespace DumpMask

open Utf8 (isValid)

namespace Bytes

/-! ### Cutting text -/

theorem cutAt?_append {needle bytes before after : Bytes}
    (h : cutAt? needle bytes = some (before, after)) : bytes = before ++ (needle ++ after) := by
  induction bytes generalizing before with
  | nil =>
    rw [cutAt?] at h
    split at h
    · next hempty =>
      cases h
      rw [List.isEmpty_iff.mp hempty]
      rfl
    · cases h
  | cons b rest ih =>
    rw [cutAt?] at h
    split at h
    · next after' hstart =>
      have htext := stripStart?_eq_some_iff.mp hstart
      cases h
      exact htext
    · obtain ⟨⟨before', after'⟩, hrest, heq⟩ := Option.map_eq_some_iff.mp h
      cases heq
      rw [ih hrest]
      rfl

theorem isValid_beforeLast {mark : UInt8} (hmark : mark < 0x80) {bytes : Bytes}
    (h : isValid bytes) : isValid (beforeLast mark bytes) := by
  obtain ⟨after, hbytes, -⟩ | ⟨-, hsame⟩ := beforeLast_cases mark bytes
  · rw [hbytes, Utf8.isValid_append_ascii_cons_iff hmark] at h
    exact h.1
  · rw [hsame]
    exact h

end Bytes

namespace Transform

/-- Text becomes text, and any octets do where the written form is chosen. -/
structure KeepsText (transform : Transform) : Prop where
  text : ∀ {value length masked}, isValid value → transform.apply value length = .ok masked →
    isValid masked
  form : transform.quoting ≠ .asInput → ∀ {value length masked},
    transform.apply value length = .ok masked → isValid masked

theorem keepsText_ofFn {apply : Bytes → LengthClass → Except TransformError Bytes}
    (h : ∀ {value length masked}, isValid value → apply value length = .ok masked →
      isValid masked) : (Transform.ofFn apply).KeepsText :=
  ⟨h, fun hquoting => absurd rfl hquoting⟩

theorem keepsText_fixed (text : String) (quoting : Quoting) :
    (Transform.fixed (Utf8.encode text) quoting).KeepsText := by
  have htext : ∀ {value length masked},
      (Transform.fixed (Utf8.encode text) quoting).apply value length = .ok masked →
        isValid masked := by
    intro value length masked h
    cases h
    exact Utf8.isValid_encode text
  exact ⟨fun _ => htext, fun _ => htext⟩

theorem keepsText_nullOut : nullOut.KeepsText :=
  keepsText_fixed "" .null

theorem keepsText_substring (count : Nat) : (substring count).KeepsText := by
  apply keepsText_ofFn
  intro value length masked hvalue h
  cases h
  exact Utf8.isValid_takeChars hvalue count

/-! ### Parts -/

theorem isValid_maskLine {marker replacement : String} {line : Bytes} (h : isValid line) :
    isValid (maskLine (Utf8.encode marker) (Utf8.encode replacement) line) := by
  have hbody : isValid (splitReturn line).1 := by
    rw [splitReturn]
    split
    · next hlast =>
      obtain ⟨body, rfl⟩ := List.getLast?_eq_some_iff.mp hlast
      rw [Utf8.isValid_append_ascii_iff (by decide)] at h
      rw [List.dropLast_concat]
      exact h
    · exact h
  rw [maskLine]
  generalize splitReturn line = cut at hbody
  obtain ⟨body, hasReturn⟩ := cut
  dsimp only at hbody ⊢
  split
  · next before after hcut =>
    have hmarker := Utf8.isValid_encode marker
    rw [Bytes.cutAt?_append hcut] at hbody
    have hbefore := Utf8.isValid_of_append_append hbody
      ((Utf8.isValid_append_ascii_iff (by decide)).mpr hmarker) (by simp)
    have hreturn : Bytes.IsAscii (if hasReturn then [Ascii.carriageReturn] else []) := by
      cases hasReturn <;> decide
    rw [Utf8.isValid_append_ascii_iff hreturn]
    refine Utf8.isValid_append ?_ (Utf8.isValid_encode replacement)
    rw [Utf8.isValid_append_ascii_iff (by decide)]
    exact Utf8.isValid_append hbefore hmarker
  · exact h

theorem keepsText_lineField (marker replacement : String) :
    (lineField (Utf8.encode marker) (Utf8.encode replacement)).KeepsText := by
  apply keepsText_ofFn
  intro value length masked hvalue h
  cases h
  rw [Utf8.isValid_intercalate_iff (by decide)]
  intro line hline
  obtain ⟨old, hold, rfl⟩ := List.mem_map.mp hline
  exact isValid_maskLine (Utf8.isValid_of_mem_splitOn (by decide) hvalue old hold)

theorem keepsText_separated {separator : UInt8} (hseparator : separator < 0x80) {inner : Transform}
    (hinner : inner.KeepsText) (threshold : Threshold) :
    (separated separator inner threshold).KeepsText := by
  apply keepsText_ofFn
  intro value length masked hvalue h
  obtain ⟨parts, hparts, hmasked⟩ := bind_eq_ok_iff.mp h
  cases hmasked
  rw [Utf8.isValid_intercalate_iff hseparator]
  intro part hpart
  have hmem : Except.ok part ∈ parts.map (Except.ok : Bytes → Except TransformError Bytes) :=
    List.mem_map_of_mem hpart
  rw [mapM_eq_ok_iff.mp hparts] at hmem
  obtain ⟨old, hold, hpart⟩ := List.mem_map.mp hmem
  have holdText := Utf8.isValid_of_mem_splitOn hseparator hvalue old hold
  split at hpart
  · cases hpart
    exact Utf8.isValid_nil
  · exact hinner.text holdText hpart

end Transform

/-! ### Pseudonyms -/

namespace Pseudonym

theorem lt_of_isAlphanumeric : ∀ b, Ascii.isAlphanumeric b → b < 0x80 :=
  Bytes.forall_octet (by decide +kernel)

theorem isAlphanumeric_of_isLower {b : UInt8} (h : Ascii.isLower b) : Ascii.isAlphanumeric b := by
  rw [Ascii.isAlphanumeric, Ascii.isLetter, h, Bool.or_true, Bool.true_or]

theorem isAlphanumeric_of_isUpper {b : UInt8} (h : Ascii.isUpper b) : Ascii.isAlphanumeric b := by
  rw [Ascii.isAlphanumeric, Ascii.isLetter, h, Bool.true_or, Bool.true_or]

theorem isAlphanumeric_of_isDigit {b : UInt8} (h : Ascii.isDigit b) : Ascii.isAlphanumeric b := by
  rw [Ascii.isAlphanumeric, h, Bool.or_true]

theorem IsRun.isAscii {inClass : UInt8 → Bool} {width : Nat} {masked : Bytes}
    (h : IsRun inClass width masked) (hclass : ∀ b, inClass b → Ascii.isAlphanumeric b) :
    masked.IsAscii :=
  fun b hb => lt_of_isAlphanumeric b (hclass b (h.octets b hb))

theorem edits_of_forall₂ {relation : UInt8 → UInt8 → Prop} {value masked : Bytes}
    (hrelation : ∀ {old new}, relation old new →
      (Ascii.isAlphanumeric old ∧ Ascii.isAlphanumeric new) ∨ old = new)
    (h : List.Forall₂ relation value masked) : Utf8.Edits value masked := by
  induction h with
  | nil => exact .nil
  | @cons old new value masked hfirst hrest ih =>
    obtain ⟨hold, hnew⟩ | rfl := hrelation hfirst
    · have hpiece : Bytes.IsAscii [new] :=
        Bytes.isAscii_cons_iff.mpr ⟨lt_of_isAlphanumeric new hnew, Bytes.isAscii_nil⟩
      exact .replace (lt_of_isAlphanumeric old hold) hpiece ih
    · exact .keep old ih

theorem edits_of_keepsClass {value masked : Bytes} (h : List.Forall₂ KeepsClass value masked) :
    Utf8.Edits value masked := by
  refine edits_of_forall₂ ?_ h
  intro old new hkeeps
  cases hkeeps with
  | lower hold hnew =>
    exact .inl ⟨isAlphanumeric_of_isLower hold, isAlphanumeric_of_isLower hnew⟩
  | upper hold hnew =>
    exact .inl ⟨isAlphanumeric_of_isUpper hold, isAlphanumeric_of_isUpper hnew⟩
  | digit hold hnew =>
    exact .inl ⟨isAlphanumeric_of_isDigit hold, isAlphanumeric_of_isDigit hnew⟩
  | other => exact .inr rfl

theorem edits_of_keepsDigit {value masked : Bytes} (h : List.Forall₂ KeepsDigit value masked) :
    Utf8.Edits value masked := by
  refine edits_of_forall₂ ?_ h
  intro old new hkeeps
  cases hkeeps with
  | digit hold hnew =>
    exact .inl ⟨isAlphanumeric_of_isDigit hold, isAlphanumeric_of_isDigit hnew⟩
  | other => exact .inr rfl

theorem isValid_letters (p : Pseudonym) (value : Bytes) : isValid (p.letters value) :=
  Utf8.isValid_of_isAscii ((p.isRun_letters value).isAscii fun _ => isAlphanumeric_of_isLower)

theorem isValid_digits (p : Pseudonym) (value : Bytes) : isValid (p.digits value) :=
  Utf8.isValid_of_isAscii ((p.isRun_digits value).isAscii fun _ h =>
    isAlphanumeric_of_isDigit (isDigit_of_isNonzeroDigit h))

theorem isValid_shapedText (p : Pseudonym) {value : Bytes} (h : isValid value) :
    isValid (p.shapedText value) :=
  (edits_of_keepsClass (p.forall₂_shapedText value)).isValid h

theorem isValid_shapedDigits (p : Pseudonym) {value : Bytes} (h : isValid value) :
    isValid (p.shapedDigits value) :=
  (edits_of_keepsDigit (p.keepsNumber_shapedDigits value).forall₂).isValid h

theorem isValid_replace (p : Pseudonym) {value : Bytes} (h : isValid value)
    (length : LengthClass) : isValid (p.replace value length) := by
  have haddress {front : Bytes} (hfront : isValid front) (domain : String) :
      isValid (front ++ Ascii.atSign :: Utf8.encode domain) := by
    rw [Utf8.isValid_append_ascii_cons_iff (by decide)]
    exact ⟨hfront, Utf8.isValid_encode domain⟩
  unfold replace
  split
  · exact p.isValid_letters value
  · exact p.isValid_shapedText h
  · exact p.isValid_digits value
  · exact p.isValid_shapedDigits h
  · exact haddress (p.isValid_letters value) _
  · exact haddress (p.isValid_shapedText (Bytes.isValid_beforeLast (by decide) h)) _

end Pseudonym

theorem Transform.keepsText_pseudonym (p : Pseudonym) : (Transform.pseudonym p).KeepsText := by
  apply keepsText_ofFn
  intro value length masked hvalue h
  cases h
  exact p.isValid_replace hvalue length

/-! ### Documents -/

theorem Transform.keepsText_jsonFields (rules : List (Json.Path × Transform))
    (threshold : Threshold) : (jsonFields rules threshold).KeepsText := by
  apply keepsText_ofFn
  intro value length masked _ h
  split at h
  · cases h
  · obtain ⟨doc, -, rfl⟩ := map_eq_ok_iff.mp h
    exact Json.isValid_print doc

/-! ### Rules -/

namespace FieldRule

theorem keepsText_of_simple {setting : Setting} {rule : FieldRule} {transform : Transform}
    (h : simple setting rule = .ok transform) : transform.KeepsText := by
  unfold simple at h
  dsimp only at h
  split at h
  · obtain ⟨text, -, htransform⟩ := bind_eq_ok_iff.mp h
    cases htransform
    exact Transform.keepsText_fixed text rule.quoting
  · cases h
    exact Transform.keepsText_nullOut
  · cases h
    exact Transform.keepsText_pseudonym _
  · cases h
    exact Transform.keepsText_pseudonym _
  · obtain ⟨domain, -, htransform⟩ := bind_eq_ok_iff.mp h
    cases htransform
    exact Transform.keepsText_pseudonym _
  · obtain ⟨count, -, htransform⟩ := bind_eq_ok_iff.mp h
    cases htransform
    exact Transform.keepsText_substring count
  · obtain ⟨marker, -, htransform⟩ := bind_eq_ok_iff.mp h
    cases htransform
    exact Transform.keepsText_lineField marker _
  · cases h

theorem keepsText_of_separate {mode : Mode} {separator : Option Char} {threshold : Threshold}
    {base transform : Transform} (hbase : base.KeepsText)
    (h : separate mode separator threshold base = .ok transform) : transform.KeepsText := by
  unfold separate at h
  split at h
  · cases h
    exact hbase
  · next c =>
    split at h
    · cases h
    · split at h
      · next hascii =>
        cases h
        have hlt : c.toUInt8 < 0x80 := by
          have hrange : c.val.toNat < 0x80 := hascii
          simp only [UInt8.lt_iff_toNat_lt, Char.toUInt8, UInt32.toNat_toUInt8, UInt8.reduceToNat]
          omega
        exact Transform.keepsText_separated hlt hbase threshold
      · cases h

/-- A rule masks documents along its paths, or as its mode alone says. -/
theorem build_cases {setting : Setting} {column : String} {rule : FieldRule}
    {transform : Transform} (h : build setting column rule = .ok transform) :
    (∃ rules, rule.mode = .json ∧ buildPaths setting column rule.paths = .ok rules ∧
      separate .json rule.separator setting.threshold (.jsonFields rules setting.threshold) =
        .ok transform) ∨
    ∃ base, simple setting { rule with paths := [] } = .ok base ∧
      separate rule.mode rule.separator setting.threshold base = .ok transform := by
  unfold build at h
  split at h
  split at h
  · cases h
  · split at h
    · obtain ⟨rules, hrules, hrule⟩ := bind_eq_ok_iff.mp h
      exact .inl ⟨rules, rfl, hrules, mapError_eq_ok_iff.mp hrule⟩
    · obtain ⟨base, hbase, hrule⟩ := bind_eq_ok_iff.mp (mapError_eq_ok_iff.mp h)
      exact .inr ⟨base, hbase, hrule⟩

/-- **Every rule keeps text.** -/
theorem keepsText_of_build {setting : Setting} {column : String} {rule : FieldRule}
    {transform : Transform} (h : build setting column rule = .ok transform) :
    transform.KeepsText := by
  obtain ⟨rules, -, -, hrule⟩ | ⟨base, hbase, hrule⟩ := build_cases h
  · exact keepsText_of_separate (Transform.keepsText_jsonFields rules setting.threshold) hrule
  · exact keepsText_of_separate (keepsText_of_simple hbase) hrule

end FieldRule

end DumpMask
