import DumpMask.Proofs.Text.Utf8

/-!
# Well-formed octets are encodings

The machine of `Utf8.run` completes a character only behind octets that are its encoding: a lead octet
fixes the high bits, and the range for the octet after it keeps the value out of the shorter forms, the
surrogates and what lies above U+10FFFF. So the text that is read has no other encoding. Main
statement: a text is read from its own encoding and from nothing else.
-/

namespace DumpMask.Utf8

/-! ### The octets of a value -/

theorem toNat_val_ofNat {v : Nat} (h : v.isValidChar) : (Char.ofNat v).val.toNat = v := by
  rw [Char.ofNat, dif_pos h]
  rfl

section Octets

variable {v : Nat} {b c d e : UInt8}

theorem utf8EncodeChar_one (hb : b < 0x80) :
    String.utf8EncodeChar (Char.ofNat b.toNat) = [b] := by
  have hlow : b.toNat < 0x80 := UInt8.lt_iff_toNat_lt.mp hb
  rw [String.utf8EncodeChar, toNat_val_ofNat (.inl (by omega)), if_pos (by omega),
    UInt8.ofNat_toNat]

theorem eq_ofNat {n : Nat} (h : b.toNat = n) : UInt8.ofNat n = b := by
  rw [← h, UInt8.ofNat_toNat]

theorem utf8EncodeChar_two (hlow : 0x80 ≤ v) (hhigh : v ≤ 0x7FF) (hb : b.toNat = v / 64 + 0xC0)
    (hc : c.toNat = v % 64 + 0x80) : String.utf8EncodeChar (Char.ofNat v) = [b, c] := by
  have hlead : v / 64 % 32 = v / 64 := by omega
  rw [String.utf8EncodeChar, toNat_val_ofNat (.inl (by omega)), if_neg (by omega), if_pos hhigh,
    hlead, eq_ofNat hb, eq_ofNat hc]

theorem utf8EncodeChar_three (hlow : 0x800 ≤ v) (hhigh : v ≤ 0xFFFF) (hvalid : v.isValidChar)
    (hb : b.toNat = v / 4096 + 0xE0) (hc : c.toNat = v / 64 % 64 + 0x80)
    (hd : d.toNat = v % 64 + 0x80) : String.utf8EncodeChar (Char.ofNat v) = [b, c, d] := by
  have hlead : v / 4096 % 16 = v / 4096 := by omega
  rw [String.utf8EncodeChar, toNat_val_ofNat hvalid, if_neg (by omega), if_neg (by omega),
    if_pos hhigh, hlead, eq_ofNat hb, eq_ofNat hc, eq_ofNat hd]

theorem utf8EncodeChar_four (hlow : 0x10000 ≤ v) (hhigh : v ≤ 0x10FFFF)
    (hb : b.toNat = v / 262144 + 0xF0) (hc : c.toNat = v / 4096 % 64 + 0x80)
    (hd : d.toNat = v / 64 % 64 + 0x80) (he : e.toNat = v % 64 + 0x80) :
    String.utf8EncodeChar (Char.ofNat v) = [b, c, d, e] := by
  have hlead : v / 262144 % 8 = v / 262144 := by omega
  have hvalid : v.isValidChar := .inr ⟨by omega, by omega⟩
  rw [String.utf8EncodeChar, toNat_val_ofNat hvalid, if_neg (by omega), if_neg (by omega),
    if_neg (by omega), hlead, eq_ofNat hb, eq_ofNat hc, eq_ofNat hd, eq_ofNat he]

end Octets

/-! ### Sequences -/

section Sequences

variable {state next : State} {b : UInt8} {bytes seen : Bytes} {chars : List Char} {char : Char}

/-- A lead octet. The range for the next octet rules out overlong forms, surrogates and values
above U+10FFFF. -/
inductive Leads (b : UInt8) : State → Prop where
  | two {value : Nat} (hb : b.toNat = value + 0xC0) (hvalue : 2 ≤ value ∧ value < 0x20) :
    Leads b (.inside 0 0x80 0xBF value)
  | three {value : Nat} {low high : UInt8} (hb : b.toNat = value + 0xE0) (hvalue : value < 0x10)
    (hlow : 0x80 ≤ low.toNat) (hhigh : high.toNat ≤ 0xBF) (hfirst : value = 0 → 0xA0 ≤ low.toNat)
    (hsurrogate : value = 0xD → high.toNat ≤ 0x9F) : Leads b (.inside 1 low high value)
  | four {value : Nat} {low high : UInt8} (hb : b.toNat = value + 0xF0) (hvalue : value ≤ 4)
    (hlow : 0x80 ≤ low.toNat) (hhigh : high.toNat ≤ 0xBF) (hfirst : value = 0 → 0x90 ≤ low.toNat)
    (hlast : value = 4 → high.toNat ≤ 0x8F) : Leads b (.inside 2 low high value)

theorem leads_of_afterLead? (h : afterLead? b = some state) : Leads b state := by
  unfold afterLead? at h
  simp only [UInt8.lt_iff_toNat_lt, ← UInt8.toNat_inj, UInt8.reduceToNat] at h
  -- the ranges from below; 0xE0, 0xED, 0xF0 and 0xF4 stand apart for their bounds on the next octet
  split at h
  · cases h
  split at h
  · cases h
    exact .two (by omega) (by omega)
  split at h
  · cases h
    exact .three (by omega) (by omega) (by decide) (by decide) (by decide) (by decide)
  split at h
  · cases h
    exact .three (by omega) (by omega) (by decide) (by decide) (by decide) (by decide)
  split at h
  · cases h
    exact .three (by omega) (by omega) (by decide) (by decide) (by omega) (by omega)
  split at h
  · cases h
    exact .four (by omega) (by omega) (by decide) (by decide) (by decide) (by decide)
  split at h
  · cases h
    exact .four (by omega) (by omega) (by decide) (by decide) (by omega) (by omega)
  split at h
  · cases h
    exact .four (by omega) (by omega) (by decide) (by decide) (by decide) (by decide)
  · cases h

/-- The octets since the last boundary begin the encoding of every character that may still be
completed. -/
def BeginsInside : Nat → UInt8 → UInt8 → Nat → Bytes → Prop
  | 0, low, high, value, seen => ∀ b, low ≤ b ∧ b ≤ high →
    String.utf8EncodeChar (Char.ofNat (value * 0x40 + b.toNat % 0x40)) = seen ++ [b]
  | missing + 1, low, high, value, seen => ∀ b, low ≤ b ∧ b ≤ high →
    BeginsInside missing 0x80 0xBF (value * 0x40 + b.toNat % 0x40) (seen ++ [b])

def State.Begins : State → Bytes → Prop
  | .boundary, seen => seen = []
  | .inside missing low high value, seen => BeginsInside missing low high value seen

theorem Leads.begins (h : Leads b state) : state.Begins [b] := by
  cases h with
  | two hb hvalue =>
    intro c hc
    simp only [UInt8.le_iff_toNat_le, UInt8.reduceToNat] at hc
    exact utf8EncodeChar_two (by omega) (by omega) (by omega) (by omega)
  | three hb hvalue hlow hhigh hfirst hsurrogate =>
    intro c hc d hd
    simp only [UInt8.le_iff_toNat_le, UInt8.reduceToNat] at hc hd
    refine utf8EncodeChar_three (by omega) (by omega) ?_ (by omega) (by omega) (by omega)
    unfold Nat.isValidChar
    omega
  | four hb hvalue hlow hhigh hfirst hlast =>
    intro c hc d hd e he
    simp only [UInt8.le_iff_toNat_le, UInt8.reduceToNat] at hc hd he
    exact utf8EncodeChar_four (by omega) (by omega) (by omega) (by omega) (by omega) (by omega)

theorem State.Begins.more (hseen : state.Begins seen) (h : step state b = some (next, none)) :
    next.Begins (seen ++ [b]) := by
  cases state with
  | boundary =>
    rw [step] at h
    split at h
    · cases h
    · obtain ⟨lead, hlead, hpair⟩ := Option.map_eq_some_iff.mp h
      cases hpair
      cases hseen
      exact (leads_of_afterLead? hlead).begins
  | inside missing low high value =>
    rw [step] at h
    split at h
    · next hrange =>
      cases missing with
      | zero => cases h
      | succ missing =>
        cases h
        exact hseen b hrange
    · cases h

theorem State.Begins.last (hseen : state.Begins seen) (h : step state b = some (next, some char)) :
    next = .boundary ∧ String.utf8EncodeChar char = seen ++ [b] := by
  cases state with
  | boundary =>
    rw [step] at h
    split at h
    · next hb =>
      cases h
      cases hseen
      exact ⟨rfl, utf8EncodeChar_one hb⟩
    · obtain ⟨lead, -, hpair⟩ := Option.map_eq_some_iff.mp h
      cases hpair
  | inside missing low high value =>
    rw [step] at h
    split at h
    · next hrange =>
      cases missing with
      | zero =>
        cases h
        exact ⟨rfl, hseen b hrange⟩
      | succ missing => cases h
    · cases h

theorem flatMap_of_run (hseen : state.Begins seen) (h : run state bytes = some chars) :
    chars.flatMap String.utf8EncodeChar = seen ++ bytes := by
  induction bytes generalizing state seen chars with
  | nil =>
    cases state with
    | boundary =>
      cases h
      cases hseen
      rfl
    | inside => cases h
  | cons b rest ih =>
    rw [run] at h
    split at h
    · cases h
    · next next hstep =>
      rw [ih (hseen.more hstep) h, List.append_assoc, List.singleton_append]
    · next next char hstep =>
      obtain ⟨others, hothers, rfl⟩ := Option.map_eq_some_iff.mp h
      obtain ⟨rfl, hchar⟩ := hseen.last hstep
      have hboundary : State.boundary.Begins [] := rfl
      rw [List.flatMap_cons, hchar, ih hboundary hothers, List.append_assoc,
        List.singleton_append, List.nil_append]

end Sequences

/-- **A text is read from its own encoding** and from nothing else. -/
theorem decode_eq_some_iff {bytes : Bytes} {text : String} :
    decode bytes = some text ↔ encode text = bytes := by
  constructor
  · intro h
    obtain ⟨chars, hchars, rfl⟩ := Option.map_eq_some_iff.mp h
    have hboundary : State.boundary.Begins [] := rfl
    rw [encode_ofList, flatMap_of_run hboundary hchars, List.nil_append]
  · rintro rfl
    exact decode_encode text

end DumpMask.Utf8
