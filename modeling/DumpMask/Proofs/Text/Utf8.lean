import DumpMask.Text.Utf8

/-!
# Reading back UTF-8

The machine of `Utf8.run` reads the octets of a character as that character. The range that a lead
octet leaves for the next one never shuts out a sequence that encodes a character.
-/

namespace DumpMask.Utf8

variable {b : UInt8} {rest : Bytes}

/-! ### One octet of a sequence -/

theorem run_ascii (hb : b < 0x80) :
    run .boundary (b :: rest) = (run .boundary rest).map (Char.ofNat b.toNat :: ·) := by
  rw [run, step, if_pos hb]

theorem run_lead {state : State} (hlead : afterLead? b = some state) :
    run .boundary (b :: rest) = run state rest := by
  have hb : ¬ b < 0x80 := by
    intro hlow
    have hlow' : b < 0xC2 := UInt8.lt_trans hlow (by decide)
    rw [afterLead?, if_pos hlow'] at hlead
    cases hlead
  rw [run, step, if_neg hb, hlead]
  rfl

/-- An octet after the lead carries six bits. -/
theorem toNat_trail {bits : Nat} (hbits : bits < 0x40) :
    (UInt8.ofNat (bits + 128)).toNat = bits + 0x80 := by
  rw [UInt8.toNat_ofNat']
  omega

theorem run_last {bits value : Nat} {low high : UInt8} (hbits : bits < 0x40)
    (hlow : low.toNat ≤ bits + 0x80) (hhigh : bits + 0x80 ≤ high.toNat) :
    run (.inside 0 low high value) (UInt8.ofNat (bits + 128) :: rest) =
      (run .boundary rest).map (Char.ofNat (value * 0x40 + bits) :: ·) := by
  have htrail := toNat_trail hbits
  rw [← htrail, ← UInt8.le_iff_toNat_le] at hlow hhigh
  have hmod : (bits + 0x80) % 0x40 = bits := by omega
  rw [run, step, if_pos ⟨hlow, hhigh⟩, htrail, hmod]

theorem run_more {missing bits value : Nat} {low high : UInt8} (hbits : bits < 0x40)
    (hlow : low.toNat ≤ bits + 0x80) (hhigh : bits + 0x80 ≤ high.toNat) :
    run (.inside (missing + 1) low high value) (UInt8.ofNat (bits + 128) :: rest) =
      run (.inside missing 0x80 0xBF (value * 0x40 + bits)) rest := by
  have htrail := toNat_trail hbits
  rw [← htrail, ← UInt8.le_iff_toNat_le] at hlow hhigh
  have hmod : (bits + 0x80) % 0x40 = bits := by omega
  rw [run, step, if_pos ⟨hlow, hhigh⟩, htrail, hmod]

/-! ### The octets of a character -/

theorem afterLead?_two {v : Nat} (hlow : 0x80 ≤ v) (hhigh : v ≤ 0x7FF)
    (hb : b.toNat = v / 64 + 0xC0) : afterLead? b = some (.inside 0 0x80 0xBF (v / 64)) := by
  simp only [afterLead?, UInt8.lt_iff_toNat_lt, UInt8.reduceToNat, hb]
  rw [if_neg (by omega), if_pos (by omega)]
  congr 2
  omega

-- the first sequences would be overlong below 0xA0, and those of 0xD are surrogates above 0x9F
theorem afterLead?_three {v : Nat} (hlow : 0x800 ≤ v) (hhigh : v ≤ 0xFFFF)
    (hvalid : v.isValidChar) (hb : b.toNat = v / 4096 + 0xE0) :
    ∃ low high, afterLead? b = some (.inside 1 low high (v / 4096)) ∧
      low.toNat ≤ v / 64 % 64 + 0x80 ∧ v / 64 % 64 + 0x80 ≤ high.toNat := by
  simp only [afterLead?, UInt8.lt_iff_toNat_lt, ← UInt8.toNat_inj, UInt8.reduceToNat, hb]
  rw [if_neg (by omega), if_neg (by omega)]
  by_cases hfirst : v / 4096 = 0
  · rw [hfirst, if_pos rfl]
    refine ⟨_, _, rfl, ?_, ?_⟩ <;> simp only [UInt8.reduceToNat] <;> omega
  rw [if_neg (by omega)]
  by_cases hsurrogate : v / 4096 = 0xD
  · rw [hsurrogate, if_pos rfl]
    refine ⟨_, _, rfl, ?_, ?_⟩ <;> simp only [UInt8.reduceToNat] <;> omega
  rw [if_neg (by omega), if_pos (by omega)]
  have hvalue : (v / 4096 + 0xE0) % 0x10 = v / 4096 := by omega
  rw [hvalue]
  refine ⟨_, _, rfl, ?_, ?_⟩ <;> simp only [UInt8.reduceToNat] <;> omega

theorem afterLead?_four {v : Nat} (hlow : 0x10000 ≤ v) (hvalid : v.isValidChar)
    (hb : b.toNat = v / 262144 + 0xF0) :
    ∃ low high, afterLead? b = some (.inside 2 low high (v / 262144)) ∧
      low.toNat ≤ v / 4096 % 64 + 0x80 ∧ v / 4096 % 64 + 0x80 ≤ high.toNat := by
  simp only [afterLead?, UInt8.lt_iff_toNat_lt, ← UInt8.toNat_inj, UInt8.reduceToNat, hb]
  rw [if_neg (by omega), if_neg (by omega), if_neg (by omega), if_neg (by omega), if_neg (by omega)]
  by_cases hfirst : v / 262144 = 0
  · rw [hfirst, if_pos rfl]
    refine ⟨_, _, rfl, ?_, ?_⟩ <;> simp only [UInt8.reduceToNat] <;> omega
  rw [if_neg (by omega)]
  by_cases hlast : v / 262144 = 4
  · rw [hlast, if_neg (by omega), if_pos rfl]
    refine ⟨_, _, rfl, ?_, ?_⟩ <;> simp only [UInt8.reduceToNat] <;> omega
  rw [if_pos (by omega)]
  have hvalue : (v / 262144 + 0xF0) % 0x08 = v / 262144 := by omega
  rw [hvalue]
  refine ⟨_, _, rfl, ?_, ?_⟩ <;> simp only [UInt8.reduceToNat] <;> omega

/-- The machine reads the octets of a character as the character. -/
theorem run_utf8EncodeChar (c : Char) (rest : Bytes) :
    run .boundary (String.utf8EncodeChar c ++ rest) = (run .boundary rest).map (c :: ·) := by
  have hvalid : c.val.toNat.isValidChar := c.valid
  have hc : Char.ofNat c.val.toNat = c := Char.ofNat_toNat c
  rw [String.utf8EncodeChar]
  generalize c.val.toNat = v at hvalid hc
  split
  · next hone =>
    have hb : (UInt8.ofNat v).toNat = v := by rw [UInt8.toNat_ofNat']; omega
    have hlow : UInt8.ofNat v < 0x80 := by
      rw [UInt8.lt_iff_toNat_lt, hb]
      exact Nat.lt_succ_of_le hone
    rw [List.cons_append, List.nil_append, run_ascii hlow, hb, hc]
  split
  · next hone htwo =>
    have hlead := afterLead?_two (b := UInt8.ofNat (v / 64 % 32 + 192)) (by omega) htwo
      (by rw [UInt8.toNat_ofNat']; omega)
    have hvalue : v / 64 * 0x40 + v % 64 = v := by omega
    simp only [List.cons_append, List.nil_append]
    rw [run_lead hlead, run_last (by omega) (by simp) (by simp; omega), hvalue, hc]
  split
  · next hone htwo hthree =>
    obtain ⟨low, high, hlead, hlow, hhigh⟩ :=
      afterLead?_three (b := UInt8.ofNat (v / 4096 % 16 + 224)) (by omega) hthree hvalid
        (by rw [UInt8.toNat_ofNat']; omega)
    have hvalue : (v / 4096 * 0x40 + v / 64 % 64) * 0x40 + v % 64 = v := by omega
    simp only [List.cons_append, List.nil_append]
    rw [run_lead hlead, run_more (by omega) hlow hhigh, run_last (by omega) (by simp)
      (by simp; omega), hvalue, hc]
  · next hone htwo hthree =>
    obtain ⟨low, high, hlead, hlow, hhigh⟩ :=
      afterLead?_four (b := UInt8.ofNat (v / 262144 % 8 + 240)) (by omega) hvalid
        (by rw [UInt8.toNat_ofNat']; omega)
    have hvalue :
        ((v / 262144 * 0x40 + v / 4096 % 64) * 0x40 + v / 64 % 64) * 0x40 + v % 64 = v := by
      omega
    simp only [List.cons_append, List.nil_append]
    rw [run_lead hlead, run_more (by omega) hlow hhigh, run_more (by omega) (by simp)
      (by simp; omega), run_last (by omega) (by simp) (by simp; omega), hvalue, hc]

theorem decode_encode (text : String) : decode (encode text) = some text := by
  have hrun : ∀ chars : List Char,
      run .boundary (chars.flatMap String.utf8EncodeChar) = some chars := by
    intro chars
    induction chars with
    | nil => rfl
    | cons c rest ih => rw [List.flatMap_cons, run_utf8EncodeChar, ih]; rfl
  rw [decode, encode, hrun, Option.map_some, String.ofList_toList]

theorem encode_inj {left right : String} : encode left = encode right ↔ left = right := by
  constructor
  · intro h
    have hdecode := decode_encode left
    rw [h, decode_encode] at hdecode
    exact (Option.some.inj hdecode).symm
  · exact congrArg encode

/-! ### ASCII characters -/

theorem utf8EncodeChar_injective {c d : Char}
    (h : String.utf8EncodeChar c = String.utf8EncodeChar d) : c = d := by
  have hc := run_utf8EncodeChar c []
  have hd := run_utf8EncodeChar d []
  rw [h, hd] at hc
  simpa [run, eq_comm] using hc

theorem utf8EncodeChar_cases (c : Char) :
    (∃ b, String.utf8EncodeChar c = [b]) ∨ ∀ b ∈ String.utf8EncodeChar c, 0x80 ≤ b := by
  rw [String.utf8EncodeChar]
  by_cases hone : c.val.toNat ≤ 0x7F
  · rw [if_pos hone]
    exact Or.inl ⟨_, rfl⟩
  · rw [if_neg hone]
    refine Or.inr ?_
    simp only [UInt8.le_iff_toNat_le]
    intro b hb
    split at hb
    · simp only [List.mem_cons, List.not_mem_nil, or_false] at hb
      rcases hb with rfl | rfl <;> simp <;> omega
    split at hb
    · simp only [List.mem_cons, List.not_mem_nil, or_false] at hb
      rcases hb with rfl | rfl | rfl <;> simp <;> omega
    · simp only [List.mem_cons, List.not_mem_nil, or_false] at hb
      rcases hb with rfl | rfl | rfl | rfl <;> simp <;> omega

section Mark

variable {mark : Char} {a : UInt8} (hmark : String.utf8EncodeChar mark = [a]) (ha : a < 0x80)
include hmark ha

/-- The octet of an ASCII character is in no other character. -/
theorem not_mem_utf8EncodeChar {c : Char} (hc : c ≠ mark) : a ∉ String.utf8EncodeChar c := by
  intro hmem
  rcases utf8EncodeChar_cases c with ⟨b, hb⟩ | hhigh
  · rw [hb, List.mem_singleton] at hmem
    subst hmem
    exact hc (utf8EncodeChar_injective (hb.trans hmark.symm))
  · exact UInt8.not_lt.mpr (hhigh a hmem) ha

theorem mem_encode_iff (text : String) : a ∈ encode text ↔ mark ∈ text.toList := by
  constructor
  · intro hmem
    obtain ⟨c, hc, ha'⟩ := List.mem_flatMap.mp hmem
    by_cases hcmark : c = mark
    · rwa [← hcmark]
    · exact absurd ha' (not_mem_utf8EncodeChar hmark ha hcmark)
  · intro hmem
    refine List.mem_flatMap.mpr ⟨mark, hmem, ?_⟩
    rw [hmark]
    exact List.mem_singleton_self a

/-- The text in front of an ASCII character is found on the octets. -/
theorem takeWhile_ne_encode (text : String) :
    (encode text).takeWhile (· != a) =
      encode (String.ofList (text.toList.takeWhile (· != mark))) := by
  rw [encode, encode_ofList]
  induction text.toList with
  | nil => rfl
  | cons c rest ih =>
    by_cases hc : c = mark
    · subst hc
      simp [hmark]
    · have hkeep : ∀ b ∈ String.utf8EncodeChar c, (b != a) = true := by
        intro b hb
        apply bne_iff_ne.mpr
        rintro rfl
        exact not_mem_utf8EncodeChar hmark ha hc hb
      have hrest : (c :: rest).takeWhile (· != mark) = c :: rest.takeWhile (· != mark) :=
        List.takeWhile_cons_of_pos (bne_iff_ne.mpr hc)
      rw [List.flatMap_cons, List.takeWhile_append_of_pos hkeep, ih, hrest, List.flatMap_cons]

end Mark

end DumpMask.Utf8
