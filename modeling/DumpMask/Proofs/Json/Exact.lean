import DumpMask.Proofs.Json.Printed

/-!
# Numbers that are kept

An integer of 64 bits is read as it is. Any other number becomes a floating point number, which is
enough for fifteen digits: up to a power of ten that is itself a floating point number, one rounding
leads from the digits to the number, and the shortest decimal leads back. Main statement: a numeral
of at most fifteen digits, scaled by at most 22 places, denotes what is written for its number.
-/

namespace DumpMask.Json

open Binary64 (Covers IsNormal)

variable {numeral : Numeral} {x y : Binary64}

namespace Numeral

/-! ### Integers -/

theorem value_of_integer? {value : Int} (h : numeral.integer? = some value) :
    numeral.value = value := by
  obtain ⟨negative, whole, fraction, exponent⟩ := numeral
  rw [integer?] at h
  split at h
  · next hnone =>
    rw [Bool.and_eq_true, Option.isNone_iff_eq_none, Option.isNone_iff_eq_none] at hnone
    obtain ⟨rfl, rfl⟩ := hnone
    dsimp only at h
    rw [Numeral.value, significand, Option.getD_none, List.append_nil]
    have hlast : lastExponent ⟨negative, whole, none, none⟩ = 0 := rfl
    rw [hlast, zpow_zero, mul_one]
    cases negative with
    | true =>
      rw [if_pos rfl, Option.ite_none_right_eq_some, Option.some.injEq] at h
      obtain ⟨-, rfl⟩ := h
      rw [Int.cast_neg, Int.cast_natCast]
      rfl
    | false =>
      rw [if_neg Bool.false_ne_true, Option.ite_none_right_eq_some, Option.some.injEq] at h
      obtain ⟨-, rfl⟩ := h
      exact (Int.cast_natCast _).symm
  · cases h

/-! ### Powers of ten -/

/-- Powers of ten up to the 22nd are floating point numbers. -/
theorem powerOfTen_exact : ∀ k < 23,
    (powerOfTen k).all fun power => power.ratio.1 == 10 ^ k * power.ratio.2 := by
  decide +kernel

theorem magnitude_of_powerOfTen {k : Nat} (hk : k ≤ 22) (h : powerOfTen k = some y) :
    y.magnitude = 10 ^ k := by
  have hexact := powerOfTen_exact k (Nat.lt_succ_of_le hk)
  rw [h, Option.all_some, beq_iff_eq] at hexact
  have hpos : (0 : ℚ) < y.ratio.2 := by exact_mod_cast y.ratio_snd_pos
  rw [← Binary64.ratio_eq, hexact, div_eq_iff hpos.ne']
  push_cast
  rfl

/-- One step scales by an exact power. -/
theorem scale_spec {exponent : Int} (hexponent : exponent.natAbs ≤ 22)
    (h : scale x exponent = some y) :
    y.Covers (x.magnitude * 10 ^ exponent) ∧
      ((2 : ℚ) ^ (Binary64.minExponent + 52) ≤ x.magnitude * 10 ^ exponent → y.IsNormal) := by
  rw [scale, scaleBy, if_pos (hexponent.trans (by decide))] at h
  obtain ⟨power, hpower, h⟩ := Option.bind_eq_some_iff.mp h
  have hmagnitude := magnitude_of_powerOfTen hexponent hpower
  split at h
  · next hnonneg =>
    have hpow : (10 : ℚ) ^ exponent = power.magnitude := by
      rw [hmagnitude, ← zpow_natCast, Int.natAbs_of_nonneg hnonneg]
    rw [hpow]
    exact Binary64.mul_spec h
  · next hneg =>
    have hpow : (10 : ℚ) ^ exponent = power.magnitude⁻¹ := by
      rw [hmagnitude, ← zpow_natCast, ← zpow_neg]
      congr 1
      omega
    have hne : power.significand ≠ 0 := by
      intro hzero
      rw [Binary64.magnitude, hzero, Nat.cast_zero, zero_mul] at hmagnitude
      exact absurd hmagnitude.symm (by positivity)
    rw [hpow, ← div_eq_mul_inv]
    exact Binary64.div_spec hne h

/-! ### Fifteen digits -/

theorem natValue_cons (digit : UInt8) (rest : Bytes) :
    natValue (digit :: rest) = digitValue digit * 10 ^ rest.length + natValue rest := by
  rw [← List.singleton_append, natValue_append]
  simp [natValue]

/-- All digits are gathered if their number fits 64 bits. -/
theorem gather_eq {significand : Nat} {digits : Bytes}
    (h : significand * 10 ^ digits.length + natValue digits < UInt64.size) :
    gather significand digits = (significand * 10 ^ digits.length + natValue digits, []) := by
  induction digits generalizing significand with
  | nil => simp [gather, natValue]
  | cons digit rest ih =>
    have hnext : significand * 10 ^ (digit :: rest).length + natValue (digit :: rest) =
        (10 * significand + digitValue digit) * 10 ^ rest.length + natValue rest := by
      rw [natValue_cons, List.length_cons]
      ring
    rw [hnext] at h ⊢
    have hfits : 10 * significand + digitValue digit < UInt64.size :=
      (Nat.le_mul_of_pos_right _ (by positivity)).trans_lt ((Nat.le_add_right _ _).trans_lt h)
    rw [gather, if_pos hfits, ih h]

/-- At most fifteen digits from the first that is not zero, scaled by at most 22 places. -/
structure IsShort (numeral : Numeral) : Prop where
  significand : numeral.significand < 10 ^ 15
  lastExponent : numeral.lastExponent.natAbs ≤ 22
  writtenExponent : numeral.writtenExponent.natAbs ≤ maxExponent

theorem significand_eq (numeral : Numeral) : numeral.significand =
    natValue numeral.whole * 10 ^ (numeral.fraction.getD []).length +
      natValue (numeral.fraction.getD []) :=
  natValue_append _ _

/-- All digits of a short numeral are read, and they are scaled once. -/
theorem float?_of_isShort (hshort : numeral.IsShort) : numeral.float? =
    (Binary64.ofRatio numeral.significand 1).bind fun x =>
      (scale x numeral.lastExponent).map (·.withSign numeral.negative) := by
  obtain ⟨negative, whole, fraction, exponent⟩ := numeral
  obtain ⟨hsignificand, -, hexponent⟩ := hshort
  have hfits : natValue whole * 10 ^ (fraction.getD []).length + natValue (fraction.getD []) <
      UInt64.size := by
    rw [← natValue_append]
    exact hsignificand.trans (by decide)
  have hwhole : 0 * 10 ^ whole.length + natValue whole < UInt64.size := by
    rw [Nat.zero_mul, Nat.zero_add]
    exact (Nat.le_mul_of_pos_right _ (by positivity)).trans_lt ((Nat.le_add_right _ _).trans_lt hfits)
  rw [float?]
  dsimp only
  rw [gather_eq hwhole]
  dsimp only
  rw [Nat.zero_mul, Nat.zero_add, gather_eq hfits, significand_eq]
  refine congrArg (Option.bind _) (funext fun x => ?_)
  -- nothing is dropped or left unread, so the shift is that of the fraction
  have hshift : (([] : Bytes).length : Int) -
      ((fraction.getD []).length - ([] : Bytes).length : Nat) = -(fraction.getD []).length := by
    rw [List.length_nil, Nat.sub_zero, Nat.cast_zero, zero_sub]
  dsimp only
  rw [hshift]
  have hscale : ∀ exponent, (do let x ← scale x exponent; pure (x.withSign negative)) =
      (scale x exponent).map (·.withSign negative) :=
    fun _ => (Option.map_eq_bind ..).symm
  cases exponent with
  | none =>
    refine (hscale _).trans ?_
    rw [lastExponent, writtenExponent, zero_sub]
  | some written =>
    obtain ⟨negative', digits⟩ := written
    have hdigits : ¬ maxExponent < natValue digits := by
      cases negative' <;> simp only [writtenExponent] at hexponent <;> omega
    dsimp only
    rw [if_neg hdigits]
    refine (hscale _).trans ?_
    rw [lastExponent, writtenExponent]
    cases negative'
    · rw [if_neg Bool.false_ne_true, neg_add_eq_sub]
    · rw [if_pos rfl, neg_sub_left, neg_add']

theorem value_shortest_withSign (negative : Bool) (hy : y.IsNormal) {digits : Nat} {exponent : Int}
    (hdigits : digits < 10 ^ 15) (hcovers : y.Covers (digits * 10 ^ exponent)) :
    (Decimal.shortest (y.withSign negative)).value = digits * 10 ^ exponent :=
  Decimal.value_shortest_of_covers hy hdigits hcovers

/-- A short numeral is at least the least number of 53 bits, unless it is zero. -/
theorem minNormal_le (hshort : numeral.IsShort) (hzero : numeral.significand ≠ 0) :
    (2 : ℚ) ^ (Binary64.minExponent + 52) ≤ numeral.significand * 10 ^ numeral.lastExponent := by
  have hone : (1 : ℚ) ≤ numeral.significand := by exact_mod_cast Nat.pos_of_ne_zero hzero
  calc (2 : ℚ) ^ (Binary64.minExponent + 52) ≤ 2 ^ (-74 : Int) :=
        zpow_le_zpow_right₀ (by norm_num) (by decide)
    _ ≤ 10 ^ (-22 : Int) := by norm_num
    _ ≤ 10 ^ numeral.lastExponent := by
        apply zpow_le_zpow_right₀ (by norm_num)
        have hlast := hshort.lastExponent
        omega
    _ ≤ numeral.significand * 10 ^ numeral.lastExponent :=
        le_mul_of_one_le_left (by positivity) hone

/-- **A short numeral denotes what is written for its number.** -/
theorem shown_of_isShort (hshort : numeral.IsShort) (h : numeral.float? = some y) :
    (Number.float y).shown = numeral.value := by
  rw [float?_of_isShort hshort] at h
  obtain ⟨x, hx, h⟩ := Option.bind_eq_some_iff.mp h
  obtain ⟨z, hz, rfl⟩ := Option.map_eq_some_iff.mp h
  have hmagnitude := Binary64.magnitude_of_ofRatio_one (hshort.significand.trans (by decide)) hx
  have hshortest : (Decimal.shortest (z.withSign numeral.negative)).value =
      numeral.significand * 10 ^ numeral.lastExponent := by
    obtain ⟨hcovers, hnormal⟩ := scale_spec hshort.lastExponent hz
    rw [hmagnitude] at hcovers hnormal
    by_cases hzero : numeral.significand = 0
    · rw [hzero, Nat.cast_zero, zero_mul] at hcovers ⊢
      have hshown := Decimal.shortest_of_zero (x := z.withSign numeral.negative)
        (Binary64.significand_eq_zero_of_covers hcovers)
      rw [hshown, Decimal.value, Nat.cast_zero, zero_mul]
    · have hnormal := hnormal (minNormal_le hshort hzero)
      exact value_shortest_withSign _ hnormal hshort.significand hcovers
  rw [Number.shown, hshortest]
  rfl

end Numeral

end DumpMask.Json
