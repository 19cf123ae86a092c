import DumpMask.Decimal.Shortest
import Mathlib.Algebra.Order.Field.Power
import Mathlib.Algebra.Order.Field.Rat
import Mathlib.Tactic.FieldSimp
import Mathlib.Tactic.GCongr
import Mathlib.Tactic.Linarith
import Mathlib.Tactic.NormNum
import Mathlib.Tactic.Positivity
import Mathlib.Tactic.Qify
import Mathlib.Tactic.Ring

/-!
# Rounding to binary floating point numbers

The numbers that round to a floating point number `x` form an interval around it. Its ends lie half a
unit of the significand away, except below a power of two, where the next number is only half as far;
they belong to the interval if the significand is even. Main statement: rounding a ratio gives a
number whose interval holds the ratio.
-/

namespace DumpMask.Binary64

/-- The absolute value. -/
def magnitude (x : Binary64) : ℚ :=
  x.significand * 2 ^ x.exponent

/-- The lower end of the interval of `x`. -/
def lower (x : Binary64) : ℚ :=
  (Decimal.quarters x).1 * 2 ^ (x.exponent - 2)

/-- The upper end of the interval of `x`. -/
def upper (x : Binary64) : ℚ :=
  (Decimal.quarters x).2.2 * 2 ^ (x.exponent - 2)

/-- The number rounds to `x`. -/
def Covers (x : Binary64) (q : ℚ) : Prop :=
  if x.significand % 2 = 0 then x.lower ≤ q ∧ q ≤ x.upper else x.lower < q ∧ q < x.upper

/-- The significand has 53 bits. -/
def IsNormal (x : Binary64) : Prop :=
  leastNormal ≤ x.significand

theorem leastNormal_eq : (leastNormal : ℚ) = 2 ^ (52 : ℤ) := by
  norm_num [leastNormal]

/-- A power as a quotient of powers with natural exponents. -/
theorem zpow_eq_div {base : ℚ} (hbase : base ≠ 0) (exponent : Int) :
    base ^ exponent = base ^ exponent.toNat / base ^ (-exponent).toNat := by
  rw [← zpow_natCast, ← zpow_natCast, ← zpow_sub₀ hbase]
  congr 1
  omega

theorem ratio_eq (x : Binary64) : (x.ratio.1 : ℚ) / x.ratio.2 = x.magnitude := by
  rw [ratio, magnitude, zpow_eq_div two_ne_zero]
  simp only [Nat.shiftLeft_eq]
  push_cast
  ring

theorem scaleDown_eq (num den : Nat) (exponent : Int) :
    ((scaleDown num den exponent).1 : ℚ) / (scaleDown num den exponent).2 =
      num / den / 2 ^ exponent := by
  rw [scaleDown, zpow_eq_div two_ne_zero]
  simp only [Nat.shiftLeft_eq]
  push_cast
  field_simp

/-! ### The exponent -/

theorem zpow_log2_le {n : Nat} (h : n ≠ 0) : (2 : ℚ) ^ (n.log2 : ℤ) ≤ n := by
  rw [zpow_natCast]
  exact_mod_cast Nat.log2_self_le h

theorem lt_zpow_log2_succ (n : Nat) : (n : ℚ) < 2 ^ (n.log2 + 1 : ℤ) := by
  have hlt : n < 2 ^ (n.log2 + 1) := Nat.lt_log2_self
  exact_mod_cast hlt

/-- The binary logarithms of numerator and denominator leave two places for the leading bit. -/
theorem log2_bounds {num den : Nat} (hnum : num ≠ 0) (hden : den ≠ 0) :
    (2 : ℚ) ^ ((num.log2 : ℤ) - den.log2 - 1) ≤ num / den ∧
      (num / den : ℚ) < 2 ^ ((num.log2 : ℤ) - den.log2 + 1) := by
  have hden' : (0 : ℚ) < den := by exact_mod_cast Nat.pos_of_ne_zero hden
  constructor
  · rw [le_div_iff₀ hden']
    calc (2 : ℚ) ^ ((num.log2 : ℤ) - den.log2 - 1) * den
        ≤ 2 ^ ((num.log2 : ℤ) - den.log2 - 1) * 2 ^ (den.log2 + 1 : ℤ) := by
          gcongr
          exact (lt_zpow_log2_succ den).le
      _ = 2 ^ (num.log2 : ℤ) := by
          rw [← zpow_add₀ (by norm_num)]
          congr 1
          omega
      _ ≤ num := zpow_log2_le hnum
  · rw [div_lt_iff₀ hden']
    calc (num : ℚ) < 2 ^ (num.log2 + 1 : ℤ) := lt_zpow_log2_succ num
      _ = 2 ^ ((num.log2 : ℤ) - den.log2 + 1) * 2 ^ (den.log2 : ℤ) := by
          rw [← zpow_add₀ (by norm_num)]
          congr 1
          omega
      _ ≤ 2 ^ ((num.log2 : ℤ) - den.log2 + 1) * den := by
          gcongr
          exact zpow_log2_le hden

theorem scaleDown_den_pos {den : Nat} (hden : den ≠ 0) (num : Nat) (exponent : Int) :
    0 < (scaleDown num den exponent).2 := by
  simp only [scaleDown, Nat.shiftLeft_eq]
  exact Nat.mul_pos (Nat.pos_of_ne_zero hden) (Nat.two_pow_pos _)

/-- The whole part is below a bound where the quotient is. -/
theorem scaleDown_div_lt_iff (num bound : Nat) {den : Nat} (hden : den ≠ 0) (exponent : Int) :
    (scaleDown num den exponent).1 / (scaleDown num den exponent).2 < bound ↔
      (num / den : ℚ) < bound * 2 ^ exponent := by
  have hpos := scaleDown_den_pos hden num exponent
  rw [Nat.div_lt_iff_lt_mul hpos, ← div_lt_iff₀ (by positivity), ← scaleDown_eq,
    div_lt_iff₀ (by exact_mod_cast hpos)]
  norm_cast

/-- The quotient, at this exponent, has 53 bits before the point, or fewer at the least exponent. -/
theorem exponentOf_spec {num den : Nat} (hnum : num ≠ 0) (hden : den ≠ 0) :
    minExponent ≤ exponentOf num den ∧
    (num / den : ℚ) < 2 ^ (exponentOf num den + 53) ∧
    (minExponent < exponentOf num den → (2 : ℚ) ^ (exponentOf num den + 52) ≤ num / den) := by
  obtain ⟨hlower, hupper⟩ := log2_bounds hnum hden
  rw [exponentOf]
  dsimp only
  generalize hguess : (num.log2 : Int) - den.log2 - 52 = guess
  rw [show (num.log2 : Int) - den.log2 - 1 = guess + 51 by omega] at hlower
  rw [show (num.log2 : Int) - den.log2 + 1 = guess + 53 by omega] at hupper
  have htest := scaleDown_div_lt_iff num leastNormal hden guess
  rw [leastNormal_eq, ← zpow_add₀ (by norm_num), add_comm 52] at htest
  -- one of the two places is right, and the test tells which
  have hexact : ∃ exponent, (if (scaleDown num den guess).1 / (scaleDown num den guess).2 <
      leastNormal then guess - 1 else guess) = exponent ∧
      (2 : ℚ) ^ (exponent + 52) ≤ num / den ∧ (num / den : ℚ) < 2 ^ (exponent + 53) := by
    refine ⟨_, rfl, ?_⟩
    split
    · next hlt =>
      rw [show guess - 1 + 52 = guess + 51 by ring, show guess - 1 + 53 = guess + 52 by ring]
      exact ⟨hlower, htest.mp hlt⟩
    · next hlt => exact ⟨not_lt.mp (mt htest.mpr hlt), hupper⟩
  obtain ⟨exponent, hexponent, hle, hlt⟩ := hexact
  rw [hexponent]
  refine ⟨le_max_right _ _, hlt.trans_le ?_, ?_⟩
  · exact zpow_le_zpow_right₀ (by norm_num) (by omega)
  · intro hmin
    rwa [max_eq_left (by omega)]

/-! ### Rounding to an integer -/

/-- Rounding moves a quotient by at most a half, and by less where the result is odd. -/
theorem roundQuotient_bounds (num : Nat) {den : Nat} (hden : 0 < den) :
    2 * (roundQuotient num den * den) ≤ 2 * num + den ∧
    2 * num ≤ 2 * (roundQuotient num den * den) + den ∧
    (roundQuotient num den % 2 = 1 →
      2 * (roundQuotient num den * den) < 2 * num + den ∧
      2 * num < 2 * (roundQuotient num den * den) + den) := by
  have hsplit := Nat.div_add_mod' num den
  have hmod := Nat.mod_lt num hden
  have hnext : (num / den + 1) * den = num / den * den + den := Nat.succ_mul ..
  rw [roundQuotient]
  split
  · omega
  split
  · rw [hnext]
    omega
  split
  · omega
  · rw [hnext]
    omega

theorem roundQuotient_spec (num : Nat) {den : Nat} (hden : 0 < den) :
    (roundQuotient num den - 1 / 2 : ℚ) ≤ num / den ∧
    (num / den : ℚ) ≤ roundQuotient num den + 1 / 2 ∧
    (roundQuotient num den % 2 = 1 →
      (roundQuotient num den - 1 / 2 : ℚ) < num / den ∧
      (num / den : ℚ) < roundQuotient num den + 1 / 2) := by
  have hden' : (0 : ℚ) < den := by exact_mod_cast hden
  obtain ⟨hlower, hupper, hodd⟩ := roundQuotient_bounds num hden
  generalize roundQuotient num den = r at hlower hupper hodd
  rw [le_div_iff₀ hden', div_le_iff₀ hden', lt_div_iff₀ hden', div_lt_iff₀ hden']
  qify at hlower hupper hodd
  refine ⟨by linarith, by linarith, fun h => ?_⟩
  obtain ⟨hlower', hupper'⟩ := hodd (by exact_mod_cast h)
  exact ⟨by linarith, by linarith⟩

/-! ### The interval of the result -/

variable {x : Binary64} {q : ℚ} {num den : Nat}

theorem two_zpow_eq_quarters (exponent : Int) : (2 : ℚ) ^ exponent = 4 * 2 ^ (exponent - 2) := by
  rw [zpow_sub₀ (by norm_num)]
  norm_num
  ring

theorem upper_eq (x : Binary64) : x.upper = (x.significand + 1 / 2) * 2 ^ x.exponent := by
  rw [upper, Decimal.quarters, two_zpow_eq_quarters x.exponent]
  push_cast
  ring

/-- Below a power of two the interval ends after a quarter of the unit. -/
def HasNearLower (x : Binary64) : Prop :=
  x.significand = leastNormal ∧ minExponent < x.exponent

theorem lower_of_hasNearLower (h : x.HasNearLower) :
    x.lower = (x.significand - 1 / 4) * 2 ^ x.exponent := by
  rw [HasNearLower] at h
  rw [lower, Decimal.quarters, if_pos h, two_zpow_eq_quarters x.exponent, h.1, leastNormal]
  push_cast
  ring

theorem lower_of_not_hasNearLower (h : ¬ x.HasNearLower) (hpos : 0 < x.significand) :
    x.lower = (x.significand - 1 / 2) * 2 ^ x.exponent := by
  rw [HasNearLower] at h
  rw [lower, Decimal.quarters, if_neg h, two_zpow_eq_quarters x.exponent]
  dsimp only
  rw [Nat.cast_sub (by omega)]
  push_cast
  ring

theorem lower_of_significand_eq_zero (h : x.significand = 0) : x.lower = 0 := by
  rw [lower, Decimal.quarters, h]
  simp

theorem covers_of_odd (h : x.significand % 2 = 1) :
    x.Covers q ↔ x.lower < q ∧ q < x.upper := by
  rw [Covers, if_neg (by omega)]

theorem covers_of_even (h : x.significand % 2 = 0) :
    x.Covers q ↔ x.lower ≤ q ∧ q ≤ x.upper := by
  rw [Covers, if_pos h]

theorem le_lower (hx : x.significand ≠ 0) : (x.significand - 1 / 2) * 2 ^ x.exponent ≤ x.lower := by
  by_cases hnear : x.HasNearLower
  · rw [lower_of_hasNearLower hnear]
    gcongr
    norm_num
  · rw [lower_of_not_hasNearLower hnear (Nat.pos_of_ne_zero hx)]

theorem Covers.lower_le (h : x.Covers q) : x.lower ≤ q := by
  rw [Covers] at h
  split at h
  · exact h.1
  · exact h.1.le

theorem Covers.le_upper (h : x.Covers q) : q ≤ x.upper := by
  rw [Covers] at h
  split at h
  · exact h.2
  · exact h.2.le

theorem significand_eq_zero_of_covers (h : x.Covers 0) : x.significand = 0 := by
  by_contra hne
  have hone : (1 : ℚ) ≤ x.significand := by exact_mod_cast Nat.pos_of_ne_zero hne
  have hpos : (0 : ℚ) < (x.significand - 1 / 2) * 2 ^ x.exponent :=
    mul_pos (by linarith) (by positivity)
  linarith [le_lower hne, h.lower_le]

/-- Numbers between covered numbers are covered. -/
theorem covers_of_between {low high : ℚ} (hlow : x.Covers low) (hhigh : x.Covers high)
    (hle : low ≤ q) (hle' : q ≤ high) : x.Covers q := by
  rw [Covers] at hlow hhigh ⊢
  split at hlow
  · next heven =>
    rw [if_pos heven] at hhigh ⊢
    exact ⟨hlow.1.trans hle, hle'.trans hhigh.2⟩
  · next hodd =>
    rw [if_neg hodd] at hhigh ⊢
    exact ⟨hlow.1.trans_le hle, hle'.trans_lt hhigh.2⟩

/-- A significand nearest to the quotient makes an interval around it. At the lower end of a power of
two the quotient has to lie above. -/
theorem covers_of_nearest (hq : 0 ≤ q)
    (hnearest : (x.significand - 1 / 2) * 2 ^ x.exponent ≤ q ∧
      q ≤ (x.significand + 1 / 2) * 2 ^ x.exponent)
    (hodd : x.significand % 2 = 1 → (x.significand - 1 / 2) * 2 ^ x.exponent < q ∧
      q < (x.significand + 1 / 2) * 2 ^ x.exponent)
    (hnear : x.HasNearLower → x.magnitude ≤ q) : x.Covers q := by
  obtain heven | hmod := Nat.mod_two_eq_zero_or_one x.significand
  · rw [covers_of_even heven, upper_eq]
    refine ⟨?_, hnearest.2⟩
    by_cases hlower : x.HasNearLower
    · rw [lower_of_hasNearLower hlower]
      refine le_trans ?_ (hnear hlower)
      rw [magnitude]
      gcongr
      linarith
    · obtain hzero | hpos := Nat.eq_zero_or_pos x.significand
      · rw [lower_of_significand_eq_zero hzero]
        exact hq
      · rw [lower_of_not_hasNearLower hlower hpos]
        exact hnearest.1
  · have hlower : ¬ x.HasNearLower := by
      rintro ⟨hleast, -⟩
      rw [hleast] at hmod
      cases hmod
    rw [covers_of_odd hmod, upper_eq, lower_of_not_hasNearLower hlower (by omega)]
    exact hodd hmod

/-- The significand that is rounded first, at the exponent of the quotient. -/
def firstSignificand (num den : Nat) : Nat :=
  let (n, d) := scaleDown num den (exponentOf num den)
  roundQuotient n d

theorem ofRatio_cases (hnum : num ≠ 0) (h : ofRatio num den = some x) :
    x = ⟨false, firstSignificand num den, exponentOf num den⟩ ∨
      firstSignificand num den = 2 * leastNormal ∧
        x = ⟨false, leastNormal, exponentOf num den + 1⟩ := by
  have hfirst : roundQuotient (scaleDown num den (exponentOf num den)).1
      (scaleDown num den (exponentOf num den)).2 = firstSignificand num den := rfl
  rw [ofRatio, if_neg hnum] at h
  dsimp only at h
  rw [hfirst, Option.ite_none_left_eq_some, Option.some.injEq] at h
  obtain ⟨-, rfl⟩ := h
  by_cases hcarry : firstSignificand num den = 2 * leastNormal
  · rw [if_pos hcarry]
    exact Or.inr ⟨hcarry, rfl⟩
  · rw [if_neg hcarry]
    exact Or.inl rfl

theorem firstSignificand_nearest (num : Nat) (hden : den ≠ 0) :
    ((firstSignificand num den - 1 / 2) * 2 ^ exponentOf num den ≤ (num / den : ℚ) ∧
      (num / den : ℚ) ≤ (firstSignificand num den + 1 / 2) * 2 ^ exponentOf num den) ∧
    (firstSignificand num den % 2 = 1 →
      (firstSignificand num den - 1 / 2) * 2 ^ exponentOf num den < (num / den : ℚ) ∧
      (num / den : ℚ) < (firstSignificand num den + 1 / 2) * 2 ^ exponentOf num den) := by
  have hspec := roundQuotient_spec (scaleDown num den (exponentOf num den)).1
    (scaleDown_den_pos hden num (exponentOf num den))
  have hpow : (0 : ℚ) < 2 ^ exponentOf num den := by positivity
  rw [scaleDown_eq, le_div_iff₀ hpow, div_le_iff₀ hpow, lt_div_iff₀ hpow,
    div_lt_iff₀ hpow] at hspec
  exact ⟨⟨hspec.1, hspec.2.1⟩, hspec.2.2⟩

/-- **A ratio lies in the interval of the number that it is rounded to.** -/
theorem covers_of_ofRatio (hden : den ≠ 0) (h : ofRatio num den = some x) :
    x.Covers (num / den) := by
  by_cases hnum : num = 0
  · rw [ofRatio, if_pos hnum] at h
    cases h
    rw [hnum, Nat.cast_zero, zero_div, covers_of_even rfl, upper_eq,
      lower_of_significand_eq_zero rfl]
    exact ⟨le_rfl, by positivity⟩
  have hpos : (0 : ℚ) ≤ num / den := by positivity
  obtain ⟨hmin, hlt, hle⟩ := exponentOf_spec hnum hden
  obtain ⟨hnearest, hodd⟩ := firstSignificand_nearest num hden
  obtain rfl | ⟨hcarry, rfl⟩ := ofRatio_cases hnum h
  · refine covers_of_nearest hpos hnearest hodd ?_
    rintro ⟨hleast, hmin⟩
    dsimp only at hleast hmin
    rw [magnitude, hleast, leastNormal_eq, ← zpow_add₀ (by norm_num), add_comm]
    exact hle hmin
  · -- after a carry the interval begins a half below the first significand
    have hcarry' : (firstSignificand num den : ℚ) = 2 * 2 ^ (52 : ℤ) := by
      rw [hcarry, Nat.cast_mul, leastNormal_eq, Nat.cast_two]
    have heven : leastNormal % 2 = 0 := by decide
    rw [covers_of_even heven, upper_eq,
      lower_of_hasNearLower ⟨rfl, Int.lt_add_one_of_le hmin⟩]
    dsimp only
    rw [leastNormal_eq, zpow_add_one₀ (by norm_num)]
    constructor
    · refine le_trans (le_of_eq ?_) hnearest.1
      rw [hcarry']
      ring
    · rw [show exponentOf num den + 53 = 52 + exponentOf num den + 1 by ring,
        zpow_add_one₀ (by norm_num), zpow_add₀ (by norm_num)] at hlt
      have hpow : (0 : ℚ) < 2 ^ exponentOf num den := by positivity
      linarith

/-- The significand has 53 bits where the quotient is not too small. -/
theorem isNormal_of_ofRatio (hden : den ≠ 0) (h : ofRatio num den = some x)
    (hle : (2 : ℚ) ^ (minExponent + 52) ≤ num / den) : x.IsNormal := by
  have hnum : num ≠ 0 := by
    rintro rfl
    rw [Nat.cast_zero, zero_div] at hle
    exact absurd hle (not_le.mpr (by positivity))
  obtain ⟨hmin, -, hle'⟩ := exponentOf_spec hnum hden
  obtain ⟨⟨-, hupper⟩, -⟩ := firstSignificand_nearest num hden
  obtain rfl | ⟨hcarry, rfl⟩ := ofRatio_cases hnum h
  · have hscaled : (2 : ℚ) ^ (exponentOf num den + 52) ≤ num / den := by
      obtain hlt | heq := lt_or_eq_of_le hmin
      · exact hle' hlt
      · rwa [← heq]
    rw [add_comm, zpow_add₀ (by norm_num), ← leastNormal_eq] at hscaled
    have hround := le_of_mul_le_mul_right (hscaled.trans hupper) (by positivity)
    have hlt : (leastNormal : ℚ) < (firstSignificand num den : ℚ) + 1 := by linarith
    exact Nat.le_of_lt_succ (by exact_mod_cast hlt)
  · exact le_rfl

/-! ### Exact results -/

theorem roundQuotient_one (n : Nat) : roundQuotient n 1 = n := by
  rw [roundQuotient, Nat.mod_one, Nat.div_one]
  rfl

theorem exponentOf_one_le {n : Nat} (hzero : n ≠ 0) (hn : n < 2 * leastNormal) :
    exponentOf n 1 ≤ 0 := by
  obtain ⟨-, -, hle⟩ := exponentOf_spec hzero one_ne_zero
  rw [Nat.cast_one, div_one] at hle
  by_contra! hpos
  have hbig : (2 : ℚ) ^ (52 + 1 : ℤ) ≤ n :=
    (zpow_le_zpow_right₀ (by norm_num) (by omega)).trans (hle (by rw [minExponent]; omega))
  rw [zpow_add_one₀ (by norm_num), ← leastNormal_eq] at hbig
  have hsmall : (n : ℚ) < 2 * leastNormal := by exact_mod_cast hn
  linarith

/-- A natural number of at most 53 bits is kept. -/
theorem magnitude_of_ofRatio_one {n : Nat} (hn : n < 2 * leastNormal)
    (h : ofRatio n 1 = some x) : x.magnitude = n := by
  by_cases hzero : n = 0
  · rw [ofRatio, if_pos hzero] at h
    cases h
    rw [hzero, magnitude, zero, Nat.cast_zero, zero_mul]
  have hexponent := exponentOf_one_le hzero hn
  obtain ⟨-, hlt, -⟩ := exponentOf_spec hzero one_ne_zero
  have hscaled := scaleDown_eq n 1 (exponentOf n 1)
  have hfirst : (firstSignificand n 1 : ℚ) = n / 2 ^ exponentOf n 1 := by
    have hone : (scaleDown n 1 (exponentOf n 1)).2 = 1 := by
      rw [scaleDown, Int.toNat_of_nonpos hexponent]
      rfl
    rw [hone, Nat.cast_one, div_one, div_one] at hscaled
    rw [firstSignificand]
    dsimp only
    rw [hone, roundQuotient_one, hscaled]
  rw [Nat.cast_one, div_one, add_comm, zpow_add₀ (by norm_num), ← div_lt_iff₀ (by positivity),
    ← hfirst] at hlt
  obtain rfl | ⟨hcarry, -⟩ := ofRatio_cases hzero h
  · rw [magnitude, hfirst, div_mul_cancel₀ _ (by positivity)]
  · rw [hcarry, Nat.cast_mul, leastNormal_eq] at hlt
    norm_num at hlt

/-! ### Products and quotients -/

theorem ratio_snd_pos (x : Binary64) : 0 < x.ratio.2 := by
  simp only [ratio, Nat.shiftLeft_eq, one_mul]
  exact Nat.two_pow_pos _

theorem ratio_fst_pos (h : x.significand ≠ 0) : 0 < x.ratio.1 := by
  simp only [ratio, Nat.shiftLeft_eq]
  exact Nat.mul_pos (Nat.pos_of_ne_zero h) (Nat.two_pow_pos _)

variable {y z : Binary64}

theorem mul_spec (h : x.mul y = some z) :
    z.Covers (x.magnitude * y.magnitude) ∧
      ((2 : ℚ) ^ (minExponent + 52) ≤ x.magnitude * y.magnitude → z.IsNormal) := by
  have hden := (Nat.mul_pos x.ratio_snd_pos y.ratio_snd_pos).ne'
  rw [← ratio_eq, ← ratio_eq, div_mul_div_comm, ← Nat.cast_mul, ← Nat.cast_mul]
  exact ⟨covers_of_ofRatio hden h, isNormal_of_ofRatio hden h⟩

theorem div_spec (hy : y.significand ≠ 0) (h : x.div y = some z) :
    z.Covers (x.magnitude / y.magnitude) ∧
      ((2 : ℚ) ^ (minExponent + 52) ≤ x.magnitude / y.magnitude → z.IsNormal) := by
  have hden := (Nat.mul_pos x.ratio_snd_pos (ratio_fst_pos hy)).ne'
  rw [← ratio_eq, ← ratio_eq, div_div_div_eq, ← Nat.cast_mul, ← Nat.cast_mul]
  exact ⟨covers_of_ofRatio hden h, isNormal_of_ofRatio hden h⟩

end DumpMask.Binary64
