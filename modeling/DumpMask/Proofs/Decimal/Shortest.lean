import DumpMask.Proofs.Decimal.Rounding

/-!
# Shortest decimals

The search looks at the two neighbours of a number on finer and finer grids, so what it finds has no
more digits than the grid that it was found on. A number of at most fifteen digits is on one of the
grids that are searched, and there it is the only one that rounds to its floating point number: the
interval is shorter than a step of the grid. Main statement: such a number is found again.
-/

namespace DumpMask.Decimal

open Binary64 (Covers)

/-- The exact number. -/
def value (decimal : Decimal) : ℚ :=
  decimal.digits * 10 ^ decimal.exponent

/-! ### The leading digit -/

theorem digitCount_pos (n : Nat) : 0 < digitCount n :=
  Nat.length_toDigits_pos

theorem digitCount_le_iff {n k : Nat} (hk : 0 < k) : digitCount n ≤ k ↔ n < 10 ^ k :=
  Nat.length_toDigits_le_iff (by decide) hk

theorem lt_pow_digitCount (n : Nat) : n < 10 ^ digitCount n :=
  (digitCount_le_iff (digitCount_pos n)).mp le_rfl

theorem pow_digitCount_le {n : Nat} (hn : 0 < n) : 10 ^ (digitCount n - 1) ≤ n := by
  obtain hone | hmore := Nat.eq_or_lt_of_le (digitCount_pos n)
  · rw [← hone]
    exact hn
  · by_contra! hlt
    have hle := (digitCount_le_iff (by omega)).mpr hlt
    omega

theorem leadingExponent_spec {num den : Nat} (hnum : 0 < num) (hden : 0 < den) :
    (10 : ℚ) ^ leadingExponent num den ≤ num / den ∧
      (num / den : ℚ) < 10 ^ (leadingExponent num den + 1) := by
  have hnum' : (0 : ℚ) < num := by exact_mod_cast hnum
  have hden' : (0 : ℚ) < den := by exact_mod_cast hden
  rw [leadingExponent]
  split
  · next hle =>
    have hlow := pow_digitCount_le (Nat.div_pos hle hden)
    have hhigh := lt_pow_digitCount (num / den)
    have hcount := digitCount_pos (num / den)
    generalize digitCount (num / den) = count at hlow hhigh hcount
    rw [Nat.le_div_iff_mul_le hden] at hlow
    rw [Nat.div_lt_iff_lt_mul hden] at hhigh
    rw [le_div_iff₀ hden', div_lt_iff₀ hden', sub_add_cancel, ← Nat.cast_pred hcount,
      zpow_natCast, zpow_natCast]
    exact ⟨by exact_mod_cast hlow, by exact_mod_cast hhigh⟩
  · next hlt =>
    have hpos : 0 < (den - 1) / num := Nat.div_pos (by omega) hnum
    have hlow := pow_digitCount_le hpos
    have hhigh := lt_pow_digitCount ((den - 1) / num)
    have hcount := digitCount_pos ((den - 1) / num)
    generalize digitCount ((den - 1) / num) = count at hlow hhigh hcount
    rw [Nat.le_div_iff_mul_le hnum] at hlow
    rw [Nat.div_lt_iff_lt_mul hnum] at hhigh
    have hlow' : 10 ^ (count - 1) * num < den := by omega
    have hhigh' : den ≤ 10 ^ count * num := by omega
    rw [show -(count : Int) + 1 = -((count - 1 : Nat) : Int) by omega, zpow_neg, zpow_neg,
      zpow_natCast, zpow_natCast, inv_eq_one_div, inv_eq_one_div,
      div_le_div_iff₀ (by positivity) hden', div_lt_div_iff₀ hden' (by positivity), one_mul,
      mul_comm (num : ℚ), mul_comm (num : ℚ)]
    exact ⟨by exact_mod_cast hhigh', by exact_mod_cast hlow'⟩

/-! ### Grids -/

variable {x : Binary64} {q : ℚ} {leading : Int} {count : Nat} {decimal : Decimal}

theorem covers_magnitude (hx : x.significand ≠ 0) : x.Covers x.magnitude := by
  have hpow : (0 : ℚ) < 2 ^ x.exponent := by positivity
  apply Binary64.covers_of_nearest
  · rw [Binary64.magnitude]
    positivity
  · rw [Binary64.magnitude]
    constructor <;> linarith
  · intro _
    rw [Binary64.magnitude]
    constructor <;> linarith
  · exact fun _ => le_rfl

/-- The unit of a quarter of the significand and the unit of the grid, as natural numbers of one
ratio. -/
def gridUnits (x : Binary64) (exponent : Int) : Nat × Nat :=
  (Nat.pow 10 (-exponent).toNat <<< (x.exponent - 2).toNat,
    Nat.pow 10 exponent.toNat <<< (2 - x.exponent).toNat)

/-- The candidate rounds to `x`. -/
def isInside (x : Binary64) (exponent : Int) (candidate : Nat) : Bool :=
  let (low, _, high) := quarters x
  let (binary, decimal) := gridUnits x exponent
  if x.significand % 2 = 0 then
    low * binary ≤ candidate * decimal && candidate * decimal ≤ high * binary
  else low * binary < candidate * decimal && candidate * decimal < high * binary

/-- The neighbour below `x` on the grid. -/
def gridFloor (x : Binary64) (exponent : Int) : Nat :=
  (quarters x).2.1 * (gridUnits x exponent).1 / (gridUnits x exponent).2

theorem gridUnits_spec (x : Binary64) (exponent : Int) : ∃ scale : ℚ, 0 < scale ∧
    (gridUnits x exponent).1 = 2 ^ (x.exponent - 2) * scale ∧
    (gridUnits x exponent).2 = 10 ^ exponent * scale := by
  refine ⟨10 ^ (-exponent).toNat * 2 ^ (-(x.exponent - 2)).toNat, by positivity, ?_, ?_⟩
  · rw [gridUnits, Binary64.zpow_eq_div two_ne_zero]
    simp only [Nat.shiftLeft_eq, Nat.pow_eq]
    push_cast
    field_simp
  · have hneg : 2 - x.exponent = -(x.exponent - 2) := by ring
    rw [gridUnits, Binary64.zpow_eq_div (by norm_num), hneg]
    simp only [Nat.shiftLeft_eq, Nat.pow_eq]
    push_cast
    field_simp

section Units

variable {exponent : Int}

theorem gridUnits_le_iff (m n : Nat) :
    m * (gridUnits x exponent).1 ≤ n * (gridUnits x exponent).2 ↔
      (m * 2 ^ (x.exponent - 2) : ℚ) ≤ n * 10 ^ exponent := by
  obtain ⟨scale, hscale, hbinary, hdecimal⟩ := gridUnits_spec x exponent
  rw [← Nat.cast_le (α := ℚ), Nat.cast_mul, Nat.cast_mul, hbinary, hdecimal, ← mul_assoc,
    ← mul_assoc, mul_le_mul_iff_left₀ hscale]

theorem gridUnits_ge_iff (m n : Nat) :
    n * (gridUnits x exponent).2 ≤ m * (gridUnits x exponent).1 ↔
      (n * 10 ^ exponent : ℚ) ≤ m * 2 ^ (x.exponent - 2) := by
  obtain ⟨scale, hscale, hbinary, hdecimal⟩ := gridUnits_spec x exponent
  rw [← Nat.cast_le (α := ℚ), Nat.cast_mul, Nat.cast_mul, hbinary, hdecimal, ← mul_assoc,
    ← mul_assoc, mul_le_mul_iff_left₀ hscale]

theorem isInside_iff {candidate : Nat} :
    isInside x exponent candidate ↔ x.Covers (candidate * 10 ^ exponent) := by
  rw [isInside, Covers, Binary64.lower, Binary64.upper]
  dsimp only
  split
  · rw [Bool.and_eq_true, decide_eq_true_iff, decide_eq_true_iff, gridUnits_le_iff,
      gridUnits_ge_iff]
  · rw [Bool.and_eq_true, decide_eq_true_iff, decide_eq_true_iff, ← not_le, ← not_le,
      gridUnits_le_iff, gridUnits_ge_iff, not_le, not_le]

theorem magnitude_eq_quarters (x : Binary64) :
    x.magnitude = (quarters x).2.1 * 2 ^ (x.exponent - 2) := by
  rw [Binary64.magnitude, Binary64.two_zpow_eq_quarters, quarters, Nat.cast_mul]
  push_cast
  ring

theorem gridUnits_snd_pos (x : Binary64) (exponent : Int) : 0 < (gridUnits x exponent).2 := by
  simp only [gridUnits, Nat.shiftLeft_eq, Nat.pow_eq]
  positivity

theorem gridFloor_spec (x : Binary64) (exponent : Int) :
    gridFloor x exponent * (10 : ℚ) ^ exponent ≤ x.magnitude ∧
      x.magnitude < (gridFloor x exponent + 1) * (10 : ℚ) ^ exponent := by
  have hpos := gridUnits_snd_pos x exponent
  rw [magnitude_eq_quarters, ← Nat.cast_add_one, ← gridUnits_ge_iff, ← not_le, ← gridUnits_ge_iff,
    not_le]
  exact ⟨Nat.div_mul_le_self _ _, Nat.lt_mul_of_div_lt (Nat.lt_succ_self _) hpos⟩

end Units

/-- What is found on a grid is a neighbour of `x` that rounds to `x`. -/
structure IsOnGrid (x : Binary64) (exponent : Int) (decimal : Decimal) : Prop where
  exponent_eq : decimal.exponent = exponent
  digits_le : decimal.digits ≤ gridFloor x exponent + 1
  covers : x.Covers decimal.value

theorem isOnGrid_floor {exponent : Int} (h : isInside x exponent (gridFloor x exponent) = true) :
    IsOnGrid x exponent ⟨gridFloor x exponent, exponent⟩ :=
  ⟨rfl, Nat.le_succ _, isInside_iff.mp h⟩

theorem isOnGrid_next {exponent : Int} (h : isInside x exponent (gridFloor x exponent + 1) = true) :
    IsOnGrid x exponent ⟨gridFloor x exponent + 1, exponent⟩ :=
  ⟨rfl, le_rfl, isInside_iff.mp h⟩

theorem isOnGrid_of_onGrid? (h : onGrid? x leading count = some decimal) :
    IsOnGrid x (leading - count + 1) decimal := by
  rw [onGrid?] at h
  dsimp only at h
  split at h
  · cases h
  · next hfloor hnext =>
    cases h
    exact isOnGrid_floor hfloor
  · next hfloor hnext =>
    cases h
    exact isOnGrid_next hnext
  · next hfloor hnext =>
    split at h
    · cases h
      exact isOnGrid_floor hfloor
    split at h
    · cases h
      exact isOnGrid_next hnext
    split at h
    · cases h
      exact isOnGrid_floor hfloor
    · cases h
      exact isOnGrid_next hnext

theorem not_isInside_of_onGrid? (h : onGrid? x leading count = none) :
    isInside x (leading - count + 1) (gridFloor x (leading - count + 1)) = false ∧
      isInside x (leading - count + 1) (gridFloor x (leading - count + 1) + 1) = false := by
  rw [onGrid?] at h
  dsimp only at h
  split at h
  · next hfloor hnext => exact ⟨hfloor, hnext⟩
  · cases h
  · cases h
  · split_ifs at h

/-- If any number of the grid rounds to `x`, one of the two neighbours does. -/
theorem onGrid?_ne_none {candidate : Nat} (hx : x.significand ≠ 0)
    (h : x.Covers (candidate * 10 ^ (leading - count + 1))) :
    onGrid? x leading count ≠ none := by
  intro hnone
  obtain ⟨hfloor, hnext⟩ := not_isInside_of_onGrid? hnone
  generalize leading - count + 1 = exponent at *
  obtain ⟨hle, hlt⟩ := gridFloor_spec x exponent
  obtain hbelow | habove := Nat.lt_or_ge (gridFloor x exponent) candidate
  · have hcovers : isInside x exponent (gridFloor x exponent + 1) := by
      rw [isInside_iff]
      refine Binary64.covers_of_between (covers_magnitude hx) h ?_ ?_
      · exact_mod_cast hlt.le
      · gcongr
        exact hbelow
    rw [hnext] at hcovers
    cases hcovers
  · have hcovers : isInside x exponent (gridFloor x exponent) := by
      rw [isInside_iff]
      refine Binary64.covers_of_between h (covers_magnitude hx) ?_ hle
      gcongr
    rw [hfloor] at hcovers
    cases hcovers

/-! ### The search -/

theorem search_eq_zero_or (x : Binary64) (leading : Int) (tries count : Nat) :
    search x leading tries count = ⟨0, 0⟩ ∨
      ∃ i < tries, onGrid? x leading (count + i) = some (search x leading tries count) := by
  induction tries generalizing count with
  | zero => exact Or.inl rfl
  | succ tries ih =>
    rw [search]
    split
    · next decimal hgrid => exact Or.inr ⟨0, Nat.succ_pos tries, hgrid⟩
    · obtain hzero | ⟨i, hi, hgrid⟩ := ih (count + 1)
      · exact Or.inl hzero
      · rw [Nat.add_right_comm] at hgrid
        exact Or.inr ⟨i + 1, Nat.succ_lt_succ hi, hgrid⟩

/-- The search stops at the first grid on which it finds anything. -/
theorem exists_onGrid?_eq_search {tries i : Nat} (hi : i < tries)
    (h : onGrid? x leading (count + i) ≠ none) :
    ∃ j ≤ i, onGrid? x leading (count + j) = some (search x leading tries count) := by
  induction tries generalizing count i with
  | zero => exact absurd hi (Nat.not_lt_zero i)
  | succ tries ih =>
    rw [search]
    split
    · next decimal hgrid => exact ⟨0, Nat.zero_le i, hgrid⟩
    · next hnone =>
      cases i with
      | zero => exact absurd hnone h
      | succ i =>
        rw [← Nat.add_assoc, Nat.add_right_comm] at h
        obtain ⟨j, hj, hgrid⟩ := ih (Nat.lt_of_succ_lt_succ hi) h
        rw [Nat.add_right_comm] at hgrid
        exact ⟨j + 1, Nat.succ_le_succ hj, hgrid⟩

/-- The exponent of the leading digit of `x`. -/
def leadingOf (x : Binary64) : Int :=
  leadingExponent x.ratio.1 x.ratio.2

theorem leadingOf_spec (hx : x.significand ≠ 0) :
    (10 : ℚ) ^ leadingOf x ≤ x.magnitude ∧ x.magnitude < 10 ^ (leadingOf x + 1) := by
  rw [← Binary64.ratio_eq]
  exact leadingExponent_spec (Binary64.ratio_fst_pos hx) x.ratio_snd_pos

theorem shortest_of_ne_zero (hx : x.significand ≠ 0) :
    shortest x = search x (leadingOf x) 17 1 := by
  rw [shortest, if_neg (by rwa [Binary64.isZero, beq_iff_eq])]
  rfl

theorem shortest_of_zero (hx : x.significand = 0) : shortest x = ⟨0, 0⟩ := by
  rw [shortest, if_pos (by rwa [Binary64.isZero, beq_iff_eq])]

/-- A neighbour on a grid has no more digits than the grid. -/
theorem IsOnGrid.digits_le_pow (h : IsOnGrid x (leadingOf x - count + 1) decimal)
    (hx : x.significand ≠ 0) : decimal.digits ≤ 10 ^ count := by
  have hexponent : leadingOf x + 1 = count + (leadingOf x - count + 1) := by ring
  generalize leadingOf x - count + 1 = exponent at h hexponent
  have hlt := (gridFloor_spec x exponent).1.trans_lt (leadingOf_spec hx).2
  rw [hexponent, zpow_add₀ (by norm_num), mul_lt_mul_iff_left₀ (by positivity),
    zpow_natCast] at hlt
  have hlt' : gridFloor x exponent < 10 ^ count := by exact_mod_cast hlt
  exact h.digits_le.trans hlt'

theorem shortest_eq_zero_or (hx : x.significand ≠ 0) :
    shortest x = ⟨0, 0⟩ ∨ (shortest x).digits ≠ 0 := by
  rw [shortest_of_ne_zero hx]
  obtain hzero | ⟨i, -, hgrid⟩ := search_eq_zero_or x (leadingOf x) 17 1
  · exact Or.inl hzero
  · refine Or.inr fun hdigits => ?_
    have hcovers := (isOnGrid_of_onGrid? hgrid).covers
    rw [value, hdigits, Nat.cast_zero, zero_mul] at hcovers
    exact hx (Binary64.significand_eq_zero_of_covers hcovers)

/-- Seventeen digits are written at most. -/
theorem exists_digits_of_shortest (x : Binary64) :
    ∃ (digits : Nat) (exponent : Int),
      digits < 10 ^ 17 ∧ (shortest x).value = digits * 10 ^ exponent := by
  have hle : (shortest x).digits ≤ 10 ^ 17 := by
    by_cases hx : x.significand = 0
    · rw [shortest_of_zero hx]
      exact Nat.zero_le _
    · rw [shortest_of_ne_zero hx]
      obtain hzero | ⟨i, hi, hgrid⟩ := search_eq_zero_or x (leadingOf x) 17 1
      · rw [hzero]
        exact Nat.zero_le _
      · refine ((isOnGrid_of_onGrid? hgrid).digits_le_pow hx).trans ?_
        exact Nat.pow_le_pow_right (by decide) (by omega)
  obtain hlt | heq := Nat.lt_or_eq_of_le hle
  · exact ⟨_, _, hlt, rfl⟩
  · refine ⟨1, 17 + (shortest x).exponent, by decide, ?_⟩
    rw [value, heq, zpow_add₀ (by norm_num)]
    norm_num

/-! ### Short decimals -/

/-- The interval is no longer than the unit of the significand. -/
theorem sub_le_of_covers {low high : ℚ} (hx : x.significand ≠ 0) (hlow : x.Covers low)
    (hhigh : x.Covers high) : high - low ≤ 2 ^ x.exponent := by
  have hpow : (0 : ℚ) < 2 ^ x.exponent := by positivity
  have hlower := Binary64.le_lower hx
  have hupper := Binary64.upper_eq x
  have hle := hlow.lower_le
  have hle' := hhigh.le_upper
  linarith

/-- A grid that is wider than the interval has at most one number in it. -/
theorem le_of_covers {exponent : Int} {a b : Nat} (hx : x.significand ≠ 0)
    (hunit : (2 : ℚ) ^ x.exponent < 10 ^ exponent) (ha : x.Covers (a * 10 ^ exponent))
    (hb : x.Covers (b * 10 ^ exponent)) : a ≤ b := by
  by_contra! hlt
  have hle : ((b : ℚ) + 1) * 10 ^ exponent ≤ a * 10 ^ exponent := by
    gcongr
    exact_mod_cast hlt
  have hsub := sub_le_of_covers hx hb ha
  linarith

section Short

variable (hx : x.IsNormal)
include hx

theorem significand_ne_zero : x.significand ≠ 0 :=
  (Nat.lt_of_lt_of_le (by decide) hx).ne'

theorem pow_52_mul_le : (2 : ℚ) ^ (52 : ℕ) * 2 ^ x.exponent ≤ x.magnitude := by
  rw [Binary64.magnitude]
  gcongr
  exact_mod_cast hx

/-- The fifteenth digit is worth more than the unit of the significand. -/
theorem unit_lt_grid : (2 : ℚ) ^ x.exponent < 10 ^ (leadingOf x - 14) := by
  have hle := (pow_52_mul_le hx).trans_lt (leadingOf_spec (significand_ne_zero hx)).2
  rw [show leadingOf x + 1 = 15 + (leadingOf x - 14) by ring, zpow_add₀ (by norm_num)] at hle
  have hpow : (0 : ℚ) < 10 ^ (leadingOf x - 14) := by positivity
  norm_num at hle
  linarith

/-- A number of fifteen digits that rounds to `x` is on the grid of fifteen digits. -/
theorem leadingOf_le_of_covers {digits : Nat} {exponent : Int} (hdigits : digits < 10 ^ 15)
    (hcovers : x.Covers (digits * 10 ^ exponent)) : leadingOf x - 14 ≤ exponent := by
  by_contra! hlt
  have hmagnitude := pow_52_mul_le hx
  have hleading := (leadingOf_spec (significand_ne_zero hx)).1
  have hsub := sub_le_of_covers (significand_ne_zero hx) hcovers
    (covers_magnitude (significand_ne_zero hx))
  have hle : (digits * 10 ^ exponent : ℚ) ≤ (10 ^ 15 - 1) * 10 ^ (leadingOf x - 15) := by
    gcongr
    · have hdigits' : ((digits + 1 : Nat) : ℚ) ≤ (10 ^ 15 : Nat) := by exact_mod_cast hdigits
      push_cast at hdigits'
      linarith
    · norm_num
    · omega
  rw [show leadingOf x = 15 + (leadingOf x - 15) by ring, zpow_add₀ (by norm_num)] at hleading
  have hpow : (0 : ℚ) < 10 ^ (leadingOf x - 15) := by positivity
  norm_num at hle hleading hmagnitude
  linarith

end Short

theorem exists_multiple (digits : Nat) {exponent grid : Int} (h : grid ≤ exponent) :
    ∃ multiple : Nat, (digits * 10 ^ exponent : ℚ) = multiple * 10 ^ grid := by
  refine ⟨digits * 10 ^ (exponent - grid).toNat, ?_⟩
  rw [Nat.cast_mul, Nat.cast_pow, mul_assoc, Nat.cast_ofNat, ← zpow_natCast,
    ← zpow_add₀ (by norm_num)]
  congr 2
  omega

/-- **A number of at most fifteen digits is found again** from the floating point number that it
rounds to. -/
theorem value_shortest_of_covers {digits : Nat} {exponent : Int} (hx : x.IsNormal)
    (hdigits : digits < 10 ^ 15) (hcovers : x.Covers (digits * 10 ^ exponent)) :
    (shortest x).value = digits * 10 ^ exponent := by
  have hne := significand_ne_zero hx
  obtain ⟨multiple, hmultiple⟩ :=
    exists_multiple digits (leadingOf_le_of_covers hx hdigits hcovers)
  rw [hmultiple] at hcovers ⊢
  have hfound : onGrid? x (leadingOf x) (1 + 14) ≠ none := by
    apply onGrid?_ne_none hne
    have hgrid : leadingOf x - (1 + 14 : Nat) + 1 = leadingOf x - 14 := by omega
    rw [hgrid]
    exact hcovers
  obtain ⟨j, hj, hsearch⟩ := exists_onGrid?_eq_search (by decide : 14 < 17) hfound
  rw [← shortest_of_ne_zero hne] at hsearch
  obtain ⟨hexponent, -, hcovers'⟩ := isOnGrid_of_onGrid? hsearch
  have hle : leadingOf x - 14 ≤ (shortest x).exponent := by omega
  obtain ⟨multiple', hmultiple'⟩ := exists_multiple (shortest x).digits hle
  rw [value, hmultiple'] at hcovers' ⊢
  have hunit := unit_lt_grid hx
  rw [Nat.le_antisymm (le_of_covers hne hunit hcovers' hcovers)
    (le_of_covers hne hunit hcovers hcovers')]

end DumpMask.Decimal
