import DumpMask.Json.Number
import DumpMask.Proofs.Trimming
import Mathlib.Data.List.Induction
import Mathlib.Algebra.Order.Field.Rat
import Mathlib.Tactic.IntervalCases
import Mathlib.Tactic.Ring

/-!
# Written numerals

A numeral denotes an exact number whatever its digits: its significand, read as one integer across
the point, at the power of ten of its last digit. Digits that are written for a natural number denote
it, and a written numeral is scanned again, digit for digit, wherever nothing follows that could
belong to a number.
-/

namespace DumpMask.Json

/-! ### Digits -/

/-- At least one digit, and nothing else. -/
structure IsDigits (digits : Bytes) : Prop where
  ne_nil : digits ≠ []
  all : ∀ b ∈ digits, Ascii.isDigit b

namespace Numeral

theorem natValue_concat (digits : Bytes) (digit : UInt8) :
    natValue (digits ++ [digit]) = 10 * natValue digits + digitValue digit := by
  rw [natValue, List.foldl_append, List.foldl_cons, List.foldl_nil, natValue]

theorem natValue_append (left right : Bytes) :
    natValue (left ++ right) = natValue left * 10 ^ right.length + natValue right := by
  induction right using List.reverseRecOn with
  | nil => simp [natValue]
  | append_singleton rest digit ih =>
    rw [← List.append_assoc, natValue_concat, ih, natValue_concat, List.length_append,
      List.length_singleton, pow_succ]
    ring

theorem natValue_replicate_zero (count : Nat) : natValue (List.replicate count 0x30) = 0 := by
  induction count with
  | zero => rfl
  | succ count ih =>
    rw [List.replicate_succ', natValue_concat, ih]
    rfl

end Numeral

open Numeral

theorem digitOctets_eq (n : Nat) : digitOctets n = (Nat.toDigits 10 n).map Char.toUInt8 := by
  rw [digitOctets, Bytes.ofNat, ascii, Nat.toString_eq_repr, Nat.toList_repr]

theorem digitOctets_of_lt {n : Nat} (h : n < 10) : digitOctets n = [0x30 + n.toUInt8] := by
  rw [digitOctets_eq, Nat.toDigits_of_lt_base h]
  interval_cases n <;> rfl

theorem digitOctets_of_le {n : Nat} (h : 10 ≤ n) :
    digitOctets n = digitOctets (n / 10) ++ [0x30 + (n % 10).toUInt8] := by
  rw [← digitOctets_of_lt (Nat.mod_lt n (by decide)), digitOctets_eq, digitOctets_eq,
    digitOctets_eq, Nat.toDigits_of_base_le (by decide) h, List.map_append,
    Nat.toDigits_of_lt_base (Nat.mod_lt n (by decide)), List.map_singleton]

theorem digitValue_digit {d : Nat} (h : d < 10) : digitValue (0x30 + d.toUInt8) = d := by
  interval_cases d <;> rfl

theorem isDigit_digit {d : Nat} (h : d < 10) : Ascii.isDigit (0x30 + d.toUInt8) := by
  interval_cases d <;> rfl

/-- The digits of a natural number denote it. -/
theorem natValue_digitOctets (n : Nat) : natValue (digitOctets n) = n := by
  induction n using Nat.strongRecOn with
  | ind n ih =>
    by_cases h : n < 10
    · rw [digitOctets_of_lt h]
      exact (Nat.zero_add _).trans (digitValue_digit h)
    · have hten : 10 ≤ n := Nat.le_of_not_lt h
      rw [digitOctets_of_le hten, natValue_concat, ih (n / 10) (by omega),
        digitValue_digit (Nat.mod_lt n (by decide))]
      exact Nat.div_add_mod n 10

theorem isDigits_digitOctets (n : Nat) : IsDigits (digitOctets n) := by
  induction n using Nat.strongRecOn with
  | ind n ih =>
    by_cases h : n < 10
    · rw [digitOctets_of_lt h]
      exact ⟨List.cons_ne_nil _ _, List.forall_mem_singleton.mpr (isDigit_digit h)⟩
    · have hten : 10 ≤ n := Nat.le_of_not_lt h
      rw [digitOctets_of_le hten]
      refine ⟨List.append_ne_nil_of_right_ne_nil _ (List.cons_ne_nil _ _), ?_⟩
      exact List.forall_mem_append.mpr ⟨(ih (n / 10) (by omega)).all,
        List.forall_mem_singleton.mpr (isDigit_digit (Nat.mod_lt n (by decide)))⟩

theorem head?_digitOctets {n : Nat} (h : n ≠ 0) : (digitOctets n).head? ≠ some 0x30 := by
  induction n using Nat.strongRecOn with
  | ind n ih =>
    by_cases hten : n < 10
    · rw [digitOctets_of_lt hten]
      interval_cases n
      · exact absurd rfl h
      all_goals decide
    · have hhead := ih (n / 10) (by omega) (by omega)
      rw [digitOctets_of_le (Nat.le_of_not_lt hten), List.head?_append]
      obtain ⟨b, more, hmore⟩ := List.exists_cons_of_ne_nil (isDigits_digitOctets (n / 10)).ne_nil
      rw [hmore] at hhead ⊢
      exact hhead

/-! ### The number that a numeral denotes -/

namespace Numeral

variable (numeral : Numeral)

/-- The digits before and after the point as one integer. -/
def significand : Nat :=
  natValue (numeral.whole ++ numeral.fraction.getD [])

def writtenExponent : Int :=
  match numeral.exponent with
  | none => 0
  | some (true, digits) => -natValue digits
  | some (false, digits) => natValue digits

/-- The exponent of the last digit. -/
def lastExponent : Int :=
  numeral.writtenExponent - (numeral.fraction.getD []).length

/-- The exact number that a numeral denotes. -/
def value : ℚ :=
  let magnitude : ℚ := numeral.significand * 10 ^ numeral.lastExponent
  if numeral.negative then -magnitude else magnitude

/-! ### Numerals as they are written -/

def fractionText : Option Bytes → Bytes
  | none => []
  | some digits => Ascii.dot :: digits

def exponentText : Option (Bool × Bytes) → Bytes
  | none => []
  | some (negative, digits) => 0x65 :: (if negative then 0x2D else 0x2B) :: digits

/-- The text of a numeral, with the sign of the exponent in any case. -/
def text : Bytes :=
  (if numeral.negative then [0x2D] else []) ++
    (numeral.whole ++ (fractionText numeral.fraction ++ exponentText numeral.exponent))

/-- The digits are in order, and none leads needlessly. -/
structure IsWritten : Prop where
  whole : IsDigits numeral.whole
  leading : numeral.whole.head? = some 0x30 → numeral.whole.length = 1
  fraction : ∀ digits ∈ numeral.fraction, IsDigits digits
  exponent : ∀ exponent ∈ numeral.exponent, IsDigits exponent.2

end Numeral

/-- The text does not begin with what may continue a number. -/
def EndsNumber (text : Bytes) : Prop :=
  ∀ b ∈ text.head?, Ascii.isDigit b = false ∧ b ≠ Ascii.dot ∧ b ≠ 0x65 ∧ b ≠ 0x45

section Scanning

variable {numeral : Numeral} {digits rest : Bytes}

theorem scanDigits_append (hdigits : IsDigits digits)
    (hrest : ∀ b ∈ rest.head?, Ascii.isDigit b = false) :
    scanDigits (digits ++ rest) = some (digits, rest) := by
  rw [scanDigits, takeWhile_run hdigits.all hrest, dropWhile_run hdigits.all hrest,
    if_neg (mt List.isEmpty_iff.mp hdigits.ne_nil)]

theorem scanWhole_append (hdigits : IsDigits digits)
    (hleading : digits.head? = some 0x30 → digits.length = 1)
    (hrest : ∀ b ∈ rest.head?, Ascii.isDigit b = false) :
    scanWhole (digits ++ rest) = some (digits, rest) := by
  have hlead : ¬ (digits.head? = some 0x30 ∧ 1 < digits.length) := by
    rintro ⟨hzero, hlength⟩
    rw [hleading hzero] at hlength
    exact Nat.lt_irrefl 1 hlength
  rw [scanWhole, scanDigits_append hdigits hrest]
  exact if_neg hlead

theorem scanFraction_append {fraction : Option Bytes}
    (hfraction : ∀ digits ∈ fraction, IsDigits digits)
    (hrest : ∀ b ∈ rest.head?, Ascii.isDigit b = false ∧ b ≠ Ascii.dot) :
    scanFraction (fractionText fraction ++ rest) = some (fraction, rest) := by
  cases fraction with
  | none =>
    cases rest with
    | nil => rfl
    | cons b rest => exact if_neg (hrest b rfl).2
  | some digits =>
    have hscan := scanDigits_append (hfraction digits rfl) fun b hb => (hrest b hb).1
    rw [fractionText, List.cons_append, scanFraction, if_pos rfl, hscan]
    rfl

theorem scanExponent_append {exponent : Option (Bool × Bytes)}
    (hexponent : ∀ written ∈ exponent, IsDigits written.2) (hrest : EndsNumber rest) :
    scanExponent (exponentText exponent ++ rest) = some (exponent, rest) := by
  cases exponent with
  | none =>
    cases rest with
    | nil => rfl
    | cons b rest =>
      obtain ⟨-, -, hlower, hupper⟩ := hrest b rfl
      exact if_neg (not_or.mpr ⟨hlower, hupper⟩)
  | some written =>
    obtain ⟨negative, digits⟩ := written
    have hscan := scanDigits_append (hexponent _ rfl) fun b hb => (hrest b hb).1
    cases negative <;> simp [exponentText, scanExponent, scanSign, hscan]

theorem head?_exponentText (exponent : Option (Bool × Bytes)) (hrest : EndsNumber rest) :
    ∀ b ∈ (exponentText exponent ++ rest).head?, Ascii.isDigit b = false ∧ b ≠ Ascii.dot := by
  intro b hb
  cases exponent with
  | none => exact ⟨(hrest b hb).1, (hrest b hb).2.1⟩
  | some written =>
    cases hb
    decide

theorem head?_fractionText (fraction : Option Bytes)
    (hrest : ∀ b ∈ rest.head?, Ascii.isDigit b = false ∧ b ≠ Ascii.dot) :
    ∀ b ∈ (fractionText fraction ++ rest).head?, Ascii.isDigit b = false := by
  intro b hb
  cases fraction with
  | none => exact (hrest b hb).1
  | some digits =>
    cases hb
    rfl

theorem head?_append_of_isDigits (hdigits : IsDigits digits) :
    (digits ++ rest).head? ≠ some 0x2D := by
  obtain ⟨b, more, rfl⟩ := List.exists_cons_of_ne_nil hdigits.ne_nil
  intro hhead
  cases hhead
  cases hdigits.all 0x2D (List.mem_cons_self ..)

/-- **A written numeral is scanned again.** -/
theorem scan_text (h : numeral.IsWritten) (hrest : EndsNumber rest) :
    scan (numeral.text ++ rest) = some (numeral, rest) := by
  obtain ⟨negative, whole, fraction, exponent⟩ := numeral
  obtain ⟨hwhole, hleading, hfraction, hexponent⟩ := h
  dsimp only at hwhole hleading hfraction hexponent
  have hafter := head?_exponentText exponent hrest
  have hexponent := scanExponent_append hexponent hrest
  have hfraction := scanFraction_append hfraction hafter
  have hscan := scanWhole_append hwhole hleading (head?_fractionText fraction hafter)
  simp only [text, List.append_assoc]
  generalize fractionText fraction ++ (exponentText exponent ++ rest) = after at hscan hfraction ⊢
  have hsign : ((whole ++ after).head? == some 0x2D) = false :=
    beq_eq_false_iff_ne.mpr (head?_append_of_isDigits hwhole)
  cases negative with
  | true => simp [scan, hscan, hfraction, hexponent]
  | false =>
    rw [if_neg Bool.false_ne_true, List.nil_append, scan]
    dsimp only
    rw [hsign, if_neg Bool.false_ne_true, hscan]
    simp [hfraction, hexponent]

end Scanning

end DumpMask.Json
