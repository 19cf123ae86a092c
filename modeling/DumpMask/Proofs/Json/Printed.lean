import DumpMask.Proofs.Decimal.Shortest
import DumpMask.Proofs.Json.Numeral
import Mathlib.Data.List.DropRight

/-!
# Written numbers

A number is written as a numeral: an integer by its digits, a floating point number by the shortest
decimal that rounds to it, with the point put in. Zeros that are filled in or left out do not change
what the digits denote. Main statement: the numeral denotes exactly the integer or that decimal.
-/

namespace DumpMask.Json

/-- The exact number that is written for a number. -/
def Number.shown : Number → ℚ
  | .integer value => value
  | .float x =>
    if x.negative then -(Decimal.shortest x).value else (Decimal.shortest x).value

open Numeral

/-- The numeral is in order, is this text and denotes this number. -/
structure Numeral.Spells (numeral : Numeral) (text : Bytes) (q : ℚ) : Prop where
  isWritten : numeral.IsWritten
  text_eq : numeral.text = text
  value_eq : numeral.value = q

section Unsigned

variable {text digits : Bytes} {q : ℚ} {exponent : Int}

/-- A sign in front turns a numeral around. -/
theorem exists_spells_of_unsigned (negative : Bool) {whole : Bytes} {fraction : Option Bytes}
    {written : Option (Bool × Bytes)} (h : Spells ⟨false, whole, fraction, written⟩ text q) :
    ∃ numeral : Numeral, numeral.Spells (if negative then 0x2D :: text else text)
      (if negative then -q else q) := by
  cases negative with
  | false => exact ⟨_, h⟩
  | true =>
    obtain ⟨⟨hwhole, hleading, hfraction, hexponent⟩, rfl, rfl⟩ := h
    exact ⟨⟨true, whole, fraction, written⟩, ⟨hwhole, hleading, hfraction, hexponent⟩, rfl, rfl⟩

/-! ### Digits with a point -/

/-- Digits that denote `q` if the first of them has this exponent. The first is not zero. -/
structure Leads (digits : Bytes) (exponent : Int) (q : ℚ) : Prop where
  isDigits : IsDigits digits
  head_ne : digits.head? ≠ some 0x30
  value_eq : q = natValue digits * 10 ^ (exponent + 1 - digits.length)

theorem isDigits_zero : IsDigits [0x30] :=
  ⟨List.cons_ne_nil _ _, List.forall_mem_singleton.mpr rfl⟩

theorem isDigits_append_zeros (count : Nat) (h : IsDigits digits) :
    IsDigits (digits ++ List.replicate count 0x30) := by
  refine ⟨List.append_ne_nil_of_left_ne_nil h.ne_nil _, List.forall_mem_append.mpr ⟨h.all, ?_⟩⟩
  intro b hb
  rw [List.eq_of_mem_replicate hb]
  rfl

theorem isDigits_zeros_append (count : Nat) (h : IsDigits digits) :
    IsDigits (List.replicate count 0x30 ++ digits) := by
  refine ⟨List.append_ne_nil_of_right_ne_nil _ h.ne_nil, List.forall_mem_append.mpr ⟨?_, h.all⟩⟩
  intro b hb
  rw [List.eq_of_mem_replicate hb]
  rfl

/-- Digits with a point in between. -/
theorem spells_pointed {whole fraction : Bytes} (hwhole : IsDigits whole)
    (hleading : whole.head? = some 0x30 → whole.length = 1) (hfraction : IsDigits fraction)
    (hq : q = natValue (whole ++ fraction) * 10 ^ (-(fraction.length : Int))) :
    Spells ⟨false, whole, some fraction, none⟩ (whole ++ Ascii.dot :: fraction) q where
  isWritten := by
    refine ⟨hwhole, hleading, ?_, nofun⟩
    rintro _ ⟨⟩
    exact hfraction
  text_eq := by simp [text, fractionText, exponentText]
  value_eq := by
    rw [hq, ← zero_sub]
    rfl

/-- Below one, zeros fill the places up to the first digit. -/
theorem spells_below_one (h : Leads digits exponent q) (hneg : exponent < 0) :
    Spells ⟨false, [0x30], some (List.replicate (-exponent - 1).toNat 0x30 ++ digits), none⟩
      (0x30 :: Ascii.dot :: (List.replicate (-exponent - 1).toNat 0x30 ++ digits)) q := by
  refine spells_pointed isDigits_zero (fun _ => rfl) (isDigits_zeros_append _ h.isDigits) ?_
  have hsignificand : natValue ([0x30] ++ (List.replicate (-exponent - 1).toNat 0x30 ++ digits)) =
      natValue digits := by
    rw [← List.append_assoc, ← List.replicate_one, List.replicate_append_replicate,
      natValue_append, natValue_replicate_zero, Nat.zero_mul, Nat.zero_add]
  rw [h.value_eq, hsignificand, List.length_append, List.length_replicate]
  congr 2
  omega

/-- Zeros fill the places up to the point, and one stands behind it. -/
theorem spells_filled (h : Leads digits exponent q) {zeros : Nat}
    (hexponent : exponent + 1 = digits.length + zeros) :
    Spells ⟨false, digits ++ List.replicate zeros 0x30, some [0x30], none⟩
      (digits ++ List.replicate zeros 0x30 ++ [Ascii.dot, 0x30]) q := by
  refine spells_pointed (isDigits_append_zeros _ h.isDigits) ?_ isDigits_zero ?_
  · intro hzero
    rw [List.head?_append_of_ne_nil _ h.isDigits.ne_nil] at hzero
    exact absurd hzero h.head_ne
  · have hone : [0x30] = List.replicate 1 (0x30 : UInt8) := rfl
    rw [h.value_eq, hexponent, List.append_assoc, hone, List.replicate_append_replicate,
      natValue_append, natValue_replicate_zero, List.length_replicate, List.length_replicate]
    push_cast
    rw [add_zero, mul_assoc, ← zpow_natCast, ← zpow_add₀ (by norm_num)]
    congr 2
    push_cast
    ring

/-- The point stands among the digits. -/
theorem spells_split (h : Leads digits exponent q) {count : Nat} (hcount : 0 < count)
    (hexponent : exponent + 1 = count) (hlength : count < digits.length) :
    Spells ⟨false, digits.take count, some (digits.drop count), none⟩
      (digits.take count ++ Ascii.dot :: digits.drop count) q := by
  have hhead : (digits.take count).head? = digits.head? := by
    rw [List.head?_take, if_neg hcount.ne']
  have htake : digits.take count ≠ [] := by
    rw [← List.length_pos_iff, List.length_take]
    omega
  have hdrop : digits.drop count ≠ [] := by
    rw [← List.length_pos_iff, List.length_drop]
    omega
  refine spells_pointed ⟨htake, ?_⟩ ?_ ⟨hdrop, ?_⟩ ?_
  · exact fun b hb => h.isDigits.all b (List.mem_of_mem_take hb)
  · rw [hhead]
    exact fun hzero => absurd hzero h.head_ne
  · exact fun b hb => h.isDigits.all b (List.mem_of_mem_drop hb)
  · rw [h.value_eq, List.take_append_drop, List.length_drop]
    congr 2
    omega

theorem exists_spells_positional (h : Leads digits exponent q) :
    ∃ whole fraction, Spells ⟨false, whole, some fraction, none⟩ (positional digits exponent) q := by
  rw [positional]
  split
  · next hneg => exact ⟨_, _, spells_below_one h hneg⟩
  next hnonneg =>
  dsimp only
  obtain hlength | hlength := Nat.lt_or_ge (exponent.toNat + 1) digits.length
  · have hnone : exponent.toNat + 1 - digits.length = 0 := by omega
    have hdrop : digits.drop (exponent.toNat + 1) ≠ [] := by
      rw [← List.length_pos_iff, List.length_drop]
      omega
    rw [hnone, List.replicate_zero, List.append_nil, pointAndFraction,
      if_neg (mt List.isEmpty_iff.mp hdrop)]
    exact ⟨_, _, spells_split h (Nat.succ_pos _) (by omega) hlength⟩
  · have hpadded : (digits ++ List.replicate (exponent.toNat + 1 - digits.length) 0x30).length =
        exponent.toNat + 1 := by
      rw [List.length_append, List.length_replicate]
      omega
    rw [List.take_of_length_le hpadded.le, List.drop_of_length_le hpadded.le]
    exact ⟨_, _, spells_filled h (by omega)⟩

/-! ### The digits of a decimal -/

/-- Digits are cut off only if they are zero. -/
theorem exists_zeros (digits : Bytes) :
    ∃ zeros, digits = digits.rdropWhile (· == 0x30) ++ List.replicate zeros 0x30 := by
  have hzeros : digits.rtakeWhile (· == 0x30) =
      List.replicate (digits.rtakeWhile (· == 0x30)).length 0x30 := by
    apply List.eq_replicate_of_mem
    intro b hb
    have hzero := List.mem_rtakeWhile_imp hb
    exact beq_iff_eq.mp hzero
  refine ⟨(digits.rtakeWhile (· == 0x30)).length, ?_⟩
  rw [← hzeros, List.rdropWhile_append_rtakeWhile]

/-- The digits of a decimal lead with their exponent. -/
theorem leads_significantDigits {decimal : Decimal} (h : decimal.digits ≠ 0) :
    Leads (significantDigits decimal).1 (significantDigits decimal).2 decimal.value := by
  obtain ⟨zeros, hzeros⟩ := exists_zeros (digitOctets decimal.digits)
  have hdigits := isDigits_digitOctets decimal.digits
  have hhead := head?_digitOctets h
  have hvalue := natValue_digitOctets decimal.digits
  rw [hzeros, natValue_append, natValue_replicate_zero, List.length_replicate, add_zero] at hvalue
  rw [hzeros] at hdigits hhead
  have hlength := congrArg List.length hzeros
  rw [List.length_append, List.length_replicate] at hlength
  change Leads ((digitOctets decimal.digits).rdropWhile (· == 0x30))
    (decimal.exponent + (digitOctets decimal.digits).length - 1) decimal.value
  generalize (digitOctets decimal.digits).rdropWhile (· == 0x30) = digits at *
  have hne : digits ≠ [] := by
    rintro rfl
    exact h (hvalue.symm.trans (Nat.zero_mul _))
  refine ⟨⟨hne, fun b hb => hdigits.all b (List.mem_append_left _ hb)⟩, ?_, ?_⟩
  · rwa [List.head?_append_of_ne_nil _ hne] at hhead
  · rw [hlength, Decimal.value, ← hvalue, Nat.cast_mul, Nat.cast_pow, Nat.cast_ofNat, mul_assoc,
      ← zpow_natCast, ← zpow_add₀ (by norm_num)]
    congr 2
    omega

theorem writtenExponent_digitOctets (negative : Bool) (whole : Bytes) (fraction : Option Bytes)
    (exponent : Int) : writtenExponent ⟨negative, whole, fraction,
      some (decide (exponent < 0), digitOctets exponent.natAbs)⟩ = exponent := by
  by_cases hneg : exponent < 0
  · rw [decide_eq_true hneg]
    change -(natValue (digitOctets exponent.natAbs) : Int) = exponent
    rw [natValue_digitOctets]
    omega
  · rw [decide_eq_false hneg]
    change (natValue (digitOctets exponent.natAbs) : Int) = exponent
    rw [natValue_digitOctets]
    omega

/-- One digit stands before the point. -/
theorem spells_scientific (h : Leads digits exponent q) :
    Spells ⟨false, digits.take 1, if (digits.drop 1).isEmpty then none else some (digits.drop 1),
      some (decide (exponent < 0), digitOctets exponent.natAbs)⟩ (scientific digits exponent) q := by
  obtain ⟨⟨hne, hall⟩, -, hq⟩ := h
  obtain ⟨digit, more, rfl⟩ := List.exists_cons_of_ne_nil hne
  obtain ⟨hdigit, hmore⟩ := List.forall_mem_cons.mp hall
  rw [List.take_succ_cons, List.take_zero, List.drop_succ_cons, List.drop_zero]
  refine ⟨⟨⟨List.cons_ne_nil _ _, List.forall_mem_singleton.mpr hdigit⟩, fun _ => rfl, ?_, ?_⟩,
    ?_, ?_⟩
  · cases more with
    | nil => exact nofun
    | cons next rest =>
      rintro _ ⟨⟩
      exact ⟨List.cons_ne_nil _ _, hmore⟩
  · rintro _ ⟨⟩
    exact isDigits_digitOctets _
  · cases more <;> simp [text, fractionText, exponentText, scientific]
  · have hfraction : (if more.isEmpty then none else some more).getD [] = more := by
      cases more <;> rfl
    rw [hq, Numeral.value, significand, lastExponent, writtenExponent_digitOctets, hfraction,
      List.length_cons, List.singleton_append, if_neg Bool.false_ne_true]
    congr 2
    omega

end Unsigned

/-! ### Numbers -/

theorem spells_zero : Spells ⟨false, [0x30], some [0x30], none⟩ (ascii "0.0") 0 :=
  spells_pointed isDigits_zero (fun _ => rfl) isDigits_zero (by simp [natValue, digitValue])

/-- The text of a floating point number, without its sign. -/
def unsignedText (x : Binary64) : Bytes :=
  let written := significantDigits (Decimal.shortest x)
  if x.isZero then ascii "0.0"
  else if minPositional ≤ written.2 ∧ written.2 < minScientific then positional written.1 written.2
  else scientific written.1 written.2

theorem exists_spells_unsignedText (x : Binary64) : ∃ whole fraction written,
    Spells ⟨false, whole, fraction, written⟩ (unsignedText x) (Decimal.shortest x).value := by
  rw [unsignedText]
  split
  · next hzero =>
    rw [Decimal.shortest_of_zero (beq_iff_eq.mp hzero), Decimal.value, Nat.cast_zero, zero_mul]
    exact ⟨_, _, _, spells_zero⟩
  next hzero =>
  obtain hempty | hdigits := Decimal.shortest_eq_zero_or (mt beq_iff_eq.mpr hzero)
  · rw [hempty, Decimal.value, Nat.cast_zero, zero_mul]
    exact ⟨_, _, _, spells_zero⟩
  · have hleads := leads_significantDigits hdigits
    split
    · obtain ⟨whole, fraction, hspells⟩ := exists_spells_positional hleads
      exact ⟨_, _, _, hspells⟩
    · exact ⟨_, _, _, spells_scientific hleads⟩

/-- Digits without a point. -/
theorem spells_digitOctets (n : Nat) :
    Spells ⟨false, digitOctets n, none, none⟩ (digitOctets n) n where
  isWritten := by
    refine ⟨isDigits_digitOctets n, ?_, nofun, nofun⟩
    intro hhead
    by_cases hzero : n = 0
    · rw [hzero]
      rfl
    · exact absurd hhead (head?_digitOctets hzero)
  text_eq := by simp [text, fractionText, exponentText]
  value_eq := by
    rw [Numeral.value, significand, Option.getD_none, List.append_nil, natValue_digitOctets]
    simp [lastExponent, writtenExponent]

/-- **A number is written as a numeral that denotes it.** -/
theorem exists_spells_print (number : Number) :
    ∃ numeral : Numeral, numeral.Spells number.print number.shown := by
  cases number with
  | integer value =>
    have hshown : (value : ℚ) =
        if value < 0 then -(value.natAbs : ℚ) else (value.natAbs : ℚ) := by
      split
      · rw [← Int.cast_natCast, ← Int.cast_neg]
        exact congrArg Int.cast (by omega)
      · rw [← Int.cast_natCast]
        exact congrArg Int.cast (by omega)
    have hspells := exists_spells_of_unsigned (decide (value < 0)) (spells_digitOctets value.natAbs)
    simp only [decide_eq_true_iff] at hspells
    rw [Number.print, Number.shown, hshown]
    exact hspells
  | float x =>
    obtain ⟨whole, fraction, written, hspells⟩ := exists_spells_unsignedText x
    exact exists_spells_of_unsigned x.negative hspells

end DumpMask.Json
