import DumpMask.Json.Printer
import DumpMask.Proofs.Text.Validity

/-!
# Written documents are text

Whatever a document holds, it is written as well-formed text: strings come from characters, and all
else is ASCII.
-/

namespace DumpMask.Json

open Utf8 (isValid)

theorem isAscii_digitOctets (n : Nat) : (digitOctets n).IsAscii := by
  intro b hb
  obtain ⟨c, hc, rfl⟩ := List.mem_map.mp hb
  rw [Nat.toString_eq_repr, Nat.repr, String.toList_ofList] at hc
  have hdigit := Nat.isDigit_of_mem_toDigits (by decide) (by decide) hc
  simp only [Char.isDigit, Bool.and_eq_true, decide_eq_true_eq, UInt32.le_iff_toNat_le] at hdigit
  have hrange : 0x30 ≤ c.val.toNat ∧ c.val.toNat ≤ 0x39 := hdigit
  simp only [UInt8.lt_iff_toNat_lt, Char.toUInt8, UInt32.toNat_toUInt8, UInt8.reduceToNat]
  omega

theorem isAscii_significantDigits (decimal : Decimal) : (significantDigits decimal).1.IsAscii := by
  apply (isAscii_digitOctets decimal.digits).of_subset
  intro b hb
  have hdigits := List.mem_reverse.mp hb
  exact List.mem_reverse.mp ((List.dropWhile_sublist _).subset hdigits)

theorem isAscii_zeros (count : Nat) : Bytes.IsAscii (List.replicate count 0x30) := by
  intro b hb
  rw [List.eq_of_mem_replicate hb]
  decide

theorem isAscii_positional {digits : Bytes} (h : digits.IsAscii) (exponent : Int) :
    (positional digits exponent).IsAscii := by
  rw [positional]
  split
  · simp only [Bytes.isAscii_cons_iff, Bytes.isAscii_append_iff]
    exact ⟨by decide, by decide, isAscii_zeros _, h⟩
  · dsimp only
    generalize exponent.toNat + 1 = count
    have hpadded := Bytes.isAscii_append_iff.mpr ⟨h, isAscii_zeros (count - digits.length)⟩
    rw [Bytes.isAscii_append_iff, pointAndFraction, Bytes.isAscii_cons_iff]
    refine ⟨hpadded.of_subset (List.take_subset ..), by decide, ?_⟩
    split
    · decide
    · exact hpadded.of_subset (List.drop_subset ..)

theorem isAscii_scientific {digits : Bytes} (h : digits.IsAscii) (exponent : Int) :
    (scientific digits exponent).IsAscii := by
  have hfraction : Bytes.IsAscii (digits.drop 1) := h.of_subset (List.drop_subset ..)
  rw [scientific]
  simp only [Bytes.isAscii_append_iff, Bytes.isAscii_cons_iff]
  refine ⟨⟨h.of_subset (List.take_subset ..), ?_⟩, by decide, ?_, isAscii_digitOctets _⟩
  · split
    · decide
    · exact Bytes.isAscii_cons_iff.mpr ⟨by decide, hfraction⟩
  · split <;> decide

theorem isAscii_printFloat (x : Binary64) : (Number.printFloat x).IsAscii := by
  have hdigits := isAscii_significantDigits (Decimal.shortest x)
  rw [Number.printFloat]
  generalize significantDigits (Decimal.shortest x) = written at hdigits
  obtain ⟨digits, exponent⟩ := written
  dsimp only
  have htext : Bytes.IsAscii (if x.isZero then ascii "0.0"
      else if minPositional ≤ exponent ∧ exponent < minScientific then positional digits exponent
      else scientific digits exponent) := by
    split
    · decide
    · split
      · exact isAscii_positional hdigits exponent
      · exact isAscii_scientific hdigits exponent
  split
  · exact Bytes.isAscii_cons_iff.mpr ⟨by decide, htext⟩
  · exact htext

theorem isAscii_print (number : Number) : number.print.IsAscii := by
  cases number with
  | integer value =>
    rw [Number.print]
    split
    · exact Bytes.isAscii_cons_iff.mpr ⟨by decide, isAscii_digitOctets _⟩
    · exact isAscii_digitOctets _
  | float x => exact isAscii_printFloat x

theorem printOctet_cases :
    ∀ b, (b < 0x80 ∧ (printOctet b).IsAscii) ∨ printOctet b = [b] :=
  Bytes.forall_octet (by decide +kernel)

theorem isValid_printString (text : String) : isValid (printString text) := by
  have hbody := (Utf8.edits_flatMap printOctet_cases (Utf8.encode text)).isValid
    (Utf8.isValid_encode text)
  rw [printString, Utf8.isValid_ascii_cons_iff (by decide),
    Utf8.isValid_append_ascii_iff (by decide)]
  exact hbody

mutual

theorem isValid_print : (node : Json) → isValid node.print
  | .null | .bool true | .bool false => by
    rw [print]
    decide
  | .number value => Utf8.isValid_of_isAscii (isAscii_print value)
  | .string value => isValid_printString value
  | .array items => by
    rw [print, Utf8.isValid_ascii_cons_iff (by decide), Utf8.isValid_append_ascii_iff (by decide)]
    exact isValid_printItems items
  | .object members => by
    rw [print, Utf8.isValid_ascii_cons_iff (by decide), Utf8.isValid_append_ascii_iff (by decide)]
    exact isValid_printMembers members

theorem isValid_printItems : (items : List Json) → isValid (printItems items)
  | [] => rfl
  | [item] => isValid_print item
  | item :: next :: rest => by
    rw [printItems, Utf8.isValid_append_ascii_cons_iff (by decide)]
    · exact ⟨isValid_print item, isValid_printItems (next :: rest)⟩
    · exact nofun

theorem isValid_printMembers : (members : List (String × Json)) → isValid (printMembers members)
  | [] => rfl
  | [(name, value)] => by
    rw [printMembers, Utf8.isValid_append_ascii_cons_iff (by decide)]
    exact ⟨isValid_printString name, isValid_print value⟩
  | (name, value) :: next :: rest => by
    rw [printMembers, Utf8.isValid_append_ascii_cons_iff (by decide),
      Utf8.isValid_append_ascii_cons_iff (by decide)]
    · exact ⟨⟨isValid_printString name, isValid_print value⟩, isValid_printMembers (next :: rest)⟩
    · exact nofun

end

end DumpMask.Json
