import DumpMask.Proofs.Literal.RoundTrip
import DumpMask.Proofs.Tuple.Cells

/-!
# Written literals in tuples

Whatever octets a value holds, the literal written for it is a complete string or a bare text, so in
a tuple it takes up one place and ends where it was written to end.
-/

namespace DumpMask.Tuple

theorem stringBody_escapeOctet (b : UInt8) : StringBody (Literal.escapeOctet b) := by
  unfold Literal.escapeOctet
  repeat' split
  case isFalse.isFalse.isFalse.isFalse.isFalse.isFalse.isFalse hbackslash hquote _ _ =>
    exact .plain hbackslash hquote .nil
  all_goals exact .escaped _ .nil

theorem stringBody_escape (value : Bytes) : StringBody (Literal.escape value) := by
  induction value with
  | nil => exact .nil
  | cons b rest ih => exact (stringBody_escapeOctet b).append ih

theorem isToken_of_all_isBareOctet {token : Bytes} (h : token.all Literal.isBareOctet = true) :
    IsToken token := by
  refine Or.inr ⟨?_, ?_⟩
  · rintro ⟨before, rest, -, rfl⟩
    exact Literal.quote_not_mem_of_all_isBareOctet h (by simp)
  · intro b hb
    have hbare := List.all_eq_true.mp h b hb
    cases hends : endsBareLiteral b with
    | false => rfl
    | true =>
      rcases eq_comma_or_closeParen hends with rfl | rfl <;> cases hbare

theorem isToken_writeQuoted {before : Bytes} (hbefore : IsIntroducer before) (value : Bytes) :
    IsToken (before ++ Literal.writeQuoted value) :=
  Or.inl ⟨before, Literal.escape value, hbefore, stringBody_escape value, rfl⟩

theorem isToken_write (literal : Literal) : IsToken (Literal.write literal) := by
  obtain ⟨kind, value⟩ := literal
  have hquoted : IsToken (Literal.writeQuoted value) := isToken_writeQuoted (Or.inl rfl) value
  cases kind with
  | null =>
    have hall : Literal.nullToken.all Literal.isBareOctet = true := by decide
    exact isToken_of_all_isBareOctet hall
  | quoted => exact hquoted
  | binary =>
    have hblank : Bytes.AllBlank [Ascii.space] := by decide
    have hbefore : IsIntroducer (Literal.binaryIntroducer ++ [Ascii.space]) :=
      Or.inr ⟨[Ascii.space], hblank, rfl⟩
    have htoken := isToken_writeQuoted hbefore value
    rw [List.append_assoc] at htoken
    exact htoken
  | hex =>
    rw [Literal.write]
    split
    · exact hquoted
    · exact isToken_of_all_isBareOctet (Literal.all_isBareOctet_hex value)
  | bare =>
    rw [Literal.write]
    split
    · next hbare => exact isToken_of_all_isBareOctet (Literal.isBareToken_iff.mp hbare).2.2.2
    · exact hquoted

theorem ne_nil_of_read {text : Bytes} {literal : Literal} (h : Literal.read text = .ok literal) :
    text ≠ [] := by
  rintro rfl
  cases h

theorem write_ne_nil (literal : Literal) : Literal.write literal ≠ [] := by
  obtain ⟨kind, value⟩ := literal
  by_cases hkind : kind = .null
  · rw [hkind]
    exact ne_nil_of_read (Literal.read_write_null value)
  · exact ne_nil_of_read (Literal.read_write_of_ne_null hkind value)

/-! ### Written tuples -/

/-- The tuple that is written for literals, with nothing between them but commas. -/
def writeRow (literals : List Literal) : Bytes :=
  Ascii.openParen ::
    ([Ascii.comma].intercalate (literals.map Literal.write) ++ [Ascii.closeParen])

def writtenCell (literal : Literal) : Cell :=
  ⟨[], Literal.write literal, [], Bytes.allBlank_nil,
    ⟨isToken_write literal, Literal.isTrimmed_write literal, Bytes.allBlank_nil, fun _ => rfl⟩⟩

theorem exists_isTuple_writeRow (literals : List Literal) :
    ∃ tuple, IsTuple tuple ∧ tuple.contents = literals.map Literal.write ∧
      tuple.text = writeRow literals := by
  have hliterals : (literals.map writtenCell).map Cell.literal = literals.map Literal.write := by
    rw [List.map_map]
    rfl
  have htexts : (literals.map writtenCell).map Cell.text = literals.map Literal.write := by
    rw [List.map_map]
    apply List.map_congr_left
    intro literal _
    exact List.append_nil (Literal.write literal)
  have hne : (literals.map writtenCell).map Cell.literal ≠ [[]] := by
    rw [hliterals]
    intro hempty
    have hmem : [] ∈ literals.map Literal.write := by
      rw [hempty]
      exact List.mem_cons_self ..
    obtain ⟨literal, -, hliteral⟩ := List.mem_map.mp hmem
    exact write_ne_nil literal hliteral
  obtain ⟨tuple, htuple, hcontents, htext⟩ := exists_isTuple_cells _ hne
  exact ⟨tuple, htuple, hcontents.trans hliterals, htext.trans (congrArg join htexts)⟩

end DumpMask.Tuple
