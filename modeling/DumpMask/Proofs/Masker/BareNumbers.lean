import DumpMask.Proofs.Json.Numeral
import DumpMask.Proofs.LetterCase
import DumpMask.Proofs.Literal.Text
import DumpMask.Proofs.Masker.FirstFault
import DumpMask.Proofs.Transform.Pseudonym

/-!
# Numbers without quotes

A number stands in a dump without quotes, and its integer pseudonym goes back into the same place. It
stays a bare token because the first digit of a short value never becomes zero: an octet other than a
digit is kept, so `0x` could only arise from a digit in front, and a text that reads as NULL has no
digits at all. Main statement: where a rule asks for integer pseudonyms, a bare token is replaced by a
bare token, and a decimal number by a decimal number.
-/

namespace DumpMask

open Json (IsDigits)
open Pseudonym (KeepsDigit KeepsNumber IsRun HasShape isNonzeroDigit)

/-! ### Decimal numbers -/

def IsSign (text : Bytes) : Prop :=
  text = [] ∨ text = [0x2B] ∨ text = [0x2D]

def IsFraction (text : Bytes) : Prop :=
  text = [] ∨ ∃ digits, IsDigits digits ∧ text = Ascii.dot :: digits

def IsExponent (text : Bytes) : Prop :=
  text = [] ∨ ∃ mark sign digits, (mark = 0x65 ∨ mark = 0x45) ∧ IsSign sign ∧ IsDigits digits ∧
    text = mark :: (sign ++ digits)

/-- A decimal number: digits, perhaps with a sign, a fraction and an exponent. -/
inductive IsDecimal : Bytes → Prop
  | mk {sign whole fraction exponent : Bytes} (hsign : IsSign sign) (hwhole : IsDigits whole)
      (hfraction : IsFraction fraction) (hexponent : IsExponent exponent) :
      IsDecimal (sign ++ (whole ++ (fraction ++ exponent)))

theorem isDecimal_of_isDigits {digits : Bytes} (h : IsDigits digits) : IsDecimal digits := by
  have hdecimal : IsDecimal ([] ++ (digits ++ ([] ++ []))) := .mk (.inl rfl) h (.inl rfl) (.inl rfl)
  simpa using hdecimal

/-! ### Digits in the places of digits -/

namespace Pseudonym

section Keeps

variable {value masked : Bytes}

theorem KeepsDigit.eq_of_not_isDigit {old new : UInt8} (h : KeepsDigit old new)
    (hold : ¬ Ascii.isDigit old) : new = old := by
  cases h with
  | digit hdigit => exact absurd hdigit hold
  | other => rfl

theorem forall₂_keepsDigit_cons {old : UInt8} {rest : Bytes} (hold : ¬ Ascii.isDigit old)
    (h : List.Forall₂ KeepsDigit (old :: rest) masked) :
    ∃ rest', masked = old :: rest' ∧ List.Forall₂ KeepsDigit rest rest' := by
  obtain ⟨new, rest', hnew, hrest, rfl⟩ := List.forall₂_cons_left_iff.mp h
  exact ⟨rest', by rw [hnew.eq_of_not_isDigit hold], hrest⟩

theorem forall₂_keepsDigit_append {left right : Bytes}
    (h : List.Forall₂ KeepsDigit (left ++ right) masked) :
    ∃ left' right', masked = left' ++ right' ∧ List.Forall₂ KeepsDigit left left' ∧
      List.Forall₂ KeepsDigit right right' := by
  refine ⟨masked.take left.length, masked.drop left.length, (List.take_append_drop ..).symm, ?_, ?_⟩
  · exact (List.forall₂_take_append _ _ _ h.flip).flip
  · exact (List.forall₂_drop_append _ _ _ h.flip).flip

/-- A class that has all digits in it has room for the new ones. -/
theorem mem_of_keepsDigit {inClass : UInt8 → Bool} (hdigit : ∀ b, Ascii.isDigit b → inClass b)
    (h : List.Forall₂ KeepsDigit value masked) (hvalue : ∀ b ∈ value, inClass b) :
    ∀ b ∈ masked, inClass b := by
  induction h with
  | nil => exact hvalue
  | cons hfirst hrest ih =>
    obtain ⟨hold, hothers⟩ := List.forall_mem_cons.mp hvalue
    refine List.forall_mem_cons.mpr ⟨?_, ih hothers⟩
    cases hfirst with
    | digit _ hnew => exact hdigit _ hnew
    | other => exact hold

theorem isSign_of_keepsDigit (h : List.Forall₂ KeepsDigit value masked) (hvalue : IsSign value) :
    IsSign masked := by
  obtain rfl | rfl | rfl := hvalue
  · exact .inl (List.forall₂_nil_left_iff.mp h)
  all_goals
    obtain ⟨rest, rfl, hrest⟩ := forall₂_keepsDigit_cons (by decide) h
    cases hrest
  · exact .inr (.inl rfl)
  · exact .inr (.inr rfl)

theorem isDigits_of_keepsDigit (h : List.Forall₂ KeepsDigit value masked)
    (hvalue : IsDigits value) : IsDigits masked := by
  refine ⟨?_, mem_of_keepsDigit (fun _ hdigit => hdigit) h hvalue.all⟩
  rintro rfl
  exact hvalue.ne_nil (List.forall₂_nil_right_iff.mp h)

theorem isFraction_of_keepsDigit (h : List.Forall₂ KeepsDigit value masked)
    (hvalue : IsFraction value) : IsFraction masked := by
  obtain rfl | ⟨digits, hdigits, rfl⟩ := hvalue
  · exact .inl (List.forall₂_nil_left_iff.mp h)
  · obtain ⟨digits', rfl, hkeeps⟩ := forall₂_keepsDigit_cons (by decide) h
    exact .inr ⟨digits', isDigits_of_keepsDigit hkeeps hdigits, rfl⟩

theorem isExponent_of_keepsDigit (h : List.Forall₂ KeepsDigit value masked)
    (hvalue : IsExponent value) : IsExponent masked := by
  obtain rfl | ⟨mark, sign, digits, hmark, hsign, hdigits, rfl⟩ := hvalue
  · exact .inl (List.forall₂_nil_left_iff.mp h)
  · have hletter : ¬ Ascii.isDigit mark := by
      obtain rfl | rfl := hmark <;> decide
    obtain ⟨rest, rfl, hrest⟩ := forall₂_keepsDigit_cons hletter h
    obtain ⟨sign', digits', rfl, hsign', hdigits'⟩ := forall₂_keepsDigit_append hrest
    exact .inr ⟨mark, sign', digits', hmark, isSign_of_keepsDigit hsign' hsign,
      isDigits_of_keepsDigit hdigits' hdigits, rfl⟩

theorem isDecimal_of_keepsDigit (h : List.Forall₂ KeepsDigit value masked)
    (hvalue : IsDecimal value) : IsDecimal masked := by
  obtain ⟨hsign, hwhole, hfraction, hexponent⟩ := hvalue
  obtain ⟨sign, rest, rfl, hsign', hrest⟩ := forall₂_keepsDigit_append h
  obtain ⟨whole, rest, rfl, hwhole', hrest⟩ := forall₂_keepsDigit_append hrest
  obtain ⟨fraction, exponent, rfl, hfraction', hexponent'⟩ := forall₂_keepsDigit_append hrest
  exact .mk (isSign_of_keepsDigit hsign' hsign) (isDigits_of_keepsDigit hwhole' hwhole)
    (isFraction_of_keepsDigit hfraction' hfraction) (isExponent_of_keepsDigit hexponent' hexponent)

/-! ### Bare tokens -/

theorem isBareOctet_of_isDigit (b : UInt8) (h : Ascii.isDigit b) : Literal.isBareOctet b := by
  simp [Literal.isBareOctet, Ascii.isAlphanumeric, h]

theorem not_isDigit_of_nullToken {text : Bytes}
    (h : Bytes.equalsIgnoringCase text Literal.nullToken = true) :
    ∀ b ∈ text, ¬ Ascii.isDigit b := by
  have hletter : ∀ b, Ascii.isLetter b = true → (!Ascii.isDigit b) = true :=
    Bytes.forall_octet (by decide +kernel)
  have hall := Bytes.all_of_equalsIgnoringCase hletter h (by decide)
  simpa using List.all_eq_true.mp hall

/-- A token is bare if its octets are, a zero does not lead it, and it is no spelling of NULL. -/
theorem isBareToken_of_octets (hne : masked ≠ []) (hoctets : ∀ b ∈ masked, Literal.isBareOctet b)
    (hnull : Bytes.equalsIgnoringCase masked Literal.nullToken = false)
    (hzero : masked.head? ≠ some 0x30) : Literal.isBareToken masked := by
  refine Literal.isBareToken_iff.mpr ⟨by simpa using hne, hnull, ?_, List.all_eq_true.mpr hoctets⟩
  apply Bool.eq_false_iff.mpr
  intro hmarker
  obtain ⟨x, rest, -, rfl⟩ := Literal.hasHexMarker_iff.mp hmarker
  exact hzero rfl

theorem KeepsNumber.eq_or_exists_digit (h : KeepsNumber value masked) :
    masked = value ∨ ∃ b ∈ masked, Ascii.isDigit b := by
  induction h with
  | nil => exact .inl rfl
  | other hb _ ih =>
    obtain rfl | ⟨b, hmem, hdigit⟩ := ih
    · exact .inl rfl
    · exact .inr ⟨b, List.mem_cons_of_mem _ hmem, hdigit⟩
  | first _ hnew _ =>
    exact .inr ⟨_, List.mem_cons_self .., isDigit_of_isNonzeroDigit hnew⟩

theorem KeepsNumber.head?_ne_zero (h : KeepsNumber value masked) : masked.head? ≠ some 0x30 := by
  intro hzero
  cases h with
  | nil => cases hzero
  | other hb =>
    cases hzero
    exact hb (by decide)
  | first _ hnew =>
    cases hzero
    cases hnew

theorem KeepsNumber.isBareToken (h : KeepsNumber value masked)
    (hvalue : Literal.isBareToken value) : Literal.isBareToken masked := by
  obtain ⟨hempty, hnull, -, hall⟩ := Literal.isBareToken_iff.mp hvalue
  have hoctets := mem_of_keepsDigit isBareOctet_of_isDigit h.forall₂ (List.all_eq_true.mp hall)
  refine isBareToken_of_octets ?_ hoctets ?_ h.head?_ne_zero
  · rintro rfl
    rw [List.forall₂_nil_right_iff.mp h.forall₂] at hempty
    cases hempty
  · obtain rfl | ⟨b, hmem, hdigit⟩ := h.eq_or_exists_digit
    · exact hnull
    · exact Bool.eq_false_iff.mpr fun hmasked => not_isDigit_of_nullToken hmasked b hmem hdigit

theorem IsRun.isDigits {width : Nat} (h : IsRun isNonzeroDigit width masked) (hwidth : 1 ≤ width) :
    IsDigits masked := by
  refine ⟨?_, fun b hb => isDigit_of_isNonzeroDigit (h.octets b hb)⟩
  rintro rfl
  rw [← h.length] at hwidth
  cases hwidth

theorem IsRun.isBareToken {width : Nat} (h : IsRun isNonzeroDigit width masked)
    (hwidth : 1 ≤ width) : Literal.isBareToken masked := by
  have hdigits := h.isDigits hwidth
  obtain ⟨first, rest, rfl⟩ := List.exists_cons_of_ne_nil hdigits.ne_nil
  refine isBareToken_of_octets hdigits.ne_nil
    (fun b hb => isBareOctet_of_isDigit b (hdigits.all b hb)) ?_ ?_
  · apply Bool.eq_false_iff.mpr
    intro hnull
    have hfirst := List.mem_cons_self (a := first) (l := rest)
    exact not_isDigit_of_nullToken hnull first hfirst (hdigits.all first hfirst)
  · intro hzero
    cases hzero
    cases h.octets _ (List.mem_cons_self ..)

/-- Whether the value is short or long, its integer pseudonym may stand without quotes. -/
theorem HasShape.keeps_number {width limit : Nat} (hwidth : 1 ≤ width)
    (h : HasShape width limit .integer value masked) :
    (Literal.isBareToken value → Literal.isBareToken masked) ∧
      (IsDecimal value → IsDecimal masked) := by
  cases h with
  | digits _ hrun =>
    exact ⟨fun _ => hrun.isBareToken hwidth, fun _ => isDecimal_of_isDigits (hrun.isDigits hwidth)⟩
  | number _ hnumber => exact ⟨hnumber.isBareToken, isDecimal_of_keepsDigit hnumber.forall₂⟩

end Keeps

end Pseudonym

/-! ### Rows -/

theorem Literal.read_of_isBareToken {token : Bytes} (h : isBareToken token) :
    read token = .ok ⟨.bare, token⟩ := by
  rw [read, Bytes.trim_of_isTrimmed (isTrimmed_of_all_isBareOctet (isBareToken_iff.mp h).2.2.2)]
  exact readTrimmed_bare h

namespace Masker

/-- A bare token that becomes a bare token is written as it is. -/
theorem masksTo_of_isBareToken {masker : Masker} {column : ColumnId} {transform : Transform}
    {token new : Bytes} (hresolve : masker.resolve? column = some transform)
    (hquoting : transform.quoting = .asInput) (htoken : Literal.isBareToken token)
    (hnew : Literal.isBareToken new)
    (happly : transform.apply token (masker.threshold.classify token) = .ok new) :
    masker.MasksTo (some column) token new := by
  have hempty : token.isEmpty = false := (Literal.isBareToken_iff.mp htoken).1
  have hkind : Literal.Kind.bare ≠ .null := by decide
  have hmasked : masker.apply column token = .ok ⟨new, .asInput⟩ := by
    rw [apply_of_resolve? hresolve, applyWith, hempty, happly, hquoting]
    rfl
  have hreplaced :=
    MasksTo.replaced (Literal.read_of_isBareToken htoken) hresolve hkind hmasked
  rwa [Literal.Kind.masked, Literal.write, if_pos hnew] at hreplaced

/-- **Numbers stay numbers without quotes.** A rule for integer pseudonyms without a separator has a
transform under which every bare token of its column becomes a bare token, in every row that is masked
and whether short or long, so it is neither NULL nor hexadecimal; no row fails for it. What was a
decimal number is one. -/
theorem intHash_keeps_bare_numbers (setting : FieldRule.Setting) (label : String) (rule : FieldRule)
    (hmode : rule.mode = .intHash) (hseparator : rule.separator = none)
    (hlength : rule.length ≠ some 0) (hlimit : 1 ≤ setting.threshold.length) :
    ∃ transform, FieldRule.build setting label rule = .ok transform ∧
      ∀ (masker : Masker) (columns : List ColumnId) (row : Bytes) (layout : Layout)
        (position : Nat) (column : ColumnId) (token : Bytes),
        Tuple.split row = .ok layout → layout.contents[position]? = some token →
        Literal.isBareToken token → columns[position]? = some column →
        masker.resolve? column = some transform →
        ∃ new, transform.apply token (masker.threshold.classify token) = .ok new ∧
          Literal.isBareToken new ∧ Literal.read new = .ok ⟨.bare, new⟩ ∧
          Bytes.equalsIgnoringCase new Literal.nullToken = false ∧
          Literal.hasHexMarker new = false ∧ (IsDecimal token → IsDecimal new) ∧
          (∀ out, masker.row columns row = .ok out →
            ∃ layout', Tuple.split out = .ok layout' ∧ layout'.contents[position]? = some new) ∧
          ∀ error, masker.row columns row = .error error →
            ∃ other, other ≠ position ∧
              masker.IsFirstFault columns layout.contents other error := by
  have hkind : rule.pseudonymKind? = some .integer := by rw [FieldRule.pseudonymKind?, hmode]
  refine ⟨_, FieldRule.build_whole label hlength hkind hseparator, ?_⟩
  intro masker columns row layout position column token hsplit htext htoken hcolumn hresolve
  let p : Pseudonym := .make setting.secret .integer rule.length setting.threshold
  have hshape := p.hasShape_replace masker.threshold token
  obtain ⟨hbare, hdecimal⟩ := hshape.keeps_number (FieldRule.one_le_width hlimit hlength)
  have hnew := hbare htoken
  obtain ⟨-, hnull, hmarker, -⟩ := Literal.isBareToken_iff.mp hnew
  have hmasks := masksTo_of_isBareToken hresolve rfl htoken hnew rfl
  rw [← hcolumn] at hmasks
  obtain ⟨hout, herror⟩ := contents_of_masksTo hsplit htext hmasks
  exact ⟨_, rfl, hnew, Literal.read_of_isBareToken hnew, hnull, hmarker, hdecimal, hout, herror⟩

/-- A short number with a sign, a fraction and an exponent, before a long one. -/
theorem intHash_keeps_bare_numbers_exponent :
    let setting : FieldRule.Setting := ⟨ascii "key", ⟨8⟩⟩
    let rule : FieldRule := ⟨.intHash, none, none, none, none, none, [], .asInput⟩
    let columns : List ColumnId := [⟨"t", "n"⟩, ⟨"t", "n"⟩]
    let row := ascii "( -1.5e+3 ,-12345.67E89)"
    rule.length ≠ some 0 ∧ Literal.isBareToken (ascii "-1.5e+3") ∧ IsDecimal (ascii "-1.5e+3") ∧
      ∃ transform new out, FieldRule.build setting "n" rule = .ok transform ∧
        ((Masker.empty ⟨8⟩).register ⟨"t", "n"⟩ transform).row columns row = .ok out ∧
        (∃ layout, Tuple.split out = .ok layout ∧ layout.contents[0]? = some new) ∧
        Literal.read new = .ok ⟨.bare, new⟩ ∧ IsDecimal new := by
  intro setting rule columns row
  have hsplit : Tuple.split row = .ok ⟨[⟨ascii "( ", ascii "-1.5e+3"⟩,
      ⟨ascii " ,", ascii "-12345.67E89"⟩], ascii ")"⟩ := eq_ok_of_toOption (by decide +kernel)
  have hlength : rule.length ≠ some 0 := by decide
  have hbare : Literal.isBareToken (ascii "-1.5e+3") := by decide
  have hdigit (b : UInt8) (hb : Ascii.isDigit b) : IsDigits [b] :=
    ⟨List.cons_ne_nil _ _, List.forall_mem_singleton.mpr hb⟩
  have hdecimal : IsDecimal (ascii "-" ++ (ascii "1" ++ (ascii ".5" ++ ascii "e+3"))) :=
    .mk (.inr (.inr rfl)) (hdigit 0x31 rfl) (.inr ⟨_, hdigit 0x35 rfl, rfl⟩)
      (.inr ⟨0x65, ascii "+", _, .inl rfl, .inr (.inl rfl), hdigit 0x33 rfl, rfl⟩)
  have hmasked : ((FieldRule.build setting "n" rule).toOption.bind fun transform =>
      (((Masker.empty ⟨8⟩).register ⟨"t", "n"⟩ transform).row columns row).toOption) =
        some (ascii "( -4.2e+3 ,45614218)") := by decide +kernel
  obtain ⟨transform, hbuild, hrow⟩ :=
    intHash_keeps_bare_numbers setting "n" rule rfl rfl hlength (by decide)
  rw [hbuild] at hmasked
  have hout := eq_ok_of_toOption hmasked
  have hresolve : ((Masker.empty ⟨8⟩).register ⟨"t", "n"⟩ transform).resolve? ⟨"t", "n"⟩ =
      some transform := by rw [resolve?_register, if_pos rfl]
  obtain ⟨new, -, -, hread, -, -, hnew, hlayout, -⟩ :=
    hrow _ columns row _ 0 _ _ hsplit rfl hbare rfl hresolve
  exact ⟨hlength, hbare, hdecimal, transform, new, _, hbuild, hout, hlayout _ hout, hread,
    hnew hdecimal⟩

end Masker

end DumpMask
