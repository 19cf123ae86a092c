import DumpMask.Proofs.Transform.Text

/-!
# What the lines of a value give away

A line that holds a marker and a colon is rewritten from the first place where they stand, up to its
carriage return, and all other lines are copied. Main statement: the result is put together of the
lines in their order, and two values whose lines differ only behind the same first marker have the
same result. The payload may hold the marker, colons and carriage returns of its own.
-/

namespace DumpMask

namespace Bytes

/-! ### The first place of a text -/

/-- `needle` stands in the text behind `before`, and nowhere further in front. -/
structure IsFirstPlace (needle text before after : Bytes) : Prop where
  text_eq : text = before ++ (needle ++ after)
  first : ∀ before' after', text = before' ++ (needle ++ after') →
    before.length ≤ before'.length

variable {needle : Bytes}

theorem IsFirstPlace.unique {text before before' after after' : Bytes}
    (h : IsFirstPlace needle text before after) (h' : IsFirstPlace needle text before' after') :
    before = before' ∧ after = after' := by
  have hlength : before.length = before'.length :=
    Nat.le_antisymm (h.first _ _ h'.text_eq) (h'.first _ _ h.text_eq)
  obtain ⟨hbefore, hafter⟩ := List.append_inj (h.text_eq.symm.trans h'.text_eq) hlength
  exact ⟨hbefore, List.append_cancel_left hafter⟩

/-- The place is the same in a text that goes on. -/
theorem IsFirstPlace.of_append {text more before after after' : Bytes}
    (h : IsFirstPlace needle (text ++ more) before after')
    (htext : text = before ++ (needle ++ after)) : IsFirstPlace needle text before after := by
  refine ⟨htext, ?_⟩
  intro before' behind htext'
  apply h.first before' (behind ++ more)
  rw [htext']
  simp only [List.append_assoc]

theorem isFirstPlace_nil {text after : Bytes} (htext : text = needle ++ after) :
    IsFirstPlace needle text [] after :=
  ⟨htext, fun _ _ _ => Nat.zero_le _⟩

/-- If `needle` is not in front, its first place is that of the rest. -/
theorem isFirstPlace_cons_iff {b : UInt8} {rest before after : Bytes}
    (hfront : ∀ after, b :: rest ≠ needle ++ after) :
    IsFirstPlace needle (b :: rest) before after ↔
      ∃ before', before = b :: before' ∧ IsFirstPlace needle rest before' after := by
  constructor
  · rintro ⟨htext, hfirst⟩
    cases before with
    | nil => exact absurd htext (hfront after)
    | cons c before =>
      obtain ⟨rfl, hrest⟩ := List.cons.inj htext
      refine ⟨before, rfl, hrest, ?_⟩
      intro before' after' hrest'
      exact Nat.le_of_succ_le_succ (hfirst (b :: before') after' (congrArg (b :: ·) hrest'))
  · rintro ⟨before, rfl, hrest, hfirst⟩
    refine ⟨congrArg (b :: ·) hrest, ?_⟩
    intro before' after' htext'
    cases before' with
    | nil => exact absurd htext' (hfront after')
    | cons c before' =>
      obtain ⟨rfl, hrest'⟩ := List.cons.inj htext'
      exact Nat.succ_le_succ (hfirst before' after' hrest')

theorem cutAt?_eq_some_iff {text before after : Bytes} :
    cutAt? needle text = some (before, after) ↔ IsFirstPlace needle text before after := by
  induction text generalizing before with
  | nil =>
    constructor
    · intro h
      obtain ⟨rfl, hnil⟩ := List.append_eq_nil_iff.mp (cutAt?_append h).symm
      exact isFirstPlace_nil hnil.symm
    · intro h
      obtain ⟨rfl, hnil⟩ := List.append_eq_nil_iff.mp h.text_eq.symm
      obtain ⟨rfl, rfl⟩ := List.append_eq_nil_iff.mp hnil
      rfl
  | cons b rest ih =>
    rw [cutAt?]
    split
    · next after' hstrip =>
      have hplace := isFirstPlace_nil (stripStart?_eq_some_iff.mp hstrip)
      constructor
      · intro h
        cases h
        exact hplace
      · intro h
        obtain ⟨rfl, rfl⟩ := hplace.unique h
        rfl
    · next hstrip =>
      have hfront : ∀ after, b :: rest ≠ needle ++ after := by
        intro after htext
        rw [stripStart?_eq_some_iff.mpr htext] at hstrip
        cases hstrip
      rw [isFirstPlace_cons_iff hfront, Option.map_eq_some_iff]
      constructor
      · rintro ⟨⟨before', after'⟩, hrest, heq⟩
        cases heq
        exact ⟨before', rfl, ih.mp hrest⟩
      · rintro ⟨before', rfl, hrest⟩
        exact ⟨⟨before', after⟩, ih.mpr hrest, rfl⟩

theorem cutAt?_eq_none_iff {text : Bytes} : cutAt? needle text = none ↔ ¬ needle <:+: text := by
  induction text with
  | nil => cases needle <;> simp [cutAt?]
  | cons b rest ih =>
    rw [cutAt?, List.infix_cons_iff, not_or]
    split
    · next after hstrip =>
      have hstarts : needle <+: b :: rest := ⟨after, (stripStart?_eq_some_iff.mp hstrip).symm⟩
      simp [hstarts]
    · next hstrip =>
      have hstarts : ¬ needle <+: b :: rest := by
        rintro ⟨after, htext⟩
        rw [stripStart?_eq_some_iff.mpr htext.symm] at hstrip
        cases hstrip
      rw [Option.map_eq_none_iff, ih, and_iff_right hstarts]

end Bytes

namespace Transform

/-! ### One line -/

/-- What stands in front of a payload. -/
def label (marker : Bytes) : Bytes :=
  marker ++ [Ascii.colon]

def EndsInReturn (line : Bytes) : Prop :=
  line.getLast? = some Ascii.carriageReturn

instance (line : Bytes) : Decidable (EndsInReturn line) :=
  inferInstanceAs (Decidable (_ = _))

/-- The carriage return behind `body` at the end of a line, if there is one. -/
inductive IsEnding (body : Bytes) : Bytes → Prop
  | carriageReturn : IsEnding body [Ascii.carriageReturn]
  | none (hbody : ¬ EndsInReturn body) : IsEnding body []

/-- What becomes of a line. -/
inductive MasksLine (marker replacement : Bytes) : Bytes → Bytes → Prop
  | copied {body ending : Bytes} (hending : IsEnding body ending) (hfree : ¬ label marker <:+: body) :
      MasksLine marker replacement (body ++ ending) (body ++ ending)
  | rewritten {body ending before payload : Bytes} (hending : IsEnding body ending)
      (hplace : Bytes.IsFirstPlace (label marker) body before payload) :
      MasksLine marker replacement (body ++ ending)
        (before ++ (marker ++ [Ascii.colon, Ascii.space] ++ replacement ++ ending))

/-- Lines that are the same, or the same up to their payloads. -/
inductive SameOutsidePayload (marker : Bytes) : Bytes → Bytes → Prop
  | same (line : Bytes) : SameOutsidePayload marker line line
  | payload {line line' before payload payload' : Bytes}
      (hplace : Bytes.IsFirstPlace (label marker) line before payload)
      (hplace' : Bytes.IsFirstPlace (label marker) line' before payload')
      (hends : EndsInReturn line ↔ EndsInReturn line') : SameOutsidePayload marker line line'

section Line

variable {marker replacement : Bytes}

theorem splitReturn_of_isEnding {body ending : Bytes} (h : IsEnding body ending) :
    splitReturn (body ++ ending) = (body, decide (ending = [Ascii.carriageReturn])) := by
  cases h with
  | carriageReturn => simp [splitReturn]
  | none hbody =>
    rw [List.append_nil, splitReturn]
    exact if_neg hbody

theorem exists_isEnding (line : Bytes) : ∃ body ending, line = body ++ ending ∧
    IsEnding body ending ∧ (EndsInReturn line ↔ ending = [Ascii.carriageReturn]) := by
  by_cases hends : EndsInReturn line
  · obtain ⟨body, rfl⟩ := List.getLast?_eq_some_iff.mp hends
    exact ⟨body, _, rfl, .carriageReturn, by simp [hends]⟩
  · exact ⟨line, [], (List.append_nil line).symm, .none hends, by simp [hends]⟩

theorem masksLine_iff {line masked : Bytes} :
    MasksLine marker replacement line masked ↔ maskLine marker replacement line = masked := by
  have hlabel : label marker = marker ++ [Ascii.colon] := rfl
  constructor
  · rintro (⟨hending, hfree⟩ | ⟨hending, hplace⟩)
    · rw [maskLine, splitReturn_of_isEnding hending]
      dsimp only
      rw [← hlabel, Bytes.cutAt?_eq_none_iff.mpr hfree]
    · rw [maskLine, splitReturn_of_isEnding hending]
      dsimp only
      rw [← hlabel, Bytes.cutAt?_eq_some_iff.mpr hplace]
      cases hending <;> simp
  · rintro rfl
    obtain ⟨body, ending, rfl, hending, -⟩ := exists_isEnding line
    rw [maskLine, splitReturn_of_isEnding hending]
    dsimp only
    split
    · next before payload hcut =>
      have hmasks : MasksLine marker replacement _ _ :=
        .rewritten hending (Bytes.cutAt?_eq_some_iff.mp hcut)
      cases hending <;> simpa using hmasks
    · next hcut => exact .copied hending (Bytes.cutAt?_eq_none_iff.mp hcut)

/-- The carriage return at the end of a line belongs to the payload. -/
theorem exists_isFirstPlace_body {body ending before payload : Bytes}
    (hending : IsEnding body ending)
    (hplace : Bytes.IsFirstPlace (label marker) (body ++ ending) before payload) :
    ∃ payload, Bytes.IsFirstPlace (label marker) body before payload := by
  cases hending with
  | none =>
    rw [List.append_nil] at hplace
    exact ⟨payload, hplace⟩
  | carriageReturn =>
    have htext := hplace.text_eq
    rcases List.eq_nil_or_concat payload with rfl | ⟨payload', last, rfl⟩
    · -- the label ends in a colon
      have hlast : Ascii.carriageReturn = Ascii.colon := by
        simpa [label] using congrArg List.getLast? htext
      cases hlast
    · have htext' : body ++ [Ascii.carriageReturn] =
          (before ++ (label marker ++ payload')) ++ [last] := by
        rw [htext]
        simp
      obtain ⟨hbody, -⟩ := List.append_inj' htext' rfl
      exact ⟨payload', hplace.of_append hbody⟩

theorem maskLine_eq_of_isFirstPlace {body ending before payload : Bytes}
    (hending : IsEnding body ending)
    (hplace : Bytes.IsFirstPlace (label marker) (body ++ ending) before payload) :
    maskLine marker replacement (body ++ ending) =
      before ++ (marker ++ [Ascii.colon, Ascii.space] ++ replacement ++ ending) := by
  obtain ⟨payload', hbody⟩ := exists_isFirstPlace_body hending hplace
  exact masksLine_iff.mp (.rewritten hending hbody)

theorem SameOutsidePayload.maskLine_eq {line line' : Bytes}
    (h : SameOutsidePayload marker line line') :
    maskLine marker replacement line = maskLine marker replacement line' := by
  cases h with
  | same => rfl
  | payload hplace hplace' hends =>
    obtain ⟨body, ending, rfl, hending, hreturn⟩ := exists_isEnding line
    obtain ⟨body', ending', rfl, hending', hreturn'⟩ := exists_isEnding line'
    have hsame : ending = ending' := by
      rw [hreturn, hreturn'] at hends
      cases hending <;> cases hending' <;> simp_all
    rw [maskLine_eq_of_isFirstPlace hending hplace, maskLine_eq_of_isFirstPlace hending' hplace',
      hsame]

theorem map_maskLine_eq {lines lines' : List Bytes}
    (h : List.Forall₂ (SameOutsidePayload marker) lines lines') :
    lines.map (maskLine marker replacement) = lines'.map (maskLine marker replacement) := by
  induction h with
  | nil => rfl
  | cons hline _ ih => rw [List.map_cons, List.map_cons, hline.maskLine_eq, ih]

end Line

/-! ### All lines -/

/-- **Payloads are hidden.** The lines of a value are masked one by one and stay in their order, and
what stands behind the first marker of a line has no influence on the result. -/
theorem lineField_hides_payload (marker replacement : Bytes) :
    (∀ value length, ∃ masked,
      List.Forall₂ (MasksLine marker replacement) (value.splitOn Ascii.newline) masked ∧
        (lineField marker replacement).apply value length =
          .ok ([Ascii.newline].intercalate masked)) ∧
      ∀ value value' length length',
        List.Forall₂ (SameOutsidePayload marker) (value.splitOn Ascii.newline)
          (value'.splitOn Ascii.newline) →
        (lineField marker replacement).apply value length =
          (lineField marker replacement).apply value' length' := by
  constructor
  · intro value length
    refine ⟨(value.splitOn Ascii.newline).map (maskLine marker replacement), ?_, rfl⟩
    rw [List.forall₂_map_right_iff, List.forall₂_same]
    intro line _
    exact masksLine_iff.mpr rfl
  · intro value value' length length' hlines
    have hmasked : (value.splitOn Ascii.newline).map (maskLine marker replacement) = _ :=
      map_maskLine_eq hlines
    exact congrArg (fun masked => Except.ok ([Ascii.newline].intercalate masked)) hmasked

/-- One payload holds the marker again, the other a carriage return. -/
theorem lineField_hides_payload_token :
    let value := ascii "a\n\ttoken:secret:token:1\r\nb"
    let value' := ascii "a\n\ttoken:\rx\r\nb"
    List.Forall₂ (SameOutsidePayload (ascii "token")) (value.splitOn Ascii.newline)
        (value'.splitOn Ascii.newline) ∧
      (lineField (ascii "token") (ascii "x")).apply value .long =
        (lineField (ascii "token") (ascii "x")).apply value' .short := by
  intro value value'
  have hsplit : value.splitOn Ascii.newline =
      [ascii "a", ascii "\ttoken:secret:token:1\r", ascii "b"] := by decide +kernel
  have hsplit' : value'.splitOn Ascii.newline = [ascii "a", ascii "\ttoken:\rx\r", ascii "b"] := by
    decide +kernel
  have hplace : Bytes.IsFirstPlace (label (ascii "token")) (ascii "\ttoken:secret:token:1\r")
      (ascii "\t") (ascii "secret:token:1\r") := Bytes.cutAt?_eq_some_iff.mp (by decide +kernel)
  have hplace' : Bytes.IsFirstPlace (label (ascii "token")) (ascii "\ttoken:\rx\r")
      (ascii "\t") (ascii "\rx\r") := Bytes.cutAt?_eq_some_iff.mp (by decide +kernel)
  have hlines : List.Forall₂ (SameOutsidePayload (ascii "token")) (value.splitOn Ascii.newline)
      (value'.splitOn Ascii.newline) := by
    rw [hsplit, hsplit']
    exact .cons (.same _) (.cons (.payload hplace hplace' (by decide)) (.cons (.same _) .nil))
  exact ⟨hlines, (lineField_hides_payload (ascii "token") (ascii "x")).2 value value' .long .short
    hlines⟩

end Transform

end DumpMask
