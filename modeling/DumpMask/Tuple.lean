import DumpMask.Layout
import DumpMask.Literal.Codec

/-!
# Tuples

A row of a dump is a tuple `( literal , literal , … )`. Cutting it finds where each literal begins
and ends, without judging the literals: a string ends at its first quote that is neither escaped nor
doubled, and any other literal ends before the next comma or closing parenthesis. The result is a
layout whose slots are the literals, so the blanks, commas and parentheses stay as they are.
-/

namespace DumpMask

/-- Why a row or a list of rows cannot be cut. -/
inductive MalformedRow.Reason where
  | missingOpen
  | missingDelimiter
  | unterminatedTuple
  | unterminatedString
  | trailingBytes
  | missingValues
  | unknownTable
deriving DecidableEq, Repr

def MalformedRow.Reason.message : MalformedRow.Reason → String
  | .missingOpen => "expected '('"
  | .missingDelimiter => "expected ',' or ')'"
  | .unterminatedTuple => "unterminated tuple"
  | .unterminatedString => "unterminated string"
  | .trailingBytes => "trailing bytes after tuple"
  | .missingValues => "missing VALUES list"
  | .unknownTable => "cannot determine table name"

/-- A row that cannot be cut, and the octet at which that shows. -/
structure MalformedRow where
  offset : Nat
  reason : MalformedRow.Reason
deriving DecidableEq, Repr

def MalformedRow.message (fault : MalformedRow) : String :=
  s!"malformed row at byte {fault.offset}: {fault.reason.message}"

namespace Tuple

/-- Where a scan stopped: the reason, and how many octets were left. Counting from the end makes a
stop independent of what stands before the text. -/
structure Stop where
  reason : MalformedRow.Reason
  remaining : Nat
deriving DecidableEq, Repr

/-- The fault that a stop is in a text of `length` octets that begins at `start`. -/
def Stop.fault (stop : Stop) (start length : Nat) : MalformedRow :=
  ⟨start + (length - stop.remaining), stop.reason⟩

/-- Cuts the text behind an opening quote after the quote that closes the string. A backslash
shields the octet after it, and a doubled quote closes nothing. -/
def closeString : Bytes → Option (Bytes × Bytes)
  | [] => none
  | b :: rest =>
    if b = Ascii.backslash then
      match rest with
      | [] => none
      | c :: rest => (closeString rest).map fun (body, after) => (b :: c :: body, after)
    else if b = Ascii.quote then
      match rest with
      | [] => some ([b], [])
      | c :: after =>
        if c = Ascii.quote then
          (closeString after).map fun (body, after) => (b :: c :: body, after)
        else some ([b], c :: after)
    else (closeString rest).map fun (body, after) => (b :: body, after)

/-- The part of a literal before its opening quote, and the text from that quote on. The part is
empty, or the introducer and the blanks after it; other literals have no such part. -/
def stringStart? (text : Bytes) : Option (Bytes × Bytes) :=
  if text.head? = some Ascii.quote then some ([], text)
  else
    match Bytes.stripStart? Literal.binaryIntroducer text with
    | none => none
    | some rest =>
      let string := rest.dropWhile Ascii.isBlank
      if string.head? = some Ascii.quote then
        some (Literal.binaryIntroducer ++ rest.takeWhile Ascii.isBlank, string)
      else none

def endsBareLiteral (b : UInt8) : Bool :=
  b == Ascii.comma || b == Ascii.closeParen

/-- Cuts a text after the literal that it begins with. -/
def scanLiteral (text : Bytes) : Except Stop (Bytes × Bytes) :=
  match stringStart? text with
  | some (before, string) =>
    match closeString string.tail with
    | some (body, after) => .ok (before ++ Ascii.quote :: body, after)
    | none => .error ⟨.unterminatedString, string.length⟩
  | none =>
    .ok (text.takeWhile (!endsBareLiteral ·), text.dropWhile (!endsBareLiteral ·))

/-! ### What a scan leaves over -/

theorem closeString_append {text body after : Bytes} (h : closeString text = some (body, after)) :
    body ++ after = text := by
  fun_induction closeString text generalizing body after <;>
    simp_all only [Option.map_eq_some_iff, Prod.exists, Prod.mk.injEq, Option.some.injEq,
      reduceCtorEq]
  all_goals grind

theorem stringStart?_append {text before string : Bytes}
    (h : stringStart? text = some (before, string)) :
    before ++ string = text ∧ string.head? = some Ascii.quote := by
  unfold stringStart? at h
  split at h
  · simp_all
  · split at h
    · simp at h
    · next rest hrest =>
      have htext := Bytes.stripStart?_eq_some_iff.mp hrest
      grind [List.takeWhile_append_dropWhile]

theorem scanLiteral_append {text literal after : Bytes}
    (h : scanLiteral text = .ok (literal, after)) : literal ++ after = text := by
  unfold scanLiteral at h
  split at h
  · next before string hstart =>
    obtain ⟨htext, hhead⟩ := stringStart?_append hstart
    split at h
    · next body rest hclose =>
      have hbody := closeString_append hclose
      cases string with
      | nil => simp at hhead
      | cons q tail =>
        simp only [List.head?_cons, Option.some.injEq] at hhead
        simp only [List.tail_cons] at hbody
        simp only [Except.ok.injEq, Prod.mk.injEq] at h
        rw [← htext, ← hbody, ← h.1, ← h.2, hhead]
        simp
    · simp at h
  · simp only [Except.ok.injEq, Prod.mk.injEq] at h
    rw [← h.1, ← h.2, List.takeWhile_append_dropWhile]

theorem length_of_scanLiteral {text literal after : Bytes}
    (h : scanLiteral text = .ok (literal, after)) : after.length ≤ text.length := by
  have := congrArg List.length (scanLiteral_append h)
  simp at this
  omega

/-! ### Cutting a tuple -/

/-- Cuts the rest of a tuple, from the place where a literal begins. `lead` is the text since the
literal before it. -/
def scanLiterals (lead : Bytes) (text : Bytes) : Except Stop (Layout × Bytes) :=
  match _hscan : scanLiteral text with
  | .error stop => .error stop
  | .ok (raw, after) =>
    let (literal, blanks) := Bytes.splitTrailing raw
    match hrest : after.dropWhile Ascii.isBlank with
    | [] => .error ⟨.unterminatedTuple, 0⟩
    | b :: rest =>
      if b = Ascii.comma then
        (fun (layout, rest) => (layout.cons ⟨lead, literal⟩, rest)) <$>
          scanLiterals (blanks ++ after.takeWhile Ascii.isBlank ++ b :: rest.takeWhile Ascii.isBlank)
            (rest.dropWhile Ascii.isBlank)
      else if b = Ascii.closeParen then
        .ok (⟨[⟨lead, literal⟩], blanks ++ after.takeWhile Ascii.isBlank ++ [b]⟩, rest)
      else .error ⟨.missingDelimiter, rest.length + 1⟩
termination_by text.length
decreasing_by
  have hafter := length_of_scanLiteral _hscan
  have hdrop := (List.dropWhile_sublist (l := after) Ascii.isBlank).length_le
  have hblanks := (List.dropWhile_sublist (l := rest) Ascii.isBlank).length_le
  rw [hrest] at hdrop
  simp only [List.length_cons] at hdrop
  omega

/-- Cuts a tuple off the front of a text, and gives the rest of the text. -/
def scan : Bytes → Except Stop (Layout × Bytes)
  | [] => .error ⟨.missingOpen, 0⟩
  | b :: rest =>
    if b = Ascii.openParen then
      let blanks := rest.takeWhile Ascii.isBlank
      match rest.dropWhile Ascii.isBlank with
      | [] => scanLiterals (b :: blanks) []
      | c :: after =>
        if c = Ascii.closeParen then .ok (⟨[], b :: blanks ++ [c]⟩, after)
        else scanLiterals (b :: blanks) (c :: after)
    else .error ⟨.missingOpen, rest.length + 1⟩

theorem scanLiterals_append {lead text rest : Bytes} {layout : Layout}
    (h : scanLiterals lead text = .ok (layout, rest)) : layout.text ++ rest = lead ++ text := by
  fun_induction scanLiterals lead text generalizing layout rest with
  | case1 => simp at h
  | case2 => simp at h
  | case5 => simp at h
  | case3 lead text raw after hscan literal blanks hsplit behind hbehind ih =>
    have htext := scanLiteral_append hscan
    have hraw := Bytes.splitTrailing_append raw
    have hafter := List.takeWhile_append_dropWhile (p := Ascii.isBlank) (l := after)
    have hblanks := List.takeWhile_append_dropWhile (p := Ascii.isBlank) (l := behind)
    rw [hsplit] at hraw
    rw [hbehind] at hafter
    generalize after.takeWhile Ascii.isBlank = gap at *
    generalize behind.takeWhile Ascii.isBlank = gap' at *
    generalize hrec : scanLiterals _ _ = result at h ih
    cases result with
    | error stop => simp [Functor.map, Except.map] at h
    | ok result =>
      simp only [Functor.map, Except.map, Except.ok.injEq, Prod.mk.injEq] at h
      obtain ⟨rfl, rfl⟩ := h
      rw [Layout.text_cons, List.append_assoc, ih rfl, ← htext, ← hraw, ← hafter]
      simp [hblanks]
  | case4 lead text raw after hscan literal blanks hsplit behind hbehind =>
    have htext := scanLiteral_append hscan
    have hraw := Bytes.splitTrailing_append raw
    have hafter := List.takeWhile_append_dropWhile (p := Ascii.isBlank) (l := after)
    rw [hsplit] at hraw
    rw [hbehind] at hafter
    generalize after.takeWhile Ascii.isBlank = gap at *
    simp only [Except.ok.injEq, Prod.mk.injEq] at h
    obtain ⟨rfl, rfl⟩ := h
    rw [← htext, ← hraw, ← hafter]
    simp [Layout.text, Layout.Slot.text]

/-- A scan loses nothing. -/
theorem scan_append {text rest : Bytes} {layout : Layout} (h : scan text = .ok (layout, rest)) :
    layout.text ++ rest = text := by
  unfold scan at h
  split at h
  · simp at h
  · next b behind =>
    have hblanks := List.takeWhile_append_dropWhile (p := Ascii.isBlank) (l := behind)
    split at h
    · dsimp only at h
      split at h
      · next hempty =>
        rw [hempty] at hblanks
        rw [scanLiterals_append h]
        simpa using hblanks
      · next c after hdrop =>
        rw [hdrop] at hblanks
        split at h
        · simp only [Except.ok.injEq, Prod.mk.injEq] at h
          obtain ⟨rfl, rfl⟩ := h
          simpa [Layout.text] using hblanks
        · rw [scanLiterals_append h]
          simpa using hblanks
    · simp at h

theorem length_of_scanLiterals {lead text rest : Bytes} {layout : Layout}
    (h : scanLiterals lead text = .ok (layout, rest)) : rest.length < text.length := by
  fun_induction scanLiterals lead text generalizing layout rest with
  | case1 => simp at h
  | case2 => simp at h
  | case5 => simp at h
  | case3 lead text raw after hscan literal blanks hsplit behind hbehind ih =>
    have hafter := length_of_scanLiteral hscan
    have hdrop := (List.dropWhile_sublist (l := after) Ascii.isBlank).length_le
    have hblanks := (List.dropWhile_sublist (l := behind) Ascii.isBlank).length_le
    rw [hbehind] at hdrop
    simp only [List.length_cons] at hdrop
    generalize hrec : scanLiterals _ _ = result at h ih
    cases result with
    | error stop => simp [Functor.map, Except.map] at h
    | ok result =>
      simp only [Functor.map, Except.map, Except.ok.injEq, Prod.mk.injEq] at h
      have := ih rfl
      rw [← h.2]
      omega
  | case4 lead text raw after hscan literal blanks hsplit behind hbehind =>
    have hafter := length_of_scanLiteral hscan
    have hdrop := (List.dropWhile_sublist (l := after) Ascii.isBlank).length_le
    rw [hbehind] at hdrop
    simp only [List.length_cons] at hdrop
    simp only [Except.ok.injEq, Prod.mk.injEq] at h
    rw [← h.2]
    omega

theorem length_of_scan {text rest : Bytes} {layout : Layout} (h : scan text = .ok (layout, rest)) :
    rest.length < text.length := by
  unfold scan at h
  split at h
  · simp at h
  · next b behind =>
    have hdrop := (List.dropWhile_sublist (l := behind) Ascii.isBlank).length_le
    split at h
    · dsimp only at h
      split at h
      · have := length_of_scanLiterals h
        simp at this
      · next c after hafter =>
        rw [hafter] at hdrop
        simp only [List.length_cons] at hdrop ⊢
        split at h
        · simp only [Except.ok.injEq, Prod.mk.injEq] at h
          rw [← h.2]
          omega
        · have := length_of_scanLiterals h
          simp only [List.length_cons] at this
          omega
    · simp at h

/-- Cuts the tuple that begins at octet `start` of a text. Also gives the octet after it. -/
def scanAt (text : Bytes) (start : Nat) : Except MalformedRow (Layout × Nat) :=
  let tuple := text.drop start
  match scan tuple with
  | .ok (layout, rest) => .ok (layout.prepend (text.take start), text.length - rest.length)
  | .error stop => .error (stop.fault start tuple.length)

/-- Cuts a row: one tuple with nothing but blanks around it. -/
def split (row : Bytes) : Except MalformedRow Layout :=
  let blanks := row.takeWhile Ascii.isBlank
  let text := row.dropWhile Ascii.isBlank
  match scan text with
  | .error stop => .error (stop.fault blanks.length text.length)
  | .ok (layout, rest) =>
    if rest.all Ascii.isBlank then .ok ((layout.prepend blanks).append rest)
    else .error ⟨row.length - rest.length, .trailingBytes⟩

end Tuple

end DumpMask
