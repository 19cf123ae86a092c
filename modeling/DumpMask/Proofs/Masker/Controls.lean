import DumpMask.Proofs.Masker.Statement
import DumpMask.Proofs.Text.Validity

/-!
# Masking brings in no line breaks

Tools that read a dump line by line rely on what stands between two line breaks. A literal that is
written anew holds no control octet in any form, whatever octets its value holds, so the control
octets of a masked text are some of those of the text, in their order. Main statement: they stand
where they stood before, outside the literals that were masked, and a line of statements stays one.
-/

namespace DumpMask

/-- The octets that a string body holds as escapes only, quotes and backslashes apart: NUL, the line
breaks, and the octet that ends a text on some systems. -/
def Ascii.isControl (b : UInt8) : Bool :=
  b == 0x00 || b == newline || b == carriageReturn || b == substitute

namespace Bytes

/-- The control octets of a text. -/
def controls (bytes : Bytes) : Bytes :=
  bytes.filter Ascii.isControl

theorem controls_append (left right : Bytes) :
    controls (left ++ right) = controls left ++ controls right :=
  List.filter_append ..

theorem controls_eq_nil_iff {bytes : Bytes} :
    controls bytes = [] ↔ ∀ b ∈ bytes, ¬ Ascii.isControl b :=
  List.filter_eq_nil_iff

theorem count_le_of_controls_sublist {bytes other : Bytes}
    (h : (controls bytes).Sublist (controls other)) {b : UInt8} (hb : Ascii.isControl b) :
    bytes.count b ≤ other.count b := by
  have hcount := h.count_le b
  rwa [controls, controls, List.count_filter hb, List.count_filter hb] at hcount

end Bytes

/-! ### Written literals -/

namespace Literal

open Bytes (controls controls_append controls_eq_nil_iff)

theorem controls_escapeOctet : ∀ b, controls (escapeOctet b) = [] :=
  Bytes.forall_octet (by decide +kernel)

theorem controls_escape (value : Bytes) : controls (escape value) = [] := by
  induction value with
  | nil => rfl
  | cons b rest ih =>
    rw [escape, List.flatMap_cons, controls_append, controls_escapeOctet, List.nil_append]
    exact ih

theorem controls_writeQuoted (value : Bytes) : controls (writeQuoted value) = [] := by
  have hquote : controls [Ascii.quote] = [] := by decide
  rw [writeQuoted, ← List.singleton_append, controls_append, controls_append, controls_escape,
    hquote]
  rfl

theorem not_isControl_of_isBareOctet : ∀ b, isBareOctet b → ¬ Ascii.isControl b :=
  Bytes.forall_octet (by decide +kernel)

theorem controls_of_all_isBareOctet {token : Bytes} (h : token.all isBareOctet = true) :
    controls token = [] :=
  controls_eq_nil_iff.mpr fun b hb =>
    not_isControl_of_isBareOctet b (List.all_eq_true.mp h b hb)

/-- A literal is written without control octets, whatever its value holds. -/
theorem controls_write (literal : Literal) : controls (write literal) = [] := by
  obtain ⟨kind, value⟩ := literal
  cases kind with
  | null =>
    have htoken : controls nullToken = [] := by decide
    exact htoken
  | quoted => exact controls_writeQuoted value
  | binary =>
    have hintroducer : controls (binaryIntroducer ++ [Ascii.space]) = [] := by decide
    rw [write, List.append_cons, controls_append, hintroducer]
    exact controls_writeQuoted value
  | hex =>
    rw [write]
    split
    · exact controls_writeQuoted value
    · exact controls_of_all_isBareOctet (all_isBareOctet_hex value)
  | bare =>
    rw [write]
    split
    · next hbare => exact controls_of_all_isBareOctet (isBareToken_iff.mp hbare).2.2.2
    · exact controls_writeQuoted value

end Literal

/-! ### Layouts -/

/-- Where pieces of a text lose control octets at most, so does the whole. -/
theorem Layout.controls_text_sublist {old new : Layout} (hfixed : new.fixed = old.fixed)
    (hcontents : ∀ (i : Nat) (before after : Bytes), old.contents[i]? = some before →
      new.contents[i]? = some after → (after.controls).Sublist before.controls) :
    (new.text.controls).Sublist old.text.controls := by
  obtain ⟨olds, tail⟩ := old
  obtain ⟨news, tail'⟩ := new
  induction olds generalizing news with
  | nil =>
    cases news with
    | nil =>
      cases hfixed
      exact List.Sublist.refl _
    | cons slot rest => cases rest <;> cases hfixed
  | cons slot rest ih =>
    cases news with
    | nil => cases rest <;> cases hfixed
    | cons slot' rest' =>
      obtain ⟨hlead, hrest⟩ := List.cons.inj hfixed
      have hcontent := hcontents 0 slot.content slot'.content rfl rfl
      have hothers := ih rest' hrest fun i => hcontents (i + 1)
      simp only [text, Slot.text, List.flatMap_cons, List.append_assoc, Bytes.controls_append,
        hlead] at hothers ⊢
      exact (List.Sublist.refl _).append (hcontent.append hothers)

/-! ### Rows and statements -/

namespace Masker

variable {masker : Masker} {columns : List ColumnId}

/-- A literal is kept as it is, or is masked and then holds no control octet. -/
theorem MasksTo.kept_or_controls {column : Option ColumnId} {old new : Bytes}
    (h : masker.MasksTo column old new) :
    ∃ decoded, Literal.read old = .ok decoded ∧
      if column.bind masker.resolve? = none ∨ decoded.kind = .null then new = old
      else new.controls = [] := by
  cases h with
  | @kept _ _ decoded hread hkept => exact ⟨decoded, hread, (if_pos hkept).mpr rfl⟩
  | @replaced column transform _ decoded masked hread hresolve hkind happly =>
    refine ⟨decoded, hread, ?_⟩
    rw [if_neg]
    · exact Literal.controls_write _
    · rintro (hnone | hnull)
      · rw [Option.bind_some, hresolve] at hnone
        cases hnone
      · exact hkind hnull

theorem MasksTo.controls_sublist {column : Option ColumnId} {old new : Bytes}
    (h : masker.MasksTo column old new) : (new.controls).Sublist old.controls := by
  obtain ⟨decoded, -, hcases⟩ := h.kept_or_controls
  split at hcases
  · exact hcases ▸ List.Sublist.refl _
  · exact hcases ▸ List.nil_sublist _

theorem controls_sublist_of_row {row out : Bytes} (h : masker.row columns row = .ok out) :
    (out.controls).Sublist row.controls := by
  obtain ⟨layout, news, hsplit, hlength, hmasks, -, rfl⟩ := row_eq_ok h
  rw [← Tuple.text_of_split hsplit]
  refine Layout.controls_text_sublist (Layout.fixed_fill _ _ hlength) ?_
  intro i old new hold hnew
  rw [Layout.contents_fill _ _ hlength] at hnew
  exact (hmasks i old new hold hnew).controls_sublist

theorem controls_sublist_of_statement {line out : Bytes}
    (h : masker.statement columns line = .ok out) : (out.controls).Sublist line.controls := by
  obtain rfl | rfl | ⟨list, rows, -, rfl, hrows, rfl⟩ := statement_cases h
  · exact List.Sublist.refl _
  · exact List.nil_sublist _
  · have htext : list.text = list.head ++ list.rows.text := rfl
    rw [htext, Bytes.controls_append, Bytes.controls_append]
    refine (List.Sublist.refl _).append (Layout.controls_text_sublist hrows.fixed ?_)
    intro i old new hold hnew
    have hrow := congrArg (·[i]?) hrows.contents
    simp only [Masker.rows, List.getElem?_map, hold, hnew, Option.map_some] at hrow
    exact controls_sublist_of_row (Option.some.inj hrow).symm

/-- **Control octets are copied, never made.** A masked row differs from the row inside the masked
literals alone, and these hold no control octet. So its control octets are some of those of the row,
in their order, and so are those of a masked line, which may be dropped as a whole. -/
theorem masking_keeps_lines (masker : Masker) (columns : List ColumnId) :
    (∀ row out, masker.row columns row = .ok out →
      (∃ before after, Tuple.split row = .ok before ∧ Tuple.split out = .ok after ∧
        before.text = row ∧ after.text = out ∧ after.fixed = before.fixed ∧
        ∀ (i : Nat) (old new : Bytes), before.contents[i]? = some old →
          after.contents[i]? = some new →
          ∃ decoded, Literal.read old = .ok decoded ∧
            if columns[i]?.bind masker.resolve? = none ∨ decoded.kind = .null then new = old
            else ∀ b ∈ new, ¬ Ascii.isControl b) ∧
      (out.controls).Sublist row.controls ∧
      ∀ b, Ascii.isControl b → out.count b ≤ row.count b) ∧
    ∀ line out, masker.statement columns line = .ok out →
      (out = line ∨ out = [] ∨ ∃ list rows, Statement.values? line = .ok (some list) ∧
        list.text = line ∧ masker.MasksRows columns list.rows rows ∧
        out = list.head ++ rows.text) ∧
      (out.controls).Sublist line.controls ∧
      ∀ b, Ascii.isControl b → out.count b ≤ line.count b := by
  constructor
  · intro row out h
    have hcontrols := controls_sublist_of_row h
    refine ⟨?_, hcontrols, fun b => Bytes.count_le_of_controls_sublist hcontrols⟩
    obtain ⟨layout, news, hsplit, hlength, hmasks, htokens, rfl⟩ := row_eq_ok h
    refine ⟨layout, layout.fill news, hsplit, Tuple.split_fill hsplit hlength htokens,
      Tuple.text_of_split hsplit, rfl, Layout.fixed_fill _ _ hlength, ?_⟩
    intro i old new hold hnew
    rw [Layout.contents_fill _ _ hlength] at hnew
    have hcases := (hmasks i old new hold hnew).kept_or_controls
    simpa only [Bytes.controls_eq_nil_iff] using hcases
  · intro line out h
    have hcontrols := controls_sublist_of_statement h
    exact ⟨statement_cases h, hcontrols, fun b => Bytes.count_le_of_controls_sublist hcontrols⟩

/-- A line break between two literals stays, the one inside a masked literal is written as an
escape, and the value that is all control octets brings in none. -/
theorem masking_keeps_lines_raw :
    let masker := ((Masker.empty .standard).register ⟨"t", "a"⟩
      (.fixed [0x00, 0x0A, 0x0D, 0x1A] .unquoted)).register ⟨"t", "b"⟩ (.substring 3)
    let row := ascii "(1,\n'x\ny')"
    let out := ascii "('\\0\\n\\r\\Z',\n'x\\ny')"
    masker.row [⟨"t", "a"⟩, ⟨"t", "b"⟩] row = .ok out ∧
      (out.controls).Sublist row.controls ∧
      masker.statement [⟨"t", "a"⟩, ⟨"t", "b"⟩] (ascii "insert t values " ++ row) =
        .ok (ascii "insert t values " ++ out) ∧
      (ascii "insert t values " ++ out).count Ascii.newline ≤
        (ascii "insert t values " ++ row).count Ascii.newline := by
  intro masker row out
  have hrow : masker.row [⟨"t", "a"⟩, ⟨"t", "b"⟩] row = .ok out :=
    eq_ok_of_toOption (by decide +kernel)
  have hline : masker.statement [⟨"t", "a"⟩, ⟨"t", "b"⟩] (ascii "insert t values " ++ row) =
      .ok (ascii "insert t values " ++ out) :=
    eq_ok_of_toOption (by decide +kernel)
  obtain ⟨hrows, hlines⟩ := masking_keeps_lines masker [⟨"t", "a"⟩, ⟨"t", "b"⟩]
  obtain ⟨-, hcontrols, -⟩ := hrows _ _ hrow
  obtain ⟨-, -, hcount⟩ := hlines _ _ hline
  exact ⟨hrow, hcontrols, hline, hcount Ascii.newline (by decide)⟩

end Masker

end DumpMask
