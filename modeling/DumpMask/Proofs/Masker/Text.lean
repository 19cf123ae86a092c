import DumpMask.Proofs.Literal.Text
import DumpMask.Proofs.Masker.Statement
import DumpMask.Proofs.Transform.Text

/-!
# Maskers keep text

Around the literals of a row, and around the rows of a line, stand ASCII octets, so a line is text
if and only if its pieces are, and each masked piece can be judged by itself. A hexadecimal literal
is the one piece whose value need not be text, and it is written in hexadecimal digits again unless
a transform chooses the form.
-/

namespace DumpMask

open Utf8 (isValid)

/-! ### Layouts -/

/-- An ASCII octet stands at either end. -/
structure Bytes.HasAsciiEnds (part : Bytes) : Prop where
  first : ∃ b rest, b < 0x80 ∧ part = b :: rest
  last : ∃ rest b, b < 0x80 ∧ part = rest ++ [b]

theorem Bytes.IsAscii.hasAsciiEnds {part : Bytes} (h : part.IsAscii) (hne : part ≠ []) :
    part.HasAsciiEnds := by
  constructor
  · obtain ⟨b, rest, rfl⟩ := List.exists_cons_of_ne_nil hne
    exact ⟨b, rest, h b (List.mem_cons_self ..), rfl⟩
  · exact ⟨part.dropLast, part.getLast hne, h _ (List.getLast_mem hne),
      (List.dropLast_concat_getLast hne).symm⟩

section Seams

variable {left part right : Bytes}

theorem Bytes.HasAsciiEnds.isValid_append_left_iff (h : part.HasAsciiEnds) :
    isValid (part ++ right) ↔ isValid part ∧ isValid right := by
  obtain ⟨rest, b, hb, rfl⟩ := h.last
  rw [List.append_assoc, List.singleton_append, Utf8.isValid_append_ascii_cons_iff hb,
    Utf8.isValid_append_ascii_iff (by simpa [Bytes.isAscii_cons_iff, Bytes.isAscii_nil] using hb)]

theorem Bytes.HasAsciiEnds.isValid_append_right_iff (h : part.HasAsciiEnds) :
    isValid (left ++ (part ++ right)) ↔ isValid left ∧ isValid (part ++ right) := by
  obtain ⟨b, rest, hb, rfl⟩ := h.first
  rw [List.cons_append, Utf8.isValid_append_ascii_cons_iff hb, Utf8.isValid_ascii_cons_iff hb]

end Seams

namespace Layout

/-- At either end of every slot an ASCII octet stands, all of them outside or all of them inside. -/
def HasSeams (layout : Layout) : Prop :=
  (∀ part ∈ layout.fixed, part.HasAsciiEnds) ∨ ∀ content ∈ layout.contents, content.HasAsciiEnds

theorem text_mk_cons (slot : Slot) (rest : List Slot) (tail : Bytes) :
    text ⟨slot :: rest, tail⟩ = slot.lead ++ (slot.content ++ text ⟨rest, tail⟩) := by
  simp [text, Slot.text]

theorem exists_first (slots : List Slot) (tail : Bytes) :
    ∃ part more, part ∈ fixed ⟨slots, tail⟩ ∧ text ⟨slots, tail⟩ = part ++ more := by
  cases slots with
  | nil => exact ⟨tail, [], List.mem_singleton_self tail, (List.append_nil tail).symm⟩
  | cons slot rest => exact ⟨slot.lead, _, List.mem_cons_self .., text_mk_cons slot rest tail⟩

theorem isValid_text_iff {layout : Layout} (h : layout.HasSeams) :
    isValid layout.text ↔
      (∀ part ∈ layout.fixed, isValid part) ∧ ∀ content ∈ layout.contents, isValid content := by
  obtain ⟨slots, tail⟩ := layout
  induction slots with
  | nil => simp [text, fixed, contents]
  | cons slot rest ih =>
    have hcut : isValid (slot.lead ++ (slot.content ++ text ⟨rest, tail⟩)) ↔
        isValid slot.lead ∧ isValid slot.content ∧ isValid (text ⟨rest, tail⟩) := by
      obtain hfixed | hcontents := h
      · obtain ⟨hlead, hrest⟩ := List.forall_mem_cons.mp hfixed
        obtain ⟨part, more, hpart, htext⟩ := exists_first rest tail
        rw [hlead.isValid_append_left_iff, htext, (hrest part hpart).isValid_append_right_iff]
      · have hcontent := (List.forall_mem_cons.mp hcontents).1
        rw [hcontent.isValid_append_right_iff, hcontent.isValid_append_left_iff]
    have hrest : HasSeams ⟨rest, tail⟩ :=
      h.imp (fun hfixed => (List.forall_mem_cons.mp hfixed).2)
        fun hcontents => (List.forall_mem_cons.mp hcontents).2
    have hfixed : fixed ⟨slot :: rest, tail⟩ = slot.lead :: fixed ⟨rest, tail⟩ := rfl
    have hcontents : contents ⟨slot :: rest, tail⟩ = slot.content :: contents ⟨rest, tail⟩ := rfl
    rw [text_mk_cons, hcut, ih hrest, hfixed, hcontents, List.forall_mem_cons,
      List.forall_mem_cons]
    constructor
    · rintro ⟨hlead, hcontent, hparts, hothers⟩
      exact ⟨⟨hlead, hparts⟩, hcontent, hothers⟩
    · rintro ⟨⟨hlead, hparts⟩, hcontent, hothers⟩
      exact ⟨hlead, hcontent, hparts, hothers⟩

/-- Where pieces of a text are replaced by pieces of text, the whole stays text. -/
theorem isValid_text_of_fixed_eq {old new : Layout} (hfixed : new.fixed = old.fixed)
    (hold : old.HasSeams) (hnew : new.HasSeams)
    (hcontents : ∀ (i : Nat) (before after : Bytes), old.contents[i]? = some before →
      new.contents[i]? = some after → isValid before → isValid after)
    (h : isValid old.text) : isValid new.text := by
  obtain ⟨hparts, hold⟩ := (isValid_text_iff hold).mp h
  refine (isValid_text_iff hnew).mpr ⟨fun part hpart => hparts part (hfixed ▸ hpart), ?_⟩
  intro after hafter
  obtain ⟨i, hi, rfl⟩ := List.mem_iff_getElem.mp hafter
  have hlength : new.contents.length = old.contents.length := by
    have hlengths := congrArg List.length hfixed
    simpa [fixed] using hlengths
  have hi' : i < old.contents.length := hlength ▸ hi
  exact hcontents i _ _ (List.getElem?_eq_getElem hi') (List.getElem?_eq_getElem hi)
    (hold _ (List.getElem_mem hi'))

theorem fixed_prepend (layout : Layout) (before : Bytes) :
    (layout.prepend before).fixed = layout.fixed.modifyHead (before ++ ·) := by
  obtain ⟨slots, tail⟩ := layout
  cases slots <;> rfl

/-- ASCII octets, at least one of them, stand around the slots. -/
def FixedAscii (layout : Layout) : Prop :=
  ∀ part ∈ layout.fixed, part.IsAscii ∧ part ≠ []

theorem FixedAscii.hasSeams {layout : Layout} (h : layout.FixedAscii) : layout.HasSeams :=
  .inl fun part hpart => (h part hpart).1.hasAsciiEnds (h part hpart).2

theorem FixedAscii.hasAsciiEnds {layout : Layout} (h : layout.FixedAscii) :
    layout.text.HasAsciiEnds := by
  obtain ⟨slots, tail⟩ := layout
  constructor
  · obtain ⟨part, more, hpart, htext⟩ := exists_first slots tail
    obtain ⟨b, rest, hb, rfl⟩ := ((h part hpart).1.hasAsciiEnds (h part hpart).2).first
    exact ⟨b, rest ++ more, hb, htext⟩
  · have htail := h tail (List.mem_append_right _ (List.mem_singleton_self tail))
    obtain ⟨rest, b, hb, rfl⟩ := (htail.1.hasAsciiEnds htail.2).last
    exact ⟨_, b, hb, (List.append_assoc ..).symm⟩

theorem FixedAscii.prepend {layout : Layout} (h : layout.FixedAscii) {before : Bytes}
    (hbefore : before.IsAscii) : (layout.prepend before).FixedAscii := by
  obtain ⟨slots, tail⟩ := layout
  have hpart {part : Bytes} (hpart : part.IsAscii ∧ part ≠ []) :
      (before ++ part).IsAscii ∧ before ++ part ≠ [] :=
    ⟨Bytes.isAscii_append_iff.mpr ⟨hbefore, hpart.1⟩, List.append_ne_nil_of_right_ne_nil _ hpart.2⟩
  cases slots with
  | nil => exact List.forall_mem_singleton.mpr (hpart (h tail (List.mem_singleton_self tail)))
  | cons slot rest =>
    obtain ⟨hlead, hrest⟩ := List.forall_mem_cons.mp h
    exact List.forall_mem_cons.mpr ⟨hpart hlead, hrest⟩

theorem FixedAscii.append {layout : Layout} (h : layout.FixedAscii) {after : Bytes}
    (hafter : after.IsAscii) : (layout.append after).FixedAscii := by
  obtain ⟨hleads, htail⟩ := List.forall_mem_append.mp h
  obtain ⟨htail, hne⟩ := List.forall_mem_singleton.mp htail
  refine List.forall_mem_append.mpr ⟨hleads, List.forall_mem_singleton.mpr ⟨?_, ?_⟩⟩
  · exact Bytes.isAscii_append_iff.mpr ⟨htail, hafter⟩
  · exact List.append_ne_nil_of_left_ne_nil hne _

end Layout

/-! ### Rows -/

namespace Tuple

theorem HasLiterals.fixedAscii {lead : Bytes} {layout : Layout} (h : HasLiterals lead layout)
    (hlead : lead.IsAscii) (hne : lead ≠ []) : layout.FixedAscii := by
  induction h with
  | @last lead literal gap hcell =>
    have htail : Bytes.IsAscii (gap ++ [Ascii.closeParen]) :=
      Bytes.isAscii_append_iff.mpr ⟨Bytes.AllBlank.isAscii hcell.blank, by decide⟩
    exact List.forall_mem_cons.mpr
      ⟨⟨hlead, hne⟩, List.forall_mem_singleton.mpr ⟨htail, by simp⟩⟩
  | @more lead literal gap gap' layout hcell hblank hrest ih =>
    have hnext : Bytes.IsAscii (gap ++ Ascii.comma :: gap') :=
      Bytes.isAscii_append_iff.mpr ⟨Bytes.AllBlank.isAscii hcell.blank,
        Bytes.isAscii_cons_iff.mpr ⟨by decide, hblank.isAscii⟩⟩
    exact List.forall_mem_cons.mpr ⟨⟨hlead, hne⟩, ih hnext (by simp)⟩

theorem IsTuple.fixedAscii {tuple : Layout} (h : IsTuple tuple) : tuple.FixedAscii := by
  have hopen {gap : Bytes} (hgap : gap.AllBlank) : Bytes.IsAscii (Ascii.openParen :: gap) :=
    Bytes.isAscii_cons_iff.mpr ⟨by decide, hgap.isAscii⟩
  cases h with
  | empty hgap =>
    have hclose : Bytes.IsAscii [Ascii.closeParen] := by decide
    have htail := Bytes.isAscii_append_iff.mpr ⟨hopen hgap, hclose⟩
    exact List.forall_mem_singleton.mpr ⟨htail, List.cons_ne_nil _ _⟩
  | literals hgap hlits => exact hlits.fixedAscii (hopen hgap) (List.cons_ne_nil _ _)

theorem fixedAscii_of_split {row : Bytes} {layout : Layout} (h : split row = .ok layout) :
    layout.FixedAscii := by
  obtain ⟨blanks, tuple, rest, hblanks, htuple, hrest, rfl, -⟩ := split_eq_ok_iff.mp h
  exact (htuple.fixedAscii.prepend hblanks.isAscii).append hrest.isAscii

end Tuple

namespace Masker

variable {masker : Masker} {columns : List ColumnId}

/-- Every transform of the masker keeps text. -/
def KeepsText (masker : Masker) : Prop :=
  ∀ column transform, masker.resolve? column = some transform → transform.KeepsText

theorem isValid_of_apply {column : ColumnId} {transform : Transform}
    (hresolve : masker.resolve? column = some transform) (htransform : transform.KeepsText)
    {value : Bytes} {masked : Masked} (h : masker.apply column value = .ok masked)
    (hvalue : masked.quoting = .asInput → isValid value) : isValid masked.value := by
  rw [apply_of_resolve? hresolve, applyWith] at h
  split at h
  · cases h
    exact hvalue rfl
  · split at h
    · next happly =>
      cases h
      by_cases hquoting : transform.quoting = .asInput
      · exact htransform.text (hvalue hquoting) happly
      · exact htransform.form hquoting happly
    · cases h

theorem isValid_of_masksTo (hmasker : masker.KeepsText) {column : Option ColumnId}
    {old new : Bytes} (h : masker.MasksTo column old new) (hold : isValid old) : isValid new := by
  cases h with
  | kept => exact hold
  | replaced hread hresolve hkind happly =>
    apply Literal.isValid_write
    intro hwritten
    apply isValid_of_apply hresolve (hmasker _ _ hresolve) happly
    intro hquoting
    apply Literal.isValid_of_read hread hold
    rintro hhex
    rw [hquoting] at hwritten
    exact hwritten hhex

theorem isValid_of_row (hmasker : masker.KeepsText) {row out : Bytes}
    (h : masker.row columns row = .ok out) (hrow : isValid row) : isValid out := by
  obtain ⟨layout, news, hsplit, hlength, hmasks, -, rfl⟩ := row_eq_ok h
  have hfixed := Layout.fixed_fill layout news hlength
  have hlayout := Tuple.fixedAscii_of_split hsplit
  have hfilled : (layout.fill news).FixedAscii := by
    rw [Layout.FixedAscii, hfixed]
    exact hlayout
  rw [← Tuple.text_of_split hsplit] at hrow
  refine Layout.isValid_text_of_fixed_eq hfixed hlayout.hasSeams hfilled.hasSeams ?_ hrow
  intro i old new hold hnew hvalid
  rw [Layout.contents_fill _ _ hlength] at hnew
  exact isValid_of_masksTo hmasker (hmasks i old new hold hnew) hvalid

/-! ### Statements -/

theorem isValid_of_masksRows (hmasker : masker.KeepsText) {lead head : Bytes} {rows rows' : Layout}
    (hrows : Statement.HasRows lead rows) (h : masker.MasksRows columns rows rows')
    (hvalid : isValid (head ++ rows.text)) : isValid (head ++ rows'.text) := by
  have hrow : ∀ (i : Nat) (old new : Bytes), rows.contents[i]? = some old →
      rows'.contents[i]? = some new → masker.row columns old = .ok new := by
    intro i old new hold hnew
    have hresult := congrArg (·[i]?) h.contents
    simp only [Masker.rows, List.getElem?_map, hold, hnew, Option.map_some] at hresult
    exact (Option.some.inj hresult).symm
  have hold : (rows.prepend head).HasSeams := by
    refine .inr fun content hcontent => ?_
    rw [Layout.contents_prepend] at hcontent
    obtain ⟨tuple, htuple, rfl⟩ := hrows.exists_tuple hcontent
    exact htuple.fixedAscii.hasAsciiEnds
  have hnew : (rows'.prepend head).HasSeams := by
    refine .inr fun content hcontent => ?_
    rw [Layout.contents_prepend] at hcontent
    have hmasked : Except.ok content ∈ masker.rows columns rows.contents := by
      rw [← h.contents]
      exact List.mem_map_of_mem hcontent
    obtain ⟨old, hold, hresult⟩ := List.mem_map.mp hmasked
    obtain ⟨tuple, htuple, rfl⟩ := hrows.exists_tuple hold
    obtain ⟨tuple', htuple', rfl⟩ := isTuple_of_row htuple hresult
    exact htuple'.fixedAscii.hasAsciiEnds
  have hfixed : (rows'.prepend head).fixed = (rows.prepend head).fixed := by
    rw [Layout.fixed_prepend, Layout.fixed_prepend, h.fixed]
  rw [← Layout.text_prepend] at hvalid ⊢
  refine Layout.isValid_text_of_fixed_eq hfixed hold hnew ?_ hvalid
  intro i before after hbefore hafter
  rw [Layout.contents_prepend] at hbefore hafter
  exact isValid_of_row hmasker (hrow i before after hbefore hafter)

theorem isValid_of_statement (hmasker : masker.KeepsText) {line out : Bytes}
    (h : masker.statement columns line = .ok out) (hline : isValid line) : isValid out := by
  obtain rfl | rfl | ⟨list, rows, hlist, rfl, hmasks, rfl⟩ := statement_cases h
  · exact hline
  · exact Utf8.isValid_nil
  · obtain ⟨-, -, lead, -, hrows⟩ := Statement.values?_eq_ok_some_iff.mp hlist
    exact isValid_of_masksRows hmasker hrows hmasks hline

theorem isValid_of_statementWithSchema (hmasker : masker.KeepsText) {schema : Schema}
    {line out : Bytes} (h : masker.statementWithSchema schema line = .ok out)
    (hline : isValid line) : isValid out := by
  obtain ⟨target, -, h⟩ := bind_eq_ok_iff.mp h
  split at h
  · cases h
    exact hline
  · split at h
    · cases h
      exact Utf8.isValid_nil
    · split at h
      · exact isValid_of_statement hmasker h hline
      · split at h
        · cases h
        · cases h
          exact hline

theorem isValid_of_statementNamed (hmasker : masker.KeepsText) {names : List String}
    {line out : Bytes} (h : masker.statementNamed names line = .ok out)
    (hline : isValid line) : isValid out := by
  obtain ⟨target, -, h⟩ := bind_eq_ok_iff.mp h
  split at h
  · cases h
    exact hline
  · exact isValid_of_statement hmasker h hline

end Masker

end DumpMask
