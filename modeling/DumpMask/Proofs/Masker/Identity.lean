import DumpMask.Proofs.Literal.Readings
import DumpMask.Proofs.Masker.Row

/-!
# Transforms that keep their values

Under transforms that keep every value, each literal of a row is written anew with the value and the
form that it was read with. Main statement: it then reads as before, unless it is one of the bare
texts that are written as strings. Such a literal keeps its value and becomes a string.
-/

namespace DumpMask

structure Transform.IsIdentity (transform : Transform) : Prop where
  quoting : transform.quoting = .asInput
  apply : ∀ value size, transform.apply value size = .ok value

namespace Masker

variable {masker : Masker}

def IsIdentityOn (masker : Masker) (columns : List ColumnId) : Prop :=
  ∀ column ∈ columns, ∀ transform, masker.resolve? column = some transform → transform.IsIdentity

theorem apply_of_isIdentity {column : ColumnId} {transform : Transform}
    (hresolve : masker.resolve? column = some transform) (hidentity : transform.IsIdentity)
    (value : Bytes) : masker.apply column value = .ok ⟨value, .asInput⟩ := by
  rw [apply_of_resolve? hresolve, applyWith]
  split
  · rfl
  · rw [hidentity.apply, hidentity.quoting]

/-- A row is masked if each of its literals can be. -/
theorem exists_literals {position : Nat} {columns : List ColumnId} {olds : List Bytes}
    (h : ∀ (i : Nat) (old : Bytes), olds[i]? = some old →
      ∃ new, masker.MasksTo columns[i]? old new) :
    ∃ news, masker.literals position columns olds = .ok news := by
  induction olds generalizing position columns with
  | nil => exact ⟨[], rfl⟩
  | cons first rest ih =>
    obtain ⟨new, hnew⟩ := h 0 first rfl
    obtain ⟨others, hothers⟩ : ∃ others,
        masker.literals (position + 1) columns.tail rest = .ok others := by
      apply ih
      intro i old hold
      rw [List.getElem?_tail]
      exact h (i + 1) old hold
    rw [← List.head?_eq_getElem?] at hnew
    exact ⟨new :: others,
      literals_cons_eq_ok_iff.mpr ⟨new, others, literal_eq_ok_iff.mpr hnew, hothers, rfl⟩⟩

theorem exists_masksTo_of_isIdentity {column : Option ColumnId} {old : Bytes} {decoded : Literal}
    (hidentity : ∀ id ∈ column, ∀ transform, masker.resolve? id = some transform →
      transform.IsIdentity)
    (hread : Literal.read old = .ok decoded) : ∃ new, masker.MasksTo column old new := by
  by_cases hkept : column.bind masker.resolve? = none ∨ decoded.kind = .null
  · exact ⟨old, .kept hread hkept⟩
  · obtain ⟨hmasked, hkind⟩ := not_or.mp hkept
    obtain ⟨transform, htransform⟩ := Option.ne_none_iff_exists'.mp hmasked
    obtain ⟨id, rfl, hresolve⟩ := Option.bind_eq_some_iff.mp htransform
    exact ⟨_, .replaced hread hresolve hkind
      (apply_of_isIdentity hresolve (hidentity id rfl transform hresolve) decoded.value)⟩

theorem MasksTo.read_of_isIdentity {column : Option ColumnId} {old new : Bytes}
    (h : masker.MasksTo column old new)
    (hidentity : ∀ id ∈ column, ∀ transform, masker.resolve? id = some transform →
      transform.IsIdentity)
    {decoded : Literal} (hread : Literal.read old = .ok decoded) :
    (decoded.IsRequoted ∧ column.bind masker.resolve? ≠ none →
        Literal.read new = .ok ⟨.quoted, decoded.value⟩) ∧
      (Literal.read new = .ok decoded ↔
        ¬ (decoded.IsRequoted ∧ column.bind masker.resolve? ≠ none)) := by
  cases h with
  | @kept _ _ decoded' hread' hkept =>
    obtain rfl : decoded = decoded' := Except.ok.inj (hread.symm.trans hread')
    have hnot : ¬ (decoded.IsRequoted ∧ column.bind masker.resolve? ≠ none) := by
      rintro ⟨hrequoted, hmasked⟩
      rcases hkept with hnone | hnull
      · exact hmasked hnone
      · rw [hrequoted.1] at hnull
        cases hnull
    exact ⟨fun hchanged => absurd hchanged hnot, fun _ => hnot, fun _ => hread⟩
  | @replaced id transform _ decoded' masked hread' hresolve hkind happly =>
    obtain rfl : decoded = decoded' := Except.ok.inj (hread.symm.trans hread')
    rw [apply_of_isIdentity hresolve (hidentity id rfl transform hresolve)] at happly
    cases happly
    have hreadable := Literal.isReadable_of_read hread
    have hmasked : (some id).bind masker.resolve? ≠ none := by
      rw [Option.bind_some, hresolve]
      exact Option.some_ne_none transform
    refine ⟨fun hchanged => hchanged.1.read_write_quoted hreadable, ?_⟩
    rw [and_iff_left hmasked]
    exact hreadable.read_write_eq_iff

/-- **What is lost in writing anew.** A literal that was read is read as before after it is written,
unless it is requoted: then it has become a string with the same value. Under transforms that keep
every value, the same is true of each literal of a row that has a transform, and all other literals
are read as before. -/
theorem identity_requotes_iff {masker : Masker} {columns : List ColumnId}
    (hidentity : masker.IsIdentityOn columns) :
    (∀ text decoded, Literal.read text = .ok decoded →
      (decoded.IsRequoted →
          Literal.read (Literal.write decoded) = .ok ⟨.quoted, decoded.value⟩) ∧
        (Literal.read (Literal.write decoded) = .ok decoded ↔ ¬ decoded.IsRequoted)) ∧
    ∀ row before, Tuple.split row = .ok before →
      (∀ old ∈ before.contents, ∃ decoded, Literal.read old = .ok decoded) →
      ∃ out after, masker.row columns row = .ok out ∧ Tuple.split out = .ok after ∧
        after.fixed = before.fixed ∧ after.contents.length = before.contents.length ∧
        ∀ (i : Nat) (old new : Bytes) (decoded : Literal), before.contents[i]? = some old →
          after.contents[i]? = some new → Literal.read old = .ok decoded →
          (decoded.IsRequoted ∧ columns[i]?.bind masker.resolve? ≠ none →
              Literal.read new = .ok ⟨.quoted, decoded.value⟩) ∧
            (Literal.read new = .ok decoded ↔
              ¬ (decoded.IsRequoted ∧ columns[i]?.bind masker.resolve? ≠ none)) := by
  refine ⟨?_, ?_⟩
  · intro text decoded hread
    have hreadable := Literal.isReadable_of_read hread
    exact ⟨fun hrequoted => hrequoted.read_write_quoted hreadable, hreadable.read_write_eq_iff⟩
  · intro row before hsplit hreads
    have hcolumn : ∀ i : Nat, ∀ id ∈ columns[i]?, ∀ transform, masker.resolve? id = some transform →
        transform.IsIdentity := by
      intro i id hid
      exact hidentity id (List.mem_of_getElem? hid)
    obtain ⟨news, hnews⟩ : ∃ news, masker.literals 0 columns before.contents = .ok news := by
      apply exists_literals
      intro i old hold
      obtain ⟨decoded, hread⟩ := hreads old (List.mem_of_getElem? hold)
      exact exists_masksTo_of_isIdentity (hcolumn i) hread
    have hrow : masker.row columns row = .ok (before.fill news).text := by
      rw [Masker.row, hsplit]
      exact bind_eq_ok_iff.mpr ⟨news, hnews, rfl⟩
    obtain ⟨layout, news', hsplit', hlength, hmasks, htokens, hout⟩ := row_eq_ok hrow
    obtain rfl : before = layout := Except.ok.inj (hsplit.symm.trans hsplit')
    refine ⟨_, before.fill news', hrow, ?_, Layout.fixed_fill _ _ hlength, ?_, ?_⟩
    · rw [hout]
      exact Tuple.split_fill hsplit hlength htokens
    · rw [Layout.contents_fill _ _ hlength, hlength, Layout.length_contents]
    · intro i old new decoded hold hnew hread
      rw [Layout.contents_fill _ _ hlength] at hnew
      exact (hmasks i old new hold hnew).read_of_isIdentity (hcolumn i) hread

/-- A bit literal becomes a string, and the number beside it stays as it is. -/
theorem identity_requotes_bit_literal :
    let masker := (Masker.empty .standard).register ⟨"t", "a"⟩ (.ofFn fun value _ => .ok value)
    let columns : List ColumnId := [⟨"t", "a"⟩, ⟨"t", "a"⟩]
    ∃ out after first second, masker.row columns (ascii "(b'01', 7)") = .ok out ∧
      Tuple.split out = .ok after ∧ after.contents = [first, second] ∧
      Literal.read first = .ok ⟨.quoted, ascii "b'01'"⟩ ∧
      Literal.read second = .ok ⟨.bare, ascii "7"⟩ := by
  intro masker columns
  have hidentity : masker.IsIdentityOn columns := by
    intro column hmem transform hresolve
    obtain rfl : column = ⟨"t", "a"⟩ := by simpa [columns] using hmem
    rw [resolve?_register, if_pos rfl] at hresolve
    cases hresolve
    exact ⟨rfl, fun _ _ => rfl⟩
  have hsplit : Tuple.split (ascii "(b'01', 7)") =
      .ok ⟨[⟨ascii "(", ascii "b'01'"⟩, ⟨ascii ", ", ascii "7"⟩], ascii ")"⟩ :=
    eq_ok_of_toOption (by decide +kernel)
  have hfirst : Literal.read (ascii "b'01'") = .ok ⟨.bare, ascii "b'01'"⟩ :=
    eq_ok_of_toOption (by decide +kernel)
  have hsecond : Literal.read (ascii "7") = .ok ⟨.bare, ascii "7"⟩ :=
    eq_ok_of_toOption (by decide +kernel)
  have hreads : ∀ old ∈ [ascii "b'01'", ascii "7"], ∃ decoded, Literal.read old = .ok decoded := by
    intro old hold
    rcases List.mem_cons.mp hold with rfl | hold
    · exact ⟨_, hfirst⟩
    · rw [List.mem_singleton.mp hold]
      exact ⟨_, hsecond⟩
  obtain ⟨out, after, hout, hafter, -, hlength, hliterals⟩ :=
    (identity_requotes_iff hidentity).2 _ _ hsplit hreads
  obtain ⟨first, second, hcontents⟩ : ∃ first second, after.contents = [first, second] := by
    match after.contents, hlength with
    | [first, second], _ => exact ⟨first, second, rfl⟩
  have hbits : Literal.IsBitLiteral (ascii "b'01'") := ⟨0x62, ascii "01", by decide +kernel⟩
  have hmasked : columns[0]?.bind masker.resolve? ≠ none := Option.some_ne_none _
  have hnumber : ¬ Literal.IsRequoted ⟨.bare, ascii "7"⟩ := by
    rintro ⟨-, ⟨b, bits, -, -, hseven⟩ | hseven | hseven⟩
    · cases List.tail_eq_of_cons_eq hseven
    · cases hseven
    · cases hseven
  refine ⟨out, after, first, second, hout, hafter, hcontents, ?_, ?_⟩
  · exact (hliterals 0 _ first _ rfl (by rw [hcontents]; rfl) hfirst).1
      ⟨⟨rfl, Or.inl hbits⟩, hmasked⟩
  · exact (hliterals 1 _ second _ rfl (by rw [hcontents]; rfl) hsecond).2.mpr
      fun hchanged => hnumber hchanged.1

/-- The bits of a bit literal are read as a bare text, which is written as a string. -/
theorem read_write_bit_literal_ne :
    Literal.read (ascii "b'0101'") = .ok ⟨.bare, ascii "b'0101'"⟩ ∧
      Literal.read (Literal.write ⟨.bare, ascii "b'0101'"⟩) ≠ .ok ⟨.bare, ascii "b'0101'"⟩ := by
  have hwritten : Literal.read (Literal.write ⟨.bare, ascii "b'0101'"⟩) =
      .ok ⟨.quoted, ascii "b'0101'"⟩ := eq_ok_of_toOption (by decide +kernel)
  refine ⟨eq_ok_of_toOption (by decide +kernel), ?_⟩
  rw [hwritten]
  intro heq
  cases heq

end Masker

end DumpMask
