import DumpMask.Proofs.Masker.Identity

/-!
# Rows as a dump writes them

Reading a literal that was written may change its kind: an empty hexadecimal value comes back as a
string, and so does a bare value that is no bare token. Its text is the same when it is written
again, whichever kind was read. Main statement: a row of written literals is kept octet for octet by
transforms that keep their values, whatever the values are and whichever columns have a transform.
-/

namespace DumpMask

theorem Literal.exists_read_write (literal : Literal) :
    ∃ decoded, read (write literal) = .ok decoded ∧ write decoded = write literal := by
  obtain ⟨kind, value⟩ := literal
  by_cases hkind : kind = .null
  · subst hkind
    exact ⟨⟨.null, []⟩, read_write_null value, rfl⟩
  · exact ⟨⟨writtenKind kind value, value⟩, read_write_of_ne_null hkind value,
      write_writtenKind kind value⟩

theorem Layout.fill_contents (layout : Layout) : layout.fill layout.contents = layout :=
  (eq_fill_of_fixed_eq rfl).symm

namespace Masker

variable {masker : Masker} {columns : List ColumnId}

/-- A written literal is masked to itself. -/
theorem masksTo_write_self {column : Option ColumnId}
    (hidentity : ∀ id ∈ column, ∀ transform, masker.resolve? id = some transform →
      transform.IsIdentity)
    (literal : Literal) :
    masker.MasksTo column (Literal.write literal) (Literal.write literal) := by
  obtain ⟨decoded, hread, hwrite⟩ := literal.exists_read_write
  by_cases hkept : column.bind masker.resolve? = none ∨ decoded.kind = .null
  · exact .kept hread hkept
  · obtain ⟨hmasked, hkind⟩ := not_or.mp hkept
    obtain ⟨transform, htransform⟩ := Option.ne_none_iff_exists'.mp hmasked
    obtain ⟨id, rfl, hresolve⟩ := Option.bind_eq_some_iff.mp htransform
    have happly := apply_of_isIdentity hresolve (hidentity id rfl transform hresolve) decoded.value
    have hreplaced := MasksTo.replaced hread hresolve hkind happly
    have hkept : (⟨decoded.kind.masked .asInput, decoded.value⟩ : Literal) = decoded := rfl
    rw [hkept, hwrite] at hreplaced
    exact hreplaced

/-- Literals that are masked to themselves are kept as a list. -/
theorem literals_self {position : Nat} {texts : List Bytes}
    (h : ∀ (i : Nat) (text : Bytes), texts[i]? = some text → masker.MasksTo columns[i]? text text) :
    masker.literals position columns texts = .ok texts := by
  induction texts generalizing position columns with
  | nil => rfl
  | cons first rest ih =>
    have hfirst := h 0 first rfl
    rw [← List.head?_eq_getElem?] at hfirst
    have hrest : masker.literals (position + 1) columns.tail rest = .ok rest := by
      apply ih
      intro i text htext
      rw [List.getElem?_tail]
      exact h (i + 1) text htext
    exact literals_cons_eq_ok_iff.mpr ⟨first, rest, literal_eq_ok_iff.mpr hfirst, hrest, rfl⟩

/-- **Written rows are kept.** A tuple of written literals, with any subset of its columns under
transforms that keep every value and the other columns without a transform, is masked to itself. -/
theorem row_writeRow_of_identity (hidentity : masker.IsIdentityOn columns)
    (literals : List Literal) :
    masker.row columns (Tuple.writeRow literals) = .ok (Tuple.writeRow literals) := by
  obtain ⟨tuple, htuple, hcontents, htext⟩ := Tuple.exists_isTuple_writeRow literals
  have hliterals : masker.literals 0 columns tuple.contents = .ok tuple.contents := by
    apply literals_self
    intro i text hi
    have hmem : text ∈ literals.map Literal.write := by
      rw [← hcontents]
      exact List.mem_of_getElem? hi
    obtain ⟨literal, -, rfl⟩ := List.mem_map.mp hmem
    apply masksTo_write_self
    intro id hid
    exact hidentity id (List.mem_of_getElem? hid)
  rw [← htext, row, Tuple.split_of_isTuple htuple]
  dsimp only
  rw [hliterals]
  exact congrArg (fun layout => Except.ok (layout : Layout).text) tuple.fill_contents

/-- NULL, an empty hexadecimal value, a bare value that has to be quoted, and a column without a
transform. -/
theorem row_writeRow_of_identity_mixed :
    let masker := ((Masker.empty ⟨2⟩).register ⟨"t", "a"⟩ (.ofFn fun value _ => .ok value)).register
      ⟨"t", "b"⟩ (.ofFn fun value _ => .ok value)
    let columns : List ColumnId := [⟨"t", "a"⟩, ⟨"t", "b"⟩, ⟨"t", "c"⟩, ⟨"t", "a"⟩]
    let literals : List Literal :=
      [⟨.null, ascii "x"⟩, ⟨.hex, []⟩, ⟨.binary, [0xFF, 0x27]⟩, ⟨.bare, ascii "a,b')"⟩]
    masker.IsIdentityOn columns ∧ masker.resolve? ⟨"t", "c"⟩ = none ∧
      Tuple.writeRow literals =
        ascii "(NULL,'',_binary '" ++ (0xFF : UInt8) :: ascii "\\'','a,b\\')')" ∧
      masker.row columns (Tuple.writeRow literals) = .ok (Tuple.writeRow literals) := by
  intro masker columns literals
  have hidentity : masker.IsIdentityOn columns := by
    intro column _ transform hresolve
    rw [resolve?_register, resolve?_register] at hresolve
    split at hresolve
    · cases hresolve
      exact ⟨rfl, fun _ _ => rfl⟩
    · split at hresolve
      · cases hresolve
        exact ⟨rfl, fun _ _ => rfl⟩
      · cases hresolve
  exact ⟨hidentity, rfl, by decide, row_writeRow_of_identity hidentity literals⟩

end Masker

end DumpMask
