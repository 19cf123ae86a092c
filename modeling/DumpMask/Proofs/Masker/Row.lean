import DumpMask.Masker.Row
import DumpMask.Proofs.Results
import DumpMask.Proofs.Tuple.Written

/-!
# What masking makes of a row

`Masker.MasksTo` says what becomes of one literal: it is kept, or written anew with the value that
the transform of its column gives. Main statement: a masked row has as many literals as the row, the
same text around them, and in each place the literal that reads as this value, whatever octets the
transforms give.
-/

namespace DumpMask

theorem Literal.Kind.masked_eq_null_iff {kind : Literal.Kind} (hkind : kind ≠ .null)
    (quoting : Quoting) : kind.masked quoting = .null ↔ quoting = .null := by
  cases quoting with
  | asInput => simp [Literal.Kind.masked, hkind]
  | quoted => by_cases hbinary : kind = .binary <;> simp [Literal.Kind.masked, hbinary]
  | unquoted => simp [Literal.Kind.masked]
  | null => simp [Literal.Kind.masked]

namespace Masker

/-- What a literal of a column becomes. -/
inductive MasksTo (masker : Masker) : Option ColumnId → Bytes → Bytes → Prop
  | kept {column : Option ColumnId} {text : Bytes} {decoded : Literal}
      (hread : Literal.read text = .ok decoded)
      (hkept : column.bind masker.resolve? = none ∨ decoded.kind = .null) :
      MasksTo masker column text text
  | replaced {column : ColumnId} {transform : Transform} {text : Bytes} {decoded : Literal}
      {masked : Masked} (hread : Literal.read text = .ok decoded)
      (hresolve : masker.resolve? column = some transform) (hkind : decoded.kind ≠ .null)
      (happly : masker.apply column decoded.value = .ok masked) :
      MasksTo masker (some column) text
        (Literal.write ⟨decoded.kind.masked masked.quoting, masked.value⟩)

variable {masker : Masker}

theorem transformFor?_eq_none_iff {column : Option ColumnId} {literal : Literal} :
    masker.transformFor? column literal = none ↔
      column.bind masker.resolve? = none ∨ literal.kind = .null := by
  cases column with
  | none => simp [transformFor?]
  | some column => cases hresolve : masker.resolve? column <;> simp [transformFor?, hresolve]

theorem transformFor?_eq_some_iff {column : Option ColumnId} {literal : Literal} {id : ColumnId}
    {transform : Transform} :
    masker.transformFor? column literal = some (id, transform) ↔
      column = some id ∧ masker.resolve? id = some transform ∧ literal.kind ≠ .null := by
  cases column with
  | none => simp [transformFor?]
  | some column =>
    simp only [transformFor?, Option.bind_eq_bind, Option.bind_some, Option.bind_eq_some_iff,
      Option.ite_none_left_eq_some]
    constructor
    · rintro ⟨found, hresolve, hkind, heq⟩
      cases heq
      exact ⟨rfl, hresolve, hkind⟩
    · rintro ⟨heq, hresolve, hkind⟩
      cases heq
      exact ⟨transform, hresolve, hkind, rfl⟩

theorem apply_of_resolve? {column : ColumnId} {transform : Transform}
    (h : masker.resolve? column = some transform) (value : Bytes) :
    masker.apply column value = masker.applyWith column transform value := by
  rw [apply, h]

theorem literal_eq_ok_iff {position : Nat} {column : Option ColumnId} {old new : Bytes} :
    masker.literal position column old = .ok new ↔ masker.MasksTo column old new := by
  constructor
  · intro h
    unfold literal at h
    split at h
    · cases h
    · next decoded hread =>
      split at h
      · next hnone =>
        cases h
        exact .kept hread (transformFor?_eq_none_iff.mp hnone)
      · next id transform hsome =>
        obtain ⟨rfl, hresolve, hkind⟩ := transformFor?_eq_some_iff.mp hsome
        split at h
        · cases h
        · next masked happly =>
          cases h
          exact .replaced hread hresolve hkind ((apply_of_resolve? hresolve _).trans happly)
  · intro h
    cases h with
    | kept hread hkept => rw [literal, hread]; simp only [transformFor?_eq_none_iff.mpr hkept]
    | replaced hread hresolve hkind happly =>
      rw [apply_of_resolve? hresolve] at happly
      rw [literal, hread]
      simp only [transformFor?_eq_some_iff.mpr ⟨rfl, hresolve, hkind⟩, happly]

theorem MasksTo.unique {column : Option ColumnId} {old new new' : Bytes}
    (h : masker.MasksTo column old new) (h' : masker.MasksTo column old new') : new = new' := by
  have hnew : masker.literal 0 column old = .ok new := literal_eq_ok_iff.mpr h
  have hnew' : masker.literal 0 column old = .ok new' := literal_eq_ok_iff.mpr h'
  exact Except.ok.inj (hnew.symm.trans hnew')

theorem MasksTo.isToken {column : Option ColumnId} {old new : Bytes}
    (h : masker.MasksTo column old new) (hold : Tuple.IsToken old ∧ Bytes.IsTrimmed old) :
    Tuple.IsToken new ∧ Bytes.IsTrimmed new ∧ new ≠ [] := by
  cases h with
  | kept hread hkept => exact ⟨hold.1, hold.2, Tuple.ne_nil_of_read hread⟩
  | replaced hread hresolve hkind happly =>
    exact ⟨Tuple.isToken_write _, Literal.isTrimmed_write _, Tuple.write_ne_nil _⟩

theorem literals_cons_eq_ok_iff {position : Nat} {columns : List ColumnId} {old : Bytes}
    {rest news : List Bytes} :
    masker.literals position columns (old :: rest) = .ok news ↔
      ∃ new others, masker.literal position columns.head? old = .ok new ∧
        masker.literals (position + 1) columns.tail rest = .ok others ∧ news = new :: others := by
  simp only [literals, bind_eq_ok_iff, pure, Except.pure, Except.ok.injEq]
  constructor
  · rintro ⟨new, hnew, others, hothers, rfl⟩
    exact ⟨new, others, hnew, hothers, rfl⟩
  · rintro ⟨new, others, hnew, hothers, rfl⟩
    exact ⟨new, hnew, others, hothers, rfl⟩

theorem masksTo_of_literals {position : Nat} {columns : List ColumnId} {olds news : List Bytes}
    (h : masker.literals position columns olds = .ok news) :
    news.length = olds.length ∧
      ∀ (i : Nat) (old new : Bytes), olds[i]? = some old → news[i]? = some new →
        masker.MasksTo columns[i]? old new := by
  induction olds generalizing position columns news with
  | nil =>
    cases h
    refine ⟨rfl, ?_⟩
    intro i old new hold
    cases hold
  | cons first rest ih =>
    obtain ⟨new, others, hfirst, hothers, rfl⟩ := literals_cons_eq_ok_iff.mp h
    obtain ⟨hlength, hmasks⟩ := ih hothers
    refine ⟨congrArg Nat.succ hlength, ?_⟩
    intro i old new' hold hnew
    cases i with
    | zero =>
      cases hold
      cases hnew
      rw [← List.head?_eq_getElem?]
      exact literal_eq_ok_iff.mp hfirst
    | succ i =>
      rw [← List.getElem?_tail]
      exact hmasks i old new' hold hnew

/-- A masked row is the row with other complete literals in the same places. -/
theorem row_eq_ok {columns : List ColumnId} {row out : Bytes}
    (h : masker.row columns row = .ok out) :
    ∃ layout news, Tuple.split row = .ok layout ∧ news.length = layout.slots.length ∧
      (∀ (i : Nat) (old new : Bytes), layout.contents[i]? = some old → news[i]? = some new →
        masker.MasksTo columns[i]? old new) ∧
      (∀ new ∈ news, Tuple.IsToken new ∧ Bytes.IsTrimmed new ∧ new ≠ []) ∧
      out = (layout.fill news).text := by
  unfold Masker.row at h
  split at h
  · cases h
  · next layout hsplit =>
    obtain ⟨news, hnews, htext⟩ := bind_eq_ok_iff.mp h
    cases htext
    obtain ⟨hlength, hmasks⟩ := masksTo_of_literals hnews
    rw [Layout.length_contents] at hlength
    refine ⟨layout, news, hsplit, hlength, hmasks, ?_, rfl⟩
    intro new hmem
    obtain ⟨i, hi, hnew⟩ := List.mem_iff_getElem.mp hmem
    have hbound : i < layout.contents.length := by
      rw [Layout.length_contents, ← hlength]
      exact hi
    have holds := Tuple.isToken_of_split hsplit _ (List.getElem_mem hbound)
    have hmask := hmasks i _ new (List.getElem?_eq_getElem hbound)
      (hnew ▸ List.getElem?_eq_getElem hi)
    exact hmask.isToken holds

/-- Masked by itself, a tuple becomes a tuple. -/
theorem isTuple_of_row {columns : List ColumnId} {tuple : Layout} {out : Bytes}
    (htuple : Tuple.IsTuple tuple) (h : masker.row columns tuple.text = .ok out) :
    ∃ tuple', Tuple.IsTuple tuple' ∧ out = tuple'.text := by
  obtain ⟨layout, news, hsplit, hlength, -, htokens, rfl⟩ := row_eq_ok h
  obtain rfl : tuple = layout := Except.ok.inj ((Tuple.split_of_isTuple htuple).symm.trans hsplit)
  exact ⟨tuple.fill news, htuple.fill hlength htokens, rfl⟩

theorem literal_ne_malformed {position : Nat} {column : Option ColumnId} {old : Bytes}
    (fault : MalformedRow) : masker.literal position column old ≠ .error (.malformed fault) := by
  intro h
  unfold literal at h
  split at h
  · cases h
  · split at h
    · cases h
    · split at h
      · cases h
      · cases h

theorem literals_ne_malformed {position : Nat} {columns : List ColumnId} {olds : List Bytes}
    (fault : MalformedRow) : masker.literals position columns olds ≠ .error (.malformed fault) := by
  induction olds generalizing position columns with
  | nil =>
    intro h
    cases h
  | cons old rest ih =>
    intro h
    rw [literals] at h
    rcases bind_eq_error_iff.mp h with hliteral | ⟨new, -, h⟩
    · exact literal_ne_malformed fault hliteral
    · rcases bind_eq_error_iff.mp h with hrest | ⟨others, -, h⟩
      · exact ih hrest
      · cases h

theorem row_ne_malformed {columns : List ColumnId} {tuple : Layout} (htuple : Tuple.IsTuple tuple)
    (fault : MalformedRow) : masker.row columns tuple.text ≠ .error (.malformed fault) := by
  intro h
  rw [Masker.row, Tuple.split_of_isTuple htuple] at h
  rcases bind_eq_error_iff.mp h with hnews | ⟨news, -, h⟩
  · exact literals_ne_malformed fault hnews
  · cases h

/-- **Masking keeps the places of the literals.** A masked row is cut in the same places as the row.
The literals that are not masked are the same, and every other one reads as the masked value. -/
theorem split_row {columns : List ColumnId} {row out : Bytes}
    (h : masker.row columns row = .ok out) :
    ∃ before after, Tuple.split row = .ok before ∧ Tuple.split out = .ok after ∧
      before.text = row ∧ after.text = out ∧ after.fixed = before.fixed ∧
      after.contents.length = before.contents.length ∧
      ∀ (i : Nat) (old new : Bytes), before.contents[i]? = some old →
        after.contents[i]? = some new →
        ∃ decoded, Literal.read old = .ok decoded ∧
          (columns[i]?.bind masker.resolve? = none ∨ decoded.kind = .null → new = old) ∧
          ∀ column transform, columns[i]? = some column →
            masker.resolve? column = some transform → decoded.kind ≠ .null →
            ∃ masked, masker.apply column decoded.value = .ok masked ∧
              Literal.read new = .ok
                (if masked.quoting = .null then ⟨.null, []⟩
                else ⟨Literal.writtenKind (decoded.kind.masked masked.quoting) masked.value,
                  masked.value⟩) := by
  obtain ⟨layout, news, hsplit, hlength, hmasks, htokens, rfl⟩ := row_eq_ok h
  refine ⟨layout, layout.fill news, hsplit, Tuple.split_fill hsplit hlength htokens,
    Tuple.text_of_split hsplit, rfl, Layout.fixed_fill _ _ hlength, ?_, ?_⟩
  · rw [Layout.contents_fill _ _ hlength, hlength, Layout.length_contents]
  · intro i old new hold hnew
    rw [Layout.contents_fill _ _ hlength] at hnew
    have hmask := hmasks i old new hold hnew
    generalize columns[i]? = place at hmask ⊢
    cases hmask with
    | @kept _ _ decoded hread hkept =>
      refine ⟨decoded, hread, fun _ => rfl, ?_⟩
      rintro column transform rfl hresolve hkind
      rcases hkept with hnone | hnull
      · rw [Option.bind_some, hresolve] at hnone
        cases hnone
      · exact absurd hnull hkind
    | @replaced column transform _ decoded masked hread hresolve hkind happly =>
      refine ⟨decoded, hread, ?_, ?_⟩
      · rintro (hnone | hnull)
        · rw [Option.bind_some, hresolve] at hnone
          cases hnone
        · exact absurd hnull hkind
      · intro column' transform' heq _ _
        cases heq
        refine ⟨masked, happly, ?_⟩
        split
        · next hquoting =>
          rw [hquoting]
          exact Literal.read_write_null masked.value
        · next hquoting =>
          exact Literal.read_write_of_ne_null
            (mt (Literal.Kind.masked_eq_null_iff hkind _).mp hquoting) masked.value

/-- A value that is all delimiters, and an empty value in the place of a hexadecimal literal. -/
theorem split_row_delimiters :
    let masker := ((Masker.empty .standard).register ⟨"t", "a"⟩
      (.fixed (ascii "x',(\\") .asInput)).register ⟨"t", "b"⟩ (.fixed [] .asInput)
    let row := ascii "( 'y' , 0x01,NULL )"
    let out := ascii "( 'x\\',(\\\\' , '',NULL )"
    masker.row [⟨"t", "a"⟩, ⟨"t", "b"⟩] row = .ok out ∧
      ∃ before after, Tuple.split row = .ok before ∧ Tuple.split out = .ok after ∧
        after.fixed = before.fixed ∧ after.contents.length = before.contents.length := by
  intro masker row out
  have hrow : masker.row [⟨"t", "a"⟩, ⟨"t", "b"⟩] row = .ok out :=
    eq_ok_of_toOption (by decide +kernel)
  obtain ⟨before, after, hbefore, hafter, -, -, hfixed, hlength, -⟩ := split_row hrow
  exact ⟨hrow, before, after, hbefore, hafter, hfixed, hlength⟩

end Masker

end DumpMask
