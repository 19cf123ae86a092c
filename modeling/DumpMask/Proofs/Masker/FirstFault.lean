import DumpMask.Proofs.Masker.Row

/-!
# Which fault fails a row

`Masker.FaultAt` says what can be wrong with one literal: it cannot be read, or the transform of its
column fails on its value. Main statement: a row that is cut into literals fails exactly when one of
them has a fault, and then with the fault of the first such literal, so the literals after it have no
say in the error.
-/

namespace DumpMask.Masker

/-- What is wrong with the literal at a position. A literal that cannot be read is a fault in any
place; a transform is only asked for a value that is neither NULL nor empty. -/
inductive FaultAt (masker : Masker) (position : Nat) (column : Option ColumnId) (text : Bytes) :
    RowError → Prop
  | unreadable {fault : Literal.Fault} (hread : Literal.read text = .error fault) :
      FaultAt masker position column text
        (.malformedLiteral position (columnLabel position column) fault)
  | refused {id : ColumnId} {transform : Transform} {decoded : Literal} {reason : TransformError}
      (hcolumn : column = some id) (hresolve : masker.resolve? id = some transform)
      (hread : Literal.read text = .ok decoded) (hkind : decoded.kind ≠ .null)
      (hvalue : decoded.value ≠ [])
      (hfails : transform.apply decoded.value (masker.threshold.classify decoded.value) =
        .error reason) :
      FaultAt masker position column text (.transform position ⟨id, decoded.value.length, reason⟩)

/-- The fault at a position, before which no literal has one. -/
structure IsFirstFault (masker : Masker) (columns : List ColumnId) (texts : List Bytes)
    (position : Nat) (error : RowError) : Prop where
  fault : ∃ text, texts[position]? = some text ∧
    masker.FaultAt position columns[position]? text error
  earlier : ∀ before < position, ∀ text, texts[before]? = some text →
    ∀ other, ¬ masker.FaultAt before columns[before]? text other

variable {masker : Masker} {position : Nat} {columns : List ColumnId} {error : RowError}

theorem FaultAt.position?_eq {column : Option ColumnId} {text : Bytes}
    (h : masker.FaultAt position column text error) : error.position? = some position := by
  cases h <;> rfl

theorem applyWith_eq_error_iff {column : ColumnId} {transform : Transform} {value : Bytes}
    {failure : TransformFailure} :
    masker.applyWith column transform value = .error failure ↔
      value ≠ [] ∧ ∃ reason, transform.apply value (masker.threshold.classify value) =
        .error reason ∧ failure = ⟨column, value.length, reason⟩ := by
  rw [applyWith]
  split
  · next hempty => simp [List.isEmpty_iff.mp hempty]
  · next hempty =>
    have hvalue : value ≠ [] := mt List.isEmpty_iff.mpr hempty
    split
    · next masked happly => simp [happly]
    · next reason happly => simp [hvalue, happly, eq_comm]

theorem literal_eq_error_iff {column : Option ColumnId} {text : Bytes} :
    masker.literal position column text = .error error ↔
      masker.FaultAt position column text error := by
  constructor
  · intro h
    unfold literal at h
    split at h
    · next fault hread =>
      cases h
      exact .unreadable hread
    · next decoded hread =>
      split at h
      · cases h
      · next id transform hsome =>
        obtain ⟨hcolumn, hresolve, hkind⟩ := transformFor?_eq_some_iff.mp hsome
        split at h
        · next failure happly =>
          obtain ⟨hvalue, reason, hfails, rfl⟩ := applyWith_eq_error_iff.mp happly
          cases h
          exact .refused hcolumn hresolve hread hkind hvalue hfails
        · cases h
  · intro h
    cases h with
    | unreadable hread => rw [literal, hread]
    | @refused id transform decoded reason hcolumn hresolve hread hkind hvalue hfails =>
      have happly : masker.applyWith id transform decoded.value =
          .error ⟨id, decoded.value.length, reason⟩ :=
        applyWith_eq_error_iff.mpr ⟨hvalue, reason, hfails, rfl⟩
      rw [literal, hread]
      simp only [transformFor?_eq_some_iff.mpr ⟨hcolumn, hresolve, hkind⟩, happly]

theorem exists_literal_iff {column : Option ColumnId} {text : Bytes} :
    (∃ new, masker.literal position column text = .ok new) ↔
      ∀ error, ¬ masker.FaultAt position column text error := by
  simp only [← literal_eq_error_iff]
  cases masker.literal position column text <;> simp

theorem literals_cons_eq_error_iff {text : Bytes} {rest : List Bytes} :
    masker.literals position columns (text :: rest) = .error error ↔
      masker.FaultAt position columns.head? text error ∨
        (∀ other, ¬ masker.FaultAt position columns.head? text other) ∧
          masker.literals (position + 1) columns.tail rest = .error error := by
  rw [← exists_literal_iff, literals, bind_eq_error_iff, literal_eq_error_iff]
  refine or_congr_right ?_
  rw [← exists_and_right]
  refine exists_congr fun new => and_congr_right fun _ => ?_
  rw [bind_eq_error_iff]
  simp [pure, Except.pure]

/-- The columns and the numbers of the positions are shifted together as the literals are masked one
after the other. -/
theorem literals_eq_error_iff {texts : List Bytes} :
    masker.literals position columns texts = .error error ↔
      ∃ index text, texts[index]? = some text ∧
        masker.FaultAt (position + index) columns[index]? text error ∧
        ∀ before < index, ∀ text, texts[before]? = some text →
          ∀ other, ¬ masker.FaultAt (position + before) columns[before]? text other := by
  induction texts generalizing position columns with
  | nil => simp [literals]
  | cons first rest ih =>
    rw [literals_cons_eq_error_iff, ih, List.head?_eq_getElem?]
    constructor
    · rintro (hfault | ⟨hnone, index, text, htext, hfault, hbefore⟩)
      · refine ⟨0, first, rfl, hfault, ?_⟩
        intro before hlt
        cases hlt
      · rw [Nat.add_right_comm, List.getElem?_tail] at hfault
        refine ⟨index + 1, text, htext, hfault, ?_⟩
        intro before hlt text htext other
        cases before with
        | zero =>
          cases htext
          exact hnone other
        | succ before =>
          have hother := hbefore before (Nat.lt_of_succ_lt_succ hlt) text htext other
          rwa [Nat.add_right_comm, List.getElem?_tail] at hother
    · rintro ⟨index, text, htext, hfault, hbefore⟩
      cases index with
      | zero =>
        cases htext
        exact .inl hfault
      | succ index =>
        refine .inr ⟨hbefore 0 (Nat.succ_pos index) first rfl, index, text, htext, ?_, ?_⟩
        · rwa [Nat.add_right_comm, List.getElem?_tail]
        · intro before hlt text htext other
          rw [Nat.add_right_comm, List.getElem?_tail]
          exact hbefore (before + 1) (Nat.succ_lt_succ hlt) text htext other

theorem row_eq_error_iff {row : Bytes} {layout : Layout} (hsplit : Tuple.split row = .ok layout) :
    masker.row columns row = .error error ↔
      ∃ position, masker.IsFirstFault columns layout.contents position error := by
  rw [Masker.row, hsplit]
  have hrow : (do
      let masked ← masker.literals 0 columns layout.contents
      return (layout.fill masked).text : Except RowError Bytes) = .error error ↔
        masker.literals 0 columns layout.contents = .error error := by
    rw [bind_eq_error_iff]
    simp [pure, Except.pure]
  refine hrow.trans (literals_eq_error_iff.trans ?_)
  simp only [Nat.zero_add]
  constructor
  · rintro ⟨position, text, htext, hfault, hearlier⟩
    exact ⟨position, ⟨text, htext, hfault⟩, hearlier⟩
  · rintro ⟨position, ⟨text, htext, hfault⟩, hearlier⟩
    exact ⟨position, text, htext, hfault, hearlier⟩

theorem row_of_split_eq_error {row : Bytes} {fault : MalformedRow}
    (hsplit : Tuple.split row = .error fault) :
    masker.row columns row = .error (.malformed fault) := by
  rw [Masker.row, hsplit]

theorem MasksTo.not_faultAt {column : Option ColumnId} {old new : Bytes}
    (h : masker.MasksTo column old new) : ¬ masker.FaultAt position column old error :=
  exists_literal_iff.mp ⟨new, literal_eq_ok_iff.mpr h⟩ error

/-- A masked row has no fault in any place. -/
theorem not_faultAt_of_row {row out : Bytes} {layout : Layout} {text : Bytes}
    (hrow : masker.row columns row = .ok out) (hsplit : Tuple.split row = .ok layout)
    (htext : layout.contents[position]? = some text) :
    ¬ masker.FaultAt position columns[position]? text error := by
  obtain ⟨layout', news, hsplit', hlength, hmasks, -, -⟩ := row_eq_ok hrow
  obtain rfl : layout = layout' := Except.ok.inj (hsplit.symm.trans hsplit')
  have hbound : position < news.length := by
    rw [hlength, ← Layout.length_contents]
    exact (List.getElem?_eq_some_iff.mp htext).1
  exact (hmasks position text _ htext (List.getElem?_eq_getElem hbound)).not_faultAt

/-- A literal that is known to become `new` stands as such in every masked row, and no row fails for
it. -/
theorem contents_of_masksTo {row token new : Bytes} {layout : Layout}
    (hsplit : Tuple.split row = .ok layout) (htoken : layout.contents[position]? = some token)
    (hmasks : masker.MasksTo columns[position]? token new) :
    (∀ out, masker.row columns row = .ok out →
      ∃ layout', Tuple.split out = .ok layout' ∧ layout'.contents[position]? = some new) ∧
    ∀ error, masker.row columns row = .error error →
      ∃ other, other ≠ position ∧ masker.IsFirstFault columns layout.contents other error := by
  constructor
  · intro out hout
    obtain ⟨layout', news, hsplit', hlength, hall, htokens, rfl⟩ := row_eq_ok hout
    obtain rfl : layout = layout' := Except.ok.inj (hsplit.symm.trans hsplit')
    refine ⟨_, Tuple.split_fill hsplit hlength htokens, ?_⟩
    have hbound : position < news.length := by
      rw [hlength, ← Layout.length_contents]
      exact (List.getElem?_eq_some_iff.mp htoken).1
    have hfound := hall position token _ htoken (List.getElem?_eq_getElem hbound)
    rw [Layout.contents_fill _ _ hlength, List.getElem?_eq_getElem hbound, hfound.unique hmasks]
  · intro error herror
    obtain ⟨other, hfirst⟩ := (row_eq_error_iff hsplit).mp herror
    refine ⟨other, ?_, hfirst⟩
    rintro rfl
    obtain ⟨text, htext, hfault⟩ := hfirst.fault
    cases htoken.symm.trans htext
    exact hmasks.not_faultAt hfault

/-- The literals up to the first fault decide. -/
theorem IsFirstFault.congr {texts others : List Bytes}
    (h : masker.IsFirstFault columns texts position error)
    (hsame : others.take (position + 1) = texts.take (position + 1)) :
    masker.IsFirstFault columns others position error := by
  have hget : ∀ i ≤ position, others[i]? = texts[i]? := by
    intro i hi
    rw [← List.getElem?_take_of_lt (Nat.lt_succ_of_le hi), hsame,
      List.getElem?_take_of_lt (Nat.lt_succ_of_le hi)]
  constructor
  · rw [hget position (Nat.le_refl position)]
    exact h.fault
  · intro before hlt
    rw [hget before (Nat.le_of_lt hlt)]
    exact h.earlier before hlt

/-- **The first fault fails a row.** A row that is no tuple fails as such. Any other row fails exactly
when some literal has a fault, with that of the first one: its position is told, a literal that
cannot be read is never handed to a transform, and what follows it does not matter. -/
theorem row_fails_at_first_fault (masker : Masker) (columns : List ColumnId) (row : Bytes) :
    ((∃ error, masker.row columns row = .error error) ↔
      (∃ fault, Tuple.split row = .error fault) ∨
        ∃ layout position text error, Tuple.split row = .ok layout ∧
          layout.contents[position]? = some text ∧
          masker.FaultAt position columns[position]? text error) ∧
    (∀ fault, Tuple.split row = .error fault →
      masker.row columns row = .error (.malformed fault)) ∧
    ∀ layout, Tuple.split row = .ok layout → ∀ error,
      (masker.row columns row = .error error ↔
        ∃ position, masker.IsFirstFault columns layout.contents position error) ∧
      ∀ position, masker.IsFirstFault columns layout.contents position error →
        error.position? = some position ∧
        (∀ text fault, layout.contents[position]? = some text → Literal.read text = .error fault →
          error = .malformedLiteral position (columnLabel position columns[position]?) fault) ∧
        ∀ other layout', Tuple.split other = .ok layout' →
          layout'.contents.take (position + 1) = layout.contents.take (position + 1) →
          masker.row columns other = .error error := by
  refine ⟨?_, fun fault => row_of_split_eq_error, ?_⟩
  · cases hsplit : Tuple.split row with
    | error fault => exact ⟨fun _ => .inl ⟨fault, rfl⟩, fun _ => ⟨_, row_of_split_eq_error hsplit⟩⟩
    | ok layout =>
      constructor
      · rintro ⟨error, herror⟩
        obtain ⟨position, ⟨text, htext, hfault⟩, -⟩ := (row_eq_error_iff hsplit).mp herror
        exact .inr ⟨layout, position, text, error, rfl, htext, hfault⟩
      · rintro (⟨fault, hfault⟩ | ⟨layout', position, text, error, hlayout, htext, hfault⟩)
        · cases hfault
        · cases hlayout
          cases hrow : masker.row columns row with
          | error error => exact ⟨error, rfl⟩
          | ok out => exact absurd hfault (not_faultAt_of_row hrow hsplit htext)
  · intro layout hsplit error
    refine ⟨row_eq_error_iff hsplit, ?_⟩
    intro position hfirst
    obtain ⟨text, htext, hfault⟩ := hfirst.fault
    refine ⟨hfault.position?_eq, ?_, ?_⟩
    · intro text' fault htext' hread
      cases htext.symm.trans htext'
      exact Except.error.inj ((literal_eq_error_iff.mpr hfault).symm.trans
        (literal_eq_error_iff.mpr (.unreadable hread)))
    · intro other layout' hother hsame
      exact (row_eq_error_iff hother).mpr ⟨position, hfirst.congr hsame⟩

/-- NULL and an empty value pass a transform that refuses all, and a literal that cannot be read does
not show behind the value that is refused. -/
theorem row_fails_at_first_fault_refused :
    let refusal : Transform := .ofFn fun _ _ => .error (.other "no")
    let masker := (((Masker.empty .standard).register ⟨"t", "a"⟩ refusal).register ⟨"t", "b"⟩
      refusal).register ⟨"t", "d"⟩ refusal
    let columns : List ColumnId := [⟨"t", "a"⟩, ⟨"t", "b"⟩, ⟨"t", "c"⟩, ⟨"t", "d"⟩]
    let error : RowError := .transform 3 ⟨⟨"t", "d"⟩, 2, .other "no"⟩
    masker.row columns (ascii "(NULL,'',7,'xy',0xZ)") = .error error ∧
      error.position? = some 3 ∧
      masker.row columns (ascii "( NULL, '' ,7,'xy' )") = .error error := by
  intro refusal masker columns error
  have hsplit : Tuple.split (ascii "(NULL,'',7,'xy',0xZ)") =
      .ok ⟨[⟨ascii "(", ascii "NULL"⟩, ⟨ascii ",", ascii "''"⟩, ⟨ascii ",", ascii "7"⟩,
        ⟨ascii ",", ascii "'xy'"⟩, ⟨ascii ",", ascii "0xZ"⟩], ascii ")"⟩ :=
    eq_ok_of_toOption (by decide +kernel)
  have hother : Tuple.split (ascii "( NULL, '' ,7,'xy' )") =
      .ok ⟨[⟨ascii "( ", ascii "NULL"⟩, ⟨ascii ", ", ascii "''"⟩, ⟨ascii " ,", ascii "7"⟩,
        ⟨ascii ",", ascii "'xy'"⟩], ascii " )"⟩ :=
    eq_ok_of_toOption (by decide +kernel)
  have hfirst : masker.IsFirstFault columns
      [ascii "NULL", ascii "''", ascii "7", ascii "'xy'", ascii "0xZ"] 3 error := by
    constructor
    · have hread : Literal.read (ascii "'xy'") = .ok ⟨.quoted, ascii "xy"⟩ :=
        eq_ok_of_toOption (by decide +kernel)
      exact ⟨ascii "'xy'", rfl, .refused rfl rfl hread (by decide) (by decide) rfl⟩
    · intro before hlt text htext other
      have hkept : masker.literals 0 columns [ascii "NULL", ascii "''", ascii "7"] =
          .ok [ascii "NULL", ascii "''", ascii "7"] := eq_ok_of_toOption (by decide +kernel)
      rw [← List.getElem?_take_of_lt hlt] at htext
      exact ((masksTo_of_literals hkept).2 before text text htext htext).not_faultAt
  have hlaw := (row_fails_at_first_fault masker columns _).2.2 _ hsplit error
  obtain ⟨hposition, -, hsame⟩ := hlaw.2 3 hfirst
  exact ⟨hlaw.1.mpr ⟨3, hfirst⟩, hposition, hsame _ _ hother rfl⟩

end DumpMask.Masker
