import DumpMask.Masker.Statement
import DumpMask.Proofs.Masker.Row
import DumpMask.Proofs.Statement.Rows

/-!
# What masking makes of a statement

Every tuple of a line is masked as a row by itself, and all that stands around the tuples is kept.
The first tuple that cannot be masked fails the line. Main statement: this, and that the masked line
is cut into its rows in the same places if the keyword in front of them is in upper case.
-/

namespace DumpMask.Masker

variable {masker : Masker}

/-! ### The first failure -/

theorem collectRows_ok_cons (first : Nat) (row : Bytes) (rest : List (Except RowError Bytes)) :
    collectRows first (.ok row :: rest) = (row :: ·) <$> collectRows (first + 1) rest := rfl

theorem collectRows_eq_ok_iff {first : Nat} {results : List (Except RowError Bytes)}
    {rows : List Bytes} :
    collectRows first results = .ok rows ↔ rows.map Except.ok = results := by
  induction results generalizing first rows with
  | nil => cases rows <;> simp [collectRows]
  | cons result rest ih =>
    cases result with
    | error error => cases rows <;> simp [collectRows]
    | ok row =>
      rw [collectRows_ok_cons]
      constructor
      · intro h
        obtain ⟨others, hothers, rfl⟩ := map_eq_ok_iff.mp h
        rw [List.map_cons, ih.mp hothers]
      · intro h
        cases rows with
        | nil => cases h
        | cons row' others =>
          obtain ⟨hrow, hothers⟩ := List.cons.inj h
          cases hrow
          rw [ih.mpr hothers]
          rfl

theorem collectRows_eq_error_iff {first : Nat} {results : List (Except RowError Bytes)}
    {error : StatementError} :
    collectRows first results = .error error ↔
      ∃ index source, error = .row (first + index) source ∧
        results[index]? = some (.error source) ∧
        ∀ earlier < index, ∃ row, results[earlier]? = some (.ok row) := by
  induction results generalizing first with
  | nil => simp [collectRows]
  | cons result rest ih =>
    cases result with
    | error source =>
      rw [collectRows]
      constructor
      · intro h
        cases h
        refine ⟨0, source, rfl, rfl, ?_⟩
        intro earlier hearlier
        cases hearlier
      · rintro ⟨index, source', rfl, hfail, hearlier⟩
        cases index with
        | zero =>
          cases hfail
          rfl
        | succ index =>
          obtain ⟨row, hrow⟩ := hearlier 0 (Nat.succ_pos index)
          cases hrow
    | ok row =>
      rw [collectRows_ok_cons, map_eq_error_iff, ih]
      constructor
      · rintro ⟨index, source, rfl, hfail, hearlier⟩
        refine ⟨index + 1, source, by rw [Nat.add_right_comm, Nat.add_assoc], hfail, ?_⟩
        intro earlier hlt
        cases earlier with
        | zero => exact ⟨row, rfl⟩
        | succ earlier => exact hearlier earlier (Nat.lt_of_succ_lt_succ hlt)
      · rintro ⟨index, source, rfl, hfail, hearlier⟩
        cases index with
        | zero => cases hfail
        | succ index =>
          refine ⟨index, source, by rw [Nat.add_right_comm, Nat.add_assoc], hfail, ?_⟩
          intro earlier hlt
          exact hearlier (earlier + 1) (Nat.succ_lt_succ hlt)

/-! ### The rows of a statement -/

/-- The same text around the tuples, and in the place of each tuple what it is masked to. -/
structure MasksRows (masker : Masker) (columns : List ColumnId) (rows rows' : Layout) : Prop where
  fixed : rows'.fixed = rows.fixed
  contents : rows'.contents.map Except.ok = masker.rows columns rows.contents

theorem masksRows_fill {columns : List ColumnId} {rows : Layout} {contents : List Bytes}
    (h : contents.map Except.ok = masker.rows columns rows.contents) :
    masker.MasksRows columns rows (rows.fill contents) := by
  have hlength : contents.length = rows.slots.length := by
    have hlengths := congrArg List.length h
    rwa [List.length_map, Masker.rows, List.length_map, Layout.length_contents] at hlengths
  exact ⟨Layout.fixed_fill _ _ hlength, by rw [Layout.contents_fill _ _ hlength, h]⟩

section Line

variable {columns : List ColumnId} {line : Bytes} {list : Statement.ValuesList}

theorem statement_of_values? (hlist : Statement.values? line = .ok (some list))
    (hkeep : masker.drops line = false) :
    masker.statement columns line =
      (fun rows => list.head ++ (list.rows.fill rows).text) <$>
        collectRows 0 (masker.rows columns list.rows.contents) := by
  rw [Masker.statement, hlist]
  dsimp only
  rw [hkeep]
  cases collectRows 0 (masker.rows columns list.rows.contents) <;> rfl

theorem statement_eq_ok_iff (hlist : Statement.values? line = .ok (some list))
    (hkeep : masker.drops line = false) {out : Bytes} :
    masker.statement columns line = .ok out ↔
      ∃ rows, masker.MasksRows columns list.rows rows ∧ out = list.head ++ rows.text := by
  rw [statement_of_values? hlist hkeep, map_eq_ok_iff]
  constructor
  · rintro ⟨contents, hcollect, rfl⟩
    exact ⟨_, masksRows_fill (collectRows_eq_ok_iff.mp hcollect), rfl⟩
  · rintro ⟨rows, hmasks, rfl⟩
    have hfill := Layout.eq_fill_of_fixed_eq hmasks.fixed
    exact ⟨rows.contents, collectRows_eq_ok_iff.mpr hmasks.contents, by rw [← hfill]⟩

theorem statement_eq_error_iff (hlist : Statement.values? line = .ok (some list))
    (hkeep : masker.drops line = false) {error : StatementError} :
    masker.statement columns line = .error error ↔
      ∃ index tuple source, error = .row index source ∧
        list.rows.contents[index]? = some tuple ∧ masker.row columns tuple = .error source ∧
        ∀ earlier < index, ∃ tuple row, list.rows.contents[earlier]? = some tuple ∧
          masker.row columns tuple = .ok row := by
  rw [statement_of_values? hlist hkeep, map_eq_error_iff, collectRows_eq_error_iff]
  simp only [Masker.rows, List.getElem?_map, Option.map_eq_some_iff, Nat.zero_add]
  constructor
  · rintro ⟨index, source, herror, ⟨tuple, htuple, hrow⟩, hearlier⟩
    refine ⟨index, tuple, source, herror, htuple, hrow, ?_⟩
    intro earlier hlt
    obtain ⟨row, tuple, htuple, hrow⟩ := hearlier earlier hlt
    exact ⟨tuple, row, htuple, hrow⟩
  · rintro ⟨index, tuple, source, herror, htuple, hrow, hearlier⟩
    refine ⟨index, source, herror, ⟨tuple, htuple, hrow⟩, ?_⟩
    intro earlier hlt
    obtain ⟨tuple, row, htuple, hrow⟩ := hearlier earlier hlt
    exact ⟨row, tuple, htuple, hrow⟩

/-- A line that is masked is kept, or dropped, or has its rows masked one by one. -/
theorem statement_cases {out : Bytes} (h : masker.statement columns line = .ok out) :
    out = line ∨ out = [] ∨ ∃ list rows, Statement.values? line = .ok (some list) ∧
      list.text = line ∧ masker.MasksRows columns list.rows rows ∧ out = list.head ++ rows.text := by
  cases hlist : Statement.values? line with
  | error fault =>
    rw [statement, hlist] at h
    cases h
  | ok found =>
    cases found with
    | none =>
      rw [statement, hlist] at h
      cases h
      exact .inl rfl
    | some list =>
      cases hdrops : masker.drops line with
      | true =>
        rw [statement, hlist] at h
        dsimp only at h
        rw [hdrops] at h
        cases h
        exact .inr (.inl rfl)
      | false =>
        obtain ⟨rows, hrows, hout⟩ := (statement_eq_ok_iff hlist hdrops).mp h
        obtain ⟨-, hcut, -⟩ := Statement.values?_eq_ok_some_iff.mp hlist
        exact .inr (.inr ⟨list, rows, rfl, Statement.cutAfterValues?_append hcut, hrows, hout⟩)

/-- A line with the keyword in upper case is cut in the same places after it is masked. -/
theorem values?_masked (hlist : Statement.values? line = .ok (some list))
    (hupper : ascii "VALUES" <:+ list.head) {rows : Layout}
    (hrows : masker.MasksRows columns list.rows rows) :
    Statement.values? (list.head ++ rows.text) = .ok (some ⟨list.head, rows⟩) := by
  obtain ⟨hinsert, hcut, lead, hlead, hshape⟩ := Statement.values?_eq_ok_some_iff.mp hlist
  have hfill := Layout.eq_fill_of_fixed_eq hrows.fixed
  have hshape' : Statement.HasRows lead rows := by
    rw [hfill]
    apply hshape.fill
    · have hlength := congrArg List.length hrows.contents
      rwa [List.length_map, Masker.rows, List.length_map, Layout.length_contents list.rows]
        at hlength
    · intro content hmem
      have hmasked : Except.ok content ∈ masker.rows columns list.rows.contents := by
        rw [← hrows.contents]
        exact List.mem_map_of_mem hmem
      obtain ⟨old, hold, hrow⟩ := List.mem_map.mp hmasked
      obtain ⟨tuple, htuple, rfl⟩ := hshape.exists_tuple hold
      exact isTuple_of_row htuple hrow
  obtain ⟨inner, hinner⟩ := hshape.exists_text
  obtain ⟨inner', hinner'⟩ := hshape'.exists_text
  have hopens : Statement.opensTuple rows.text = true :=
    Statement.opensTuple_iff.mpr ⟨lead, inner', hlead, hinner'⟩
  have hline := Statement.cutAfterValues?_append hcut
  rw [← hline, hinner, ← List.append_assoc, Statement.isInsert_append_openParen] at hinsert
  refine Statement.values?_eq_ok_some_iff.mpr
    ⟨?_, Statement.cutAfterValues?_replace hcut hupper hopens, lead, hlead, hshape'⟩
  rw [hinner', ← List.append_assoc, Statement.isInsert_append_openParen, hinsert]

/-- **Masking works on each tuple by itself.** A line is masked if every tuple in it can be masked
as a row; else the first that cannot is the error, and that tuple can be cut. All that stands around
the tuples is kept, and with the keyword in upper case the masked line has its tuples in the places
of the old ones. -/
theorem statement_masks (hlist : Statement.values? line = .ok (some list))
    (hkeep : masker.drops line = false) :
    list.text = line ∧
      list.spans.map (fun span => line.extract span.1 span.2) = list.rows.contents ∧
      (∀ out, masker.statement columns line = .ok out ↔
        ∃ rows, masker.MasksRows columns list.rows rows ∧ out = list.head ++ rows.text) ∧
      (∀ error, masker.statement columns line = .error error ↔
        ∃ index tuple source, error = .row index source ∧
          list.rows.contents[index]? = some tuple ∧ masker.row columns tuple = .error source ∧
          (∀ fault, source ≠ .malformed fault) ∧
          ∀ earlier < index, ∃ tuple row, list.rows.contents[earlier]? = some tuple ∧
            masker.row columns tuple = .ok row) ∧
      (ascii "VALUES" <:+ list.head → ∀ out, masker.statement columns line = .ok out →
        ∃ list', Statement.values? out = .ok (some list') ∧ list'.head = list.head ∧
          masker.MasksRows columns list.rows list'.rows ∧
          list'.spans.map (fun span => out.extract span.1 span.2) = list'.rows.contents) := by
  obtain ⟨-, hcut, lead, -, hshape⟩ := Statement.values?_eq_ok_some_iff.mp hlist
  obtain rfl : list.text = line := Statement.cutAfterValues?_append hcut
  refine ⟨rfl, list.extract_spans, ?_, ?_, ?_⟩
  · intro out
    exact statement_eq_ok_iff hlist hkeep
  · intro error
    rw [statement_eq_error_iff hlist hkeep]
    constructor
    · rintro ⟨index, tuple, source, herror, htuple, hrow, hearlier⟩
      refine ⟨index, tuple, source, herror, htuple, hrow, ?_, hearlier⟩
      rintro fault rfl
      obtain ⟨inner, hinner, rfl⟩ := hshape.exists_tuple (List.mem_of_getElem? htuple)
      exact row_ne_malformed hinner fault hrow
    · rintro ⟨index, tuple, source, herror, htuple, hrow, -, hearlier⟩
      exact ⟨index, tuple, source, herror, htuple, hrow, hearlier⟩
  · intro hupper out hout
    obtain ⟨rows, hrows, rfl⟩ := (statement_eq_ok_iff hlist hkeep).mp hout
    exact ⟨⟨list.head, rows⟩, values?_masked hlist hupper hrows, rfl, hrows,
      Statement.ValuesList.extract_spans ⟨list.head, rows⟩⟩

/-- The first of two rows gets the keyword and an opening parenthesis into its value. -/
theorem statement_masks_keyword :
    let masker := (Masker.empty .standard).register ⟨"t", "a"⟩
      (.fixed (ascii "' VALUES (") .asInput)
    let line := ascii "INSERT INTO `t` VALUES ( 'x' ), (NULL);"
    let out := ascii "INSERT INTO `t` VALUES ( '\\' VALUES (' ), (NULL);"
    masker.drops line = false ∧ masker.statement [⟨"t", "a"⟩] line = .ok out ∧
      ∃ list list', Statement.values? line = .ok (some list) ∧
        Statement.values? out = .ok (some list') ∧ list'.head = list.head ∧
        masker.MasksRows [⟨"t", "a"⟩] list.rows list'.rows := by
  intro masker line out
  have hlist : Statement.values? line = .ok (some
      ⟨ascii "INSERT INTO `t` VALUES",
        ⟨[⟨ascii " ", ascii "( 'x' )"⟩, ⟨ascii ", ", ascii "(NULL)"⟩], ascii ";"⟩⟩) :=
    eq_ok_of_toOption (by decide +kernel)
  have hkeep : masker.drops line = false := by decide +kernel
  have hout : masker.statement [⟨"t", "a"⟩] line = .ok out := eq_ok_of_toOption (by decide +kernel)
  obtain ⟨-, -, -, -, hupper⟩ := statement_masks hlist hkeep
  obtain ⟨list', hlist', hhead, hrows, -⟩ := hupper (by decide) out hout
  exact ⟨hkeep, hout, _, list', hlist, hlist', hhead, hrows⟩

end Line

end DumpMask.Masker
