import DumpMask.Proofs.Statement.SpelledInsert

/-!
# Which statements are accepted

The rows of a statement are found behind its keyword unless the search stops at another place: at a
decoy in a name, or at a cue in a literal. Main statement: in terms of these, when the rows that
were written are found, when the keyword is reported as missing, and when a statement is accepted at
all. It may be accepted for the wrong rows, where the line behind a decoy or behind a cue in a
literal happens to begin with a list of rows.
-/

namespace DumpMask.Statement

/-- The literals of rows with commas between the rows. Behind the last row stands `rest`. -/
def rowParts (rest : Bytes) : List (List Literal) → List Part
  | [] => []
  | row :: others =>
    itemParts Literal.write (Ascii.closeParen ::
        (others.flatMap (fun other => Ascii.comma :: Tuple.writeRow other) ++ rest)) row ++
      rowParts rest others

section Rows

variable {word front rest behind : Bytes} {rows : List (List Literal)}

theorem exists_hasCue_rowParts :
    (∃ part ∈ rowParts rest rows, HasCue word part.text) ↔
      ∃ row ∈ rows, ∃ literal ∈ row, HasCue word literal.write := by
  induction rows with
  | nil => exact iff_of_false nofun nofun
  | cons row others ih =>
    simp only [rowParts, List.mem_append, List.mem_cons, or_and_right, exists_or,
      exists_eq_left, exists_hasCue_itemParts, ih]

/-- The first cue of the rows is that of the first literal that has one. -/
theorem IsBehindCue.isFirstCue_rows (h : IsBehindCue word (rowParts rest rows) behind)
    (hsought : IsSought word) (hfront : ¬ HasCue word (front ++ [Ascii.openParen])) :
    ∃ head, IsFirstCue word none
      (front ++ ([Ascii.comma].intercalate (rows.map Tuple.writeRow) ++ rest)) head behind := by
  have hword := hsought.isWord
  have hcomma := Insert.isMark_of_isWord hword (Or.inr rfl)
  induction rows generalizing front with
  | nil => cases h
  | cons row others ih =>
    rw [rowParts] at h
    rcases h.of_append with hrow | ⟨hnone, hothers⟩
    · obtain ⟨head, hfirst⟩ := hrow.isFirstCue_items hcomma hsought.ne_nil
        hsought.noTrailingBlank (noCueBegins_openParen hword hfront)
      refine ⟨head, ?_⟩
      rw [intercalate_comma_cons, Tuple.writeRow]
      simpa using hfirst
    · cases others with
      | nil => cases hothers
      | cons other others =>
        have hrow : ¬ HasCue word (front ++ Tuple.writeRow row) := by
          rw [Tuple.writeRow, Insert.hasCue_list hword, ← exists_hasCue_itemParts]
          rintro (hcue | ⟨part, hmem, hcue⟩)
          · exact hfront hcue
          · exact hnone part hmem hcue
        have hopen : ¬ HasCue word (front ++ Tuple.writeRow row ++ [Ascii.comma] ++
            [Ascii.openParen]) := fun hcue =>
          Insert.not_hasCue_blanks_openParen hword hsought.ne_nil Bytes.allBlank_nil
            (noCueBegins_mark hcomma hrow _ hcue)
        obtain ⟨head, hfirst⟩ := ih hothers hopen
        refine ⟨head, ?_⟩
        rw [intercalate_map_cons_cons]
        simpa using hfirst

end Rows

namespace SpelledInsert

/-- The keyword is spelled in one case, and nothing is found before it. -/
def IsFound (insert : SpelledInsert) : Prop :=
  (insert.keyword = ascii "VALUES" ∧ ¬ insert.HasDecoy (ascii "VALUES")) ∨
    (insert.keyword = ascii "values" ∧ ¬ insert.HasDecoy (ascii "VALUES") ∧
      ¬ insert.HasDecoy (ascii "values") ∧ ¬ insert.HasLiteralCue (ascii "VALUES"))

/-- The keyword is spelled in both cases, and nothing is found in its place. -/
def IsOverlooked (insert : SpelledInsert) : Prop :=
  ∀ word, IsSought word →
    insert.keyword ≠ word ∧ ¬ insert.HasDecoy word ∧ ¬ insert.HasLiteralCue word

/-- The line behind the names. -/
def back (insert : SpelledInsert) : Bytes :=
  insert.gap ++ (insert.keyword ++ (insert.lead ++ (insert.rowsText ++ ascii ";")))

/-- The names of the table and of the columns, each with the rest of the line. -/
def nameParts (insert : SpelledInsert) : List Part :=
  ⟨insert.table.text, insert.columnText ++ insert.back⟩ ::
    match insert.columns? with
    | none => []
    | some list => itemParts SpelledColumn.text (Ascii.closeParen :: insert.back) list.columns

/-- The literals of all rows, each with the rest of the line. -/
def literalParts (insert : SpelledInsert) : List Part :=
  rowParts (ascii ";") insert.rows

/-- `behind` is the line behind the first decoy: behind the table name that is the keyword, or
behind the first cue in the first name that has one. -/
def IsBehindDecoy (insert : SpelledInsert) (word behind : Bytes) : Prop :=
  (insert.columns? ≠ none ∧ insert.table.text = word ∧
      behind = insert.columnText ++ insert.back) ∨
    (¬ (insert.columns? ≠ none ∧ insert.table.text = word) ∧
      IsBehindCue word insert.nameParts behind)

/-- Something else is taken for the keyword, and `behind` follows it: the first decoy or, where the
keyword has another spelling and there is no decoy, the first cue in a literal. -/
def Misleads (insert : SpelledInsert) (word behind : Bytes) : Prop :=
  insert.IsBehindDecoy word behind ∨
    (insert.keyword ≠ word ∧ ¬ insert.HasDecoy word ∧ IsBehindCue word insert.literalParts behind)

/-- What follows a decoy or a cue in a literal happens to begin with a list of rows. The lower case
spelling counts only where the upper case one stands nowhere. -/
def IsMistaken (insert : SpelledInsert) : Prop :=
  ∃ behind, BeginsWithRows behind ∧
    (insert.Misleads (ascii "VALUES") behind ∨
      (insert.keyword ≠ ascii "VALUES" ∧ ¬ insert.HasDecoy (ascii "VALUES") ∧
        ¬ insert.HasLiteralCue (ascii "VALUES") ∧ insert.Misleads (ascii "values") behind))

/-! ### Where the search is misled -/

section Misled

variable (insert : SpelledInsert) {word behind : Bytes}

theorem text_eq_front_append : insert.text = insert.front ++ insert.back := by
  simp only [text, head, back, List.append_assoc]

theorem exists_hasCue_nameParts (hword : IsWord word) :
    (∃ part ∈ insert.nameParts, HasCue word part.text) ↔
      ∃ name ∈ insert.names, HasCue word name.text := by
  rw [nameParts, names]
  cases insert.columns? with
  | none => simp
  | some list =>
    simp only [List.mem_cons, exists_eq_or_imp, exists_hasCue_itemParts,
      SpelledColumn.hasCue_text hword, List.mem_map, exists_exists_and_eq_and]

theorem exists_isBehindDecoy_iff (hsought : IsSought word) :
    (∃ behind, insert.IsBehindDecoy word behind) ↔ insert.HasDecoy word := by
  rw [HasDecoy, ← insert.exists_hasCue_nameParts hsought.isWord,
    ← exists_isBehindCue_iff hsought.ne_nil]
  constructor
  · rintro ⟨behind, ⟨hcolumns, htable, -⟩ | ⟨-, hbehind⟩⟩
    · exact Or.inr ⟨hcolumns, htable⟩
    · exact Or.inl ⟨behind, hbehind⟩
  · intro h
    by_cases htable : insert.columns? ≠ none ∧ insert.table.text = word
    · exact ⟨_, Or.inl ⟨htable.1, htable.2, rfl⟩⟩
    · obtain ⟨behind, hbehind⟩ := h.resolve_right htable
      exact ⟨behind, Or.inr ⟨htable, hbehind⟩⟩

/-- The table name that is the keyword is found before anything else. -/
theorem isFirstCue_tableName (hsought : IsSought word) (hcolumns : insert.columns? ≠ none)
    (htable : insert.table.text = word) :
    IsFirstCue word none insert.text (insert.header.text ++ word)
      (insert.columnText ++ insert.back) := by
  obtain ⟨list, hlist⟩ := Option.ne_none_iff_exists'.mp hcolumns
  have hcolumnText : insert.columnText = list.text := by
    rw [columnText, hlist]
  refine (isFirstCue_iff hsought.ne_nil hsought.noTrailingBlank).mpr ⟨?_, ?_, ?_⟩
  · rw [text_eq_front_append, front, htable]
    simp only [List.append_assoc]
  · refine ⟨insert.header.text, rfl, ?_, opensTuple_iff.mpr ?_⟩
    · rw [Option.or_none]
      exact insert.header.isBoundary_getLast? insert.header_gap_ne
    · rw [hcolumnText, SpelledColumns.text, List.append_assoc]
      exact ⟨list.gap, _, list.gap_blank, rfl⟩
  · apply not_hasCue_of_not_mem
    rw [List.mem_append, not_or]
    exact ⟨insert.header.openParen_not_mem_text, openParen_not_mem_of_isWord hsought.isWord⟩

/-- No cue begins in front of the table name and ends in it. -/
theorem not_hasCue_header_append (hsought : IsSought word) {head after : Bytes}
    (h : IsFirstCue word none insert.table.text head after) :
    ¬ HasCue word (insert.header.text ++ head) := by
  obtain ⟨htext, hcue, hnone⟩ := (isFirstCue_iff hsought.ne_nil hsought.noTrailingBlank).mp h
  cases htable : insert.table with
  | bare name =>
    rw [htable] at htext
    exact absurd ⟨head, after, htext, hcue⟩ (SpelledName.not_hasCue_bare name)
  | quoted name =>
    -- the backtick in front of the name is in no cue
    have hmark := Insert.isMark_of_isWord hsought.isWord (Or.inl rfl)
    rw [htable, SpelledName.text, quoteName] at htext
    cases head with
    | nil => exact absurd hcue (not_isCue_nil hsought.ne_nil)
    | cons b inner =>
      obtain ⟨rfl, -⟩ := List.cons.inj htext
      have hname : HasCue word ([] ++ Ascii.backtick :: inner) ↔ _ := hasCue_append_mark hmark
      rw [hasCue_append_mark hmark, not_or]
      exact ⟨not_hasCue_of_not_mem insert.header.openParen_not_mem_text,
        fun hinner => hnone (hname.mpr (Or.inr hinner))⟩

theorem IsBehindDecoy.exists_isFirstCue (hsought : IsSought word)
    (h : insert.IsBehindDecoy word behind) :
    ∃ head, IsFirstCue word none insert.text head behind := by
  have hword := hsought.isWord
  have hcomma := Insert.isMark_of_isWord hword (Or.inr rfl)
  rcases h with ⟨hcolumns, htable, rfl⟩ | ⟨htable, h⟩
  · exact ⟨_, insert.isFirstCue_tableName hsought hcolumns htable⟩
  · rw [text_eq_front_append, front]
    rw [nameParts] at h
    cases h with
    | here hfirst =>
      simp only [List.append_assoc]
      exact ⟨_, hfirst.append hsought.ne_nil hsought.noTrailingBlank
        (insert.not_hasCue_header_append hsought hfirst) _⟩
    | later hnone hothers =>
      cases hcolumns : insert.columns? with
      | none =>
        rw [hcolumns] at hothers
        cases hothers
      | some list =>
        have hparen := insert.table.hasCue_append_openParen hword hsought.ne_nil
          (insert.header.isBoundary_getLast? insert.header_gap_ne)
          insert.header.openParen_not_mem_text list.gap_blank
        have hopen : ¬ HasCue word
            (insert.header.text ++ (insert.table.text ++ list.gap) ++ [Ascii.openParen]) := by
          simp only [List.append_assoc, hparen, not_or]
          refine ⟨hnone, fun hname => htable ⟨?_, hname⟩⟩
          rw [hcolumns]
          exact Option.some_ne_none list
        rw [hcolumns] at hothers
        obtain ⟨head, hfirst⟩ := hothers.isFirstCue_items hcomma hsought.ne_nil
          hsought.noTrailingBlank (noCueBegins_openParen hword hopen)
        refine ⟨head, ?_⟩
        rw [columnText, hcolumns]
        simpa [SpelledColumns.text] using hfirst

theorem exists_isFirstCue_literal (hsought : IsSought word) (hkeyword : insert.keyword ≠ word)
    (hdecoy : ¬ insert.HasDecoy word) (h : IsBehindCue word insert.literalParts behind) :
    ∃ head, IsFirstCue word none insert.text head behind := by
  have hopen : ¬ HasCue word (insert.head ++ insert.lead ++ [Ascii.openParen]) := by
    rw [List.append_assoc, insert.hasCue_head_append hsought hkeyword, not_or]
    exact ⟨hdecoy,
      Insert.not_hasCue_blanks_openParen hsought.isWord hsought.ne_nil insert.lead_blank⟩
  obtain ⟨head, hfirst⟩ := h.isFirstCue_rows hsought hopen
  refine ⟨head, ?_⟩
  rwa [List.append_assoc] at hfirst

theorem exists_isBehindCue_literal_iff (hsought : IsSought word) :
    (∃ behind, IsBehindCue word insert.literalParts behind) ↔ insert.HasLiteralCue word :=
  (exists_isBehindCue_iff hsought.ne_nil).trans exists_hasCue_rowParts

theorem Misleads.exists_isFirstCue (hsought : IsSought word) (h : insert.Misleads word behind) :
    ∃ head, IsFirstCue word none insert.text head behind := by
  rcases h with hdecoy | ⟨hkeyword, hdecoy, hliteral⟩
  · exact hdecoy.exists_isFirstCue insert hsought
  · exact insert.exists_isFirstCue_literal hsought hkeyword hdecoy hliteral

/-- A first cue that is not the keyword is a decoy, or it stands in a literal. -/
theorem misleads_iff (hsought : IsSought word) :
    insert.Misleads word behind ↔
      ∃ head, head ≠ insert.head ∧ IsFirstCue word none insert.text head behind := by
  have hlist := insert.isFirstCue_list_iff hsought
  constructor
  · intro h
    obtain ⟨head, hfirst⟩ := h.exists_isFirstCue insert hsought
    refine ⟨head, ?_, hfirst⟩
    rintro rfl
    have hbehind : behind = insert.list.rows.text :=
      List.append_cancel_left (hfirst.text_eq.trans insert.text_list.symm)
    rw [hbehind] at hfirst
    obtain ⟨hkeyword, hnone⟩ := hlist.mp hfirst
    rcases h with hdecoy | ⟨hother, -⟩
    · exact hnone ((insert.exists_isBehindDecoy_iff hsought).mp ⟨behind, hdecoy⟩)
    · exact hother hkeyword
  · rintro ⟨head, hhead, hfirst⟩
    by_cases hdecoy : insert.HasDecoy word
    · obtain ⟨behind', hbehind⟩ := (insert.exists_isBehindDecoy_iff hsought).mpr hdecoy
      obtain ⟨head', hfirst'⟩ := hbehind.exists_isFirstCue insert hsought
      obtain ⟨-, rfl⟩ := hfirst.unique hfirst'
      exact Or.inl hbehind
    · have hkeyword : insert.keyword ≠ word := fun hkeyword =>
        hhead (hfirst.unique (hlist.mpr ⟨hkeyword, hdecoy⟩)).1
      have hcue : HasCue word insert.text := ⟨head, behind, hfirst.text_eq, hfirst.cue⟩
      have hliteral := ((insert.hasCue_text_of_ne hsought hkeyword).mp hcue).resolve_left hdecoy
      obtain ⟨behind', hbehind⟩ := (insert.exists_isBehindCue_literal_iff hsought).mpr hliteral
      obtain ⟨head', hfirst'⟩ :=
        insert.exists_isFirstCue_literal hsought hkeyword hdecoy hbehind
      obtain ⟨-, rfl⟩ := hfirst.unique hfirst'
      exact Or.inr ⟨hkeyword, hdecoy, hbehind⟩

end Misled

end SpelledInsert

/-! ### Finding the rows -/

/-- The search for the keyword cuts the line here. -/
def StopsAt (line head after : Bytes) : Prop :=
  IsFirstCue (ascii "VALUES") none line head after ∨
    (¬ HasCue (ascii "VALUES") line ∧ IsFirstCue (ascii "values") none line head after)

namespace SpelledInsert

section Search

variable (insert : SpelledInsert)

theorem stopsAt_list_iff :
    StopsAt insert.text insert.list.head insert.list.rows.text ↔ insert.IsFound := by
  have hlower : insert.keyword = ascii "values" → insert.keyword ≠ ascii "VALUES" := by
    intro hkeyword
    rw [hkeyword]
    decide
  rw [StopsAt, insert.isFirstCue_list_iff (Or.inl rfl), insert.isFirstCue_list_iff (Or.inr rfl),
    IsFound]
  refine or_congr_right ?_
  constructor
  · rintro ⟨hnone, hkeyword, hdecoy⟩
    rw [insert.hasCue_text_of_ne (Or.inl rfl) (hlower hkeyword), not_or] at hnone
    exact ⟨hkeyword, hnone.1, hdecoy, hnone.2⟩
  · rintro ⟨hkeyword, hupper, hdecoy, hliteral⟩
    rw [insert.hasCue_text_of_ne (Or.inl rfl) (hlower hkeyword), not_or]
    exact ⟨⟨hupper, hliteral⟩, hkeyword, hdecoy⟩

theorem not_hasCue_text_iff {word : Bytes} (hsought : IsSought word) :
    ¬ HasCue word insert.text ↔
      insert.keyword ≠ word ∧ ¬ insert.HasDecoy word ∧ ¬ insert.HasLiteralCue word := by
  by_cases hkeyword : insert.keyword = word
  · exact iff_of_false (not_not_intro (insert.hasCue_text_of_keyword hsought hkeyword))
      fun h => h.1 hkeyword
  · rw [insert.hasCue_text_of_ne hsought hkeyword, not_or, and_iff_right hkeyword]

theorem isOverlooked_iff :
    insert.IsOverlooked ↔
      ¬ HasCue (ascii "VALUES") insert.text ∧ ¬ HasCue (ascii "values") insert.text := by
  rw [insert.not_hasCue_text_iff (Or.inl rfl), insert.not_hasCue_text_iff (Or.inr rfl)]
  constructor
  · exact fun h => ⟨h _ (Or.inl rfl), h _ (Or.inr rfl)⟩
  · rintro ⟨hupper, hlower⟩ word (rfl | rfl)
    · exact hupper
    · exact hlower

theorem values?_eq_some_iff_stopsAt {found : ValuesList} :
    values? insert.text = .ok (some found) ↔
      StopsAt insert.text found.head found.rows.text ∧
        ∃ lead, Bytes.AllBlank lead ∧ HasRows lead found.rows := by
  rw [values?_eq_ok_some_iff, and_iff_right insert.isInsert_text, cutAfterValues?_eq_some_iff,
    StopsAt]

theorem values?_eq_list_iff : values? insert.text = .ok (some insert.list) ↔ insert.IsFound := by
  rw [insert.values?_eq_some_iff_stopsAt, insert.stopsAt_list_iff]
  exact and_iff_left ⟨insert.lead, insert.lead_blank, insert.hasRows_list⟩

/-- A list that is found behind the keyword that was written is the list that was written. -/
theorem isFound_of_head {found : ValuesList} (h : values? insert.text = .ok (some found))
    (hhead : found.head = insert.head) : insert.IsFound := by
  obtain ⟨hstops, -⟩ := insert.values?_eq_some_iff_stopsAt.mp h
  have hafter : found.rows.text = insert.list.rows.text := by
    have htext := cutAfterValues?_append (cutAfterValues?_eq_some_iff.mpr hstops)
    rw [← insert.text_list, hhead] at htext
    exact List.append_cancel_left htext
  rw [hhead, hafter] at hstops
  exact insert.stopsAt_list_iff.mp hstops

/-- Where the search stops if it does not stop at the keyword. -/
theorem exists_stopsAt_iff {behind : Bytes} :
    (∃ head, head ≠ insert.head ∧ StopsAt insert.text head behind) ↔
      insert.Misleads (ascii "VALUES") behind ∨
        (insert.keyword ≠ ascii "VALUES" ∧ ¬ insert.HasDecoy (ascii "VALUES") ∧
          ¬ insert.HasLiteralCue (ascii "VALUES") ∧ insert.Misleads (ascii "values") behind) := by
  have hnone := insert.not_hasCue_text_iff (Or.inl rfl)
  rw [insert.misleads_iff (Or.inl rfl), insert.misleads_iff (Or.inr rfl)]
  simp only [StopsAt, hnone, and_or_left, exists_or, and_left_comm, exists_and_left, and_assoc]

/-- A list that is found in another place is what follows a decoy or a cue in a literal. -/
theorem isMistaken_iff :
    insert.IsMistaken ↔
      ∃ found, values? insert.text = .ok (some found) ∧ found.head ≠ insert.head := by
  constructor
  · rintro ⟨behind, hbegins, hbehind⟩
    obtain ⟨head, hhead, hstops⟩ := insert.exists_stopsAt_iff.mpr hbehind
    obtain ⟨rows, lead, hlead, hrows, rfl⟩ := beginsWithRows_iff.mp hbegins
    have hfound : values? insert.text = .ok (some ⟨head, rows⟩) :=
      insert.values?_eq_some_iff_stopsAt.mpr ⟨hstops, lead, hlead, hrows⟩
    exact ⟨_, hfound, hhead⟩
  · rintro ⟨found, hfound, hhead⟩
    obtain ⟨hstops, lead, hlead, hrows⟩ := insert.values?_eq_some_iff_stopsAt.mp hfound
    have hbegins := beginsWithRows_iff.mpr ⟨found.rows, lead, hlead, hrows, rfl⟩
    exact ⟨_, hbegins, insert.exists_stopsAt_iff.mp ⟨found.head, hhead, hstops⟩⟩

/-- **Which statements are accepted.** The rows that were written are found exactly behind a keyword
in one case with nothing in its way. The keyword is reported as missing if it has both cases and no
cue stands anywhere else. A statement is accepted only if its rows are found, or if the line behind
a decoy or behind a cue in a literal begins with a list of rows. -/
theorem accepts_iff :
    (values? insert.text = .ok (some insert.list) ↔ insert.IsFound) ∧
      (values? insert.text = .error ⟨0, .missingValues⟩ ↔ insert.IsOverlooked) ∧
      ((∃ found, values? insert.text = .ok (some found)) ↔
        insert.IsFound ∨ insert.IsMistaken) ∧
      values? insert.text ≠ .ok none := by
  refine ⟨insert.values?_eq_list_iff, ?_, ?_, values?_ne_ok_none insert.isInsert_text⟩
  · rw [values?_eq_missing_iff insert.isInsert_text, cutAfterValues?_eq_none_iff,
      insert.isOverlooked_iff]
  · rw [insert.isMistaken_iff]
    constructor
    · rintro ⟨found, hfound⟩
      by_cases hhead : found.head = insert.head
      · exact Or.inl (insert.isFound_of_head hfound hhead)
      · exact Or.inr ⟨found, hfound, hhead⟩
    · rintro (hfound | ⟨found, hfound, -⟩)
      · exact ⟨_, insert.values?_eq_list_iff.mpr hfound⟩
      · exact ⟨found, hfound⟩

/-- A keyword in both cases is not found. -/
theorem rejects_mixed_case :
    let insert : SpelledInsert :=
      { header :=
          { lead := [], keyword := ascii "INSERT", modifiers := [], gap := ascii " "
            into? := some ⟨ascii " ", ascii "INTO", by decide, by decide⟩
            lead_blank := by decide, keyword_eq := by decide, modifiers_eq := by decide
            into_eq := by decide, gap_blank := by decide }
        table := .bare ⟨"t", by decide, by decide⟩, columns? := none, gap := ascii " "
        keyword := ascii "Values", lead := ascii " ", rows := [[⟨.bare, ascii "1"⟩]]
        header_gap_ne := by decide, gap_blank := by decide, gap_ne := by decide
        keyword_eq := by decide, lead_blank := by decide, rows_ne := by decide }
    insert.text = ascii "INSERT INTO t Values (1);" ∧ insert.list.head.length = 20 ∧
      insert.list.spans = [(21, 24)] ∧ values? insert.text = .error ⟨0, .missingValues⟩ := by
  intro insert
  exact ⟨by decide +kernel, by decide +kernel, by decide +kernel, rfl⟩

-- behind the keyword in the value, the rest of the string is taken for a tuple
example : (values? (ascii "INSERT INTO t values (' VALUES (');")).toOption = none := by
  decide +kernel

-- the table name is taken for the keyword, and the list of columns for a row
example : (values? (ascii "INSERT INTO VALUES (a) Values (1);")).toOption.map (·.map (·.spans)) =
    some (some [(19, 22)]) := by
  decide +kernel

end Search

end SpelledInsert

end DumpMask.Statement
