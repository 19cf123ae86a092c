import DumpMask.Proofs.LetterCase
import DumpMask.Proofs.Results
import DumpMask.Proofs.Statement.Cues
import DumpMask.Proofs.Statement.Rows
import DumpMask.Proofs.Tuple.Written

/-!
# Whose rows are found

A dump writes an `INSERT` line with quoted names in front of the keyword and written literals behind
it, and any of them may hold the text of a cue. Main statement: exactly when the rows that were
written are the rows that are found. The upper case keyword must not be preceded by a cue in a name;
the lower case one must moreover be the only one whose spelling has a cue anywhere in the line.
-/

namespace DumpMask.Statement

/-- Names are quoted by backticks, and a backtick in a name is doubled. -/
def doubleBackticks (name : Bytes) : Bytes :=
  name.flatMap fun b => if b = Ascii.backtick then [b, b] else [b]

def quoteName (name : Bytes) : Bytes :=
  Ascii.backtick :: (doubleBackticks name ++ [Ascii.backtick])

/-- A column name in a list, with the blanks around it. -/
structure ColumnName where
  before : Bytes
  name : Bytes
  after : Bytes
  before_blank : Bytes.AllBlank before
  after_blank : Bytes.AllBlank after

structure ColumnList where
  gap : Bytes
  columns : List ColumnName
  gap_blank : Bytes.AllBlank gap

/-- What an `INSERT` line is written from. -/
structure Insert where
  table : Bytes
  columnList : Option ColumnList
  keyword : Bytes
  lead : Bytes
  rows : List (List Literal)
  keyword_eq : Bytes.equalsIgnoringCase keyword (ascii "VALUES") = true
  lead_blank : Bytes.AllBlank lead
  rows_ne : rows ≠ []

def ColumnName.text (column : ColumnName) : Bytes :=
  column.before ++ quoteName column.name ++ column.after

def ColumnList.text (list : ColumnList) : Bytes :=
  list.gap ++ Ascii.openParen ::
    ([Ascii.comma].intercalate (list.columns.map ColumnName.text) ++ [Ascii.closeParen])

namespace Insert

/-- The names of the table and of the columns. -/
def names (insert : Insert) : List Bytes :=
  match insert.columnList with
  | none => [insert.table]
  | some list => insert.table :: list.columns.map ColumnName.name

def columnText (insert : Insert) : Bytes :=
  match insert.columnList with
  | none => []
  | some list => list.text

/-- The line up to the space in front of the keyword. -/
def front (insert : Insert) : Bytes :=
  ascii "INSERT INTO " ++ (quoteName insert.table ++ insert.columnText)

def head (insert : Insert) : Bytes :=
  insert.front ++ Ascii.space :: insert.keyword

def rowsText (insert : Insert) : Bytes :=
  [Ascii.comma].intercalate (insert.rows.map Tuple.writeRow)

def text (insert : Insert) : Bytes :=
  insert.head ++ (insert.lead ++ (insert.rowsText ++ ascii ";"))

/-- The places of the rows that were written. -/
def rowSlots (lead : Bytes) : List (List Literal) → List Layout.Slot
  | [] => []
  | row :: rest => ⟨lead, Tuple.writeRow row⟩ :: rowSlots [Ascii.comma] rest

def list (insert : Insert) : ValuesList :=
  ⟨insert.head, ⟨rowSlots insert.lead insert.rows, ascii ";"⟩⟩

/-! ### The rows are a list of rows -/

theorem hasRows_rowSlots {rows : List (List Literal)} (hrows : rows ≠ []) (lead : Bytes) :
    HasRows lead ⟨rowSlots lead rows, ascii ";"⟩ := by
  induction rows generalizing lead with
  | nil => exact absurd rfl hrows
  | cons first others ih =>
    obtain ⟨tuple, htuple, -, htext⟩ := Tuple.exists_isTuple_writeRow first
    rw [rowSlots, ← htext]
    cases others with
    | nil => exact .last htuple (by decide)
    | cons second others =>
      have hrest := ih (List.cons_ne_nil second others) [Ascii.comma]
      exact .more htuple Bytes.allBlank_nil Bytes.allBlank_nil hrest

theorem text_rowSlots {rows : List (List Literal)} (hrows : rows ≠ []) (lead : Bytes) :
    (Layout.mk (rowSlots lead rows) (ascii ";")).text =
      lead ++ ([Ascii.comma].intercalate (rows.map Tuple.writeRow) ++ ascii ";") := by
  induction rows generalizing lead with
  | nil => exact absurd rfl hrows
  | cons first others ih =>
    cases others with
    | nil => simp [rowSlots, List.intercalate_singleton]
    | cons second others =>
      have hcons := Layout.text_cons ⟨lead, Tuple.writeRow first⟩
        ⟨rowSlots [Ascii.comma] (second :: others), ascii ";"⟩
      rw [ih (List.cons_ne_nil second others)] at hcons
      rw [rowSlots]
      refine hcons.trans ?_
      simp only [List.map_cons, List.intercalate_cons_cons, List.append_assoc]

/-! ### The cues of names and rows -/

section Cues

variable {keyword : Bytes}

theorem isWord_of_equalsIgnoringCase {word : Bytes}
    (h : Bytes.equalsIgnoringCase keyword word = true) (hword : word.all Ascii.isLetter = true) :
    IsWord keyword :=
  List.all_eq_true.mp (Bytes.all_of_equalsIgnoringCase (fun _ hletter => hletter) h hword)

theorem isMark_of_isWord (hword : IsWord keyword) {mark : UInt8}
    (hmark : mark = Ascii.backtick ∨ mark = Ascii.comma) : IsMark keyword mark := by
  rcases hmark with rfl | rfl
  all_goals
    refine ⟨?_, by decide, by decide⟩
    intro hmem
    cases hword _ hmem

theorem openParen_not_mem_of_allBlank {blanks : Bytes} (hblanks : Bytes.AllBlank blanks) :
    Ascii.openParen ∉ blanks := by
  intro hmem
  cases hblanks _ hmem

theorem hasCue_append_doubleBackticks (hword : IsWord keyword) (left name : Bytes) :
    HasCue keyword (left ++ doubleBackticks name) ↔ HasCue keyword (left ++ name) := by
  have hmark := isMark_of_isWord hword (Or.inl rfl)
  induction name generalizing left with
  | nil => exact Iff.rfl
  | cons b rest ih =>
    by_cases hb : b = Ascii.backtick
    · have hdouble : doubleBackticks (b :: rest) =
          Ascii.backtick :: Ascii.backtick :: doubleBackticks rest := by
        simp [doubleBackticks, hb]
      have hnil : HasCue keyword ([] ++ Ascii.backtick :: doubleBackticks rest) ↔ _ :=
        hasCue_append_mark hmark
      have hrest : HasCue keyword (doubleBackticks rest) ↔ HasCue keyword rest := ih []
      rw [List.nil_append, or_iff_right not_hasCue_nil] at hnil
      rw [hdouble, hasCue_append_mark hmark, hnil, hrest, hb, hasCue_append_mark hmark]
    · have hsingle : doubleBackticks (b :: rest) = b :: doubleBackticks rest := by
        simp [doubleBackticks, hb]
      have hrest : HasCue keyword (left ++ [b] ++ doubleBackticks rest) ↔
          HasCue keyword (left ++ [b] ++ rest) := ih (left ++ [b])
      rw [hsingle, List.append_cons, hrest, ← List.append_cons]

theorem hasCue_quoteName (hword : IsWord keyword) (left name right : Bytes) :
    HasCue keyword (left ++ (quoteName name ++ right)) ↔
      HasCue keyword left ∨ HasCue keyword name ∨ HasCue keyword right := by
  have hmark := isMark_of_isWord hword (Or.inl rfl)
  have hname := hasCue_append_doubleBackticks hword [] name
  rw [List.nil_append, List.nil_append] at hname
  rw [quoteName, List.cons_append, List.append_assoc, hasCue_append_mark hmark,
    List.singleton_append, hasCue_append_mark hmark, hname]

theorem hasCue_columnName (hword : IsWord keyword) (column : ColumnName) :
    HasCue keyword column.text ↔ HasCue keyword column.name := by
  have hbefore : ¬ HasCue keyword column.before :=
    not_hasCue_of_not_mem (openParen_not_mem_of_allBlank column.before_blank)
  have hafter : ¬ HasCue keyword column.after :=
    not_hasCue_of_not_mem (openParen_not_mem_of_allBlank column.after_blank)
  rw [ColumnName.text, List.append_assoc, hasCue_quoteName hword, or_iff_right hbefore,
    or_iff_left hafter]

theorem not_hasCue_blanks_openParen (hword : IsWord keyword) (hkeyword : keyword ≠ [])
    {blanks : Bytes} (hblanks : Bytes.AllBlank blanks) :
    ¬ HasCue keyword (blanks ++ [Ascii.openParen]) := by
  obtain ⟨b, hb⟩ := List.exists_mem_of_ne_nil keyword hkeyword
  have hletter := hword b hb
  apply not_hasCue_of_not_mem_keyword hb
  intro hmem
  rcases List.mem_append.mp hmem with hblank | hparen
  · have hnot := not_isBlank_of_isLetter hletter
    rw [hblanks b hblank] at hnot
    cases hnot
  · rw [List.mem_singleton.mp hparen] at hletter
    cases hletter

/-- A list in parentheses has the cues of its items, and the one that its parenthesis may end. -/
theorem hasCue_list (hword : IsWord keyword) (left : Bytes) {α : Type} (write : α → Bytes)
    (items : List α) :
    HasCue keyword (left ++ Ascii.openParen ::
        ([Ascii.comma].intercalate (items.map write) ++ [Ascii.closeParen])) ↔
      HasCue keyword (left ++ [Ascii.openParen]) ∨ ∃ item ∈ items, HasCue keyword (write item) := by
  have hcomma := isMark_of_isWord hword (Or.inr rfl)
  have hclose : Ascii.openParen ∉ [Ascii.closeParen] := by decide
  rw [hasCue_append_openParen hword, hasCue_append_of_no_openParen hclose hword,
    hasCue_intercalate_iff hcomma]

theorem hasCue_columnList (hword : IsWord keyword) (hkeyword : keyword ≠ []) (list : ColumnList) :
    HasCue keyword list.text ↔ ∃ column ∈ list.columns, HasCue keyword column.name := by
  have hgap := not_hasCue_blanks_openParen hword hkeyword list.gap_blank
  rw [ColumnList.text, hasCue_list hword, or_iff_right hgap]
  simp only [hasCue_columnName hword]

theorem hasCue_writeRow (hword : IsWord keyword) (hkeyword : keyword ≠ []) (row : List Literal) :
    HasCue keyword (Tuple.writeRow row) ↔ ∃ literal ∈ row, HasCue keyword literal.write := by
  have hopen := not_hasCue_blanks_openParen hword hkeyword Bytes.allBlank_nil
  have hlist := hasCue_list hword [] Literal.write row
  rwa [or_iff_right hopen] at hlist

theorem exists_writeRows {rows : List (List Literal)} (hrows : rows ≠ []) :
    ∃ rest, [Ascii.comma].intercalate (rows.map Tuple.writeRow) = Ascii.openParen :: rest := by
  obtain ⟨first, others, rfl⟩ := List.exists_cons_of_ne_nil hrows
  cases others with
  | nil => exact ⟨_, List.intercalate_singleton⟩
  | cons second others => exact ⟨_, List.intercalate_cons_cons⟩

/-- The cues behind the keyword are the cues of the literals. -/
theorem hasCue_writeRows (hword : IsWord keyword) (hkeyword : keyword ≠ []) {lead : Bytes}
    (hlead : Bytes.AllBlank lead) {rows : List (List Literal)} (hrows : rows ≠ []) :
    HasCue keyword (lead ++ ([Ascii.comma].intercalate (rows.map Tuple.writeRow) ++ ascii ";")) ↔
      ∃ row ∈ rows, ∃ literal ∈ row, HasCue keyword literal.write := by
  have hcomma := isMark_of_isWord hword (Or.inr rfl)
  have hcues := hasCue_intercalate_iff hcomma Tuple.writeRow rows
  have hopen : [Ascii.openParen].any (isBoundary <| some ·) = false := by decide
  have htail : Ascii.openParen ∉ ascii ";" := by decide
  have hfront := not_hasCue_blanks_openParen hword hkeyword hlead
  obtain ⟨rest, hrest⟩ := exists_writeRows hrows
  rw [hrest, ← List.singleton_append, hasCue_append_of_no_boundary hopen] at hcues
  rw [hrest, ← List.append_assoc, hasCue_append_of_no_openParen htail hword,
    hasCue_append_openParen hword, or_iff_right hfront, hcues]
  simp only [hasCue_writeRow hword hkeyword]

variable (insert : Insert)

/-- The cues in front of the rows are the cues of the names. -/
theorem hasCue_front_append (hword : IsWord keyword) (hkeyword : keyword ≠ []) {more : Bytes}
    (hmore : Ascii.openParen ∉ more) :
    HasCue keyword (insert.front ++ more) ↔ ∃ name ∈ insert.names, HasCue keyword name := by
  have hinsert : ¬ HasCue keyword (ascii "INSERT INTO ") := not_hasCue_of_not_mem (by decide)
  rw [hasCue_append_of_no_openParen hmore hword, front, hasCue_quoteName hword,
    or_iff_right hinsert, columnText, names]
  cases insert.columnList with
  | none => simp [not_hasCue_nil]
  | some list =>
    dsimp only
    rw [hasCue_columnList hword hkeyword]
    constructor
    · rintro (htable | ⟨column, hmem, hcue⟩)
      · exact ⟨_, List.mem_cons_self .., htable⟩
      · exact ⟨_, List.mem_cons_of_mem _ (List.mem_map_of_mem hmem), hcue⟩
    · rintro ⟨name, hmem, hcue⟩
      rcases List.mem_cons.mp hmem with rfl | hmem
      · exact Or.inl hcue
      · obtain ⟨column, hcolumn, rfl⟩ := List.mem_map.mp hmem
        exact Or.inr ⟨column, hcolumn, hcue⟩

end Cues

/-! ### The search among names and rows -/

section Search

variable (insert : Insert)

theorem length_keyword : insert.keyword.length = 6 :=
  Bytes.length_of_equalsIgnoringCase insert.keyword_eq

theorem openParen_not_mem_keyword : Ascii.openParen ∉ insert.keyword :=
  openParen_not_mem_of_isWord (isWord_of_equalsIgnoringCase insert.keyword_eq (by decide))

theorem hasRows_list : HasRows insert.lead insert.list.rows :=
  hasRows_rowSlots insert.rows_ne insert.lead

theorem text_rows :
    insert.list.rows.text = insert.lead ++ (insert.rowsText ++ ascii ";") :=
  text_rowSlots insert.rows_ne insert.lead

theorem text_list : insert.list.head ++ insert.list.rows.text = insert.text := by
  rw [text_rows]
  rfl

theorem isInsert_text : isInsert insert.text = true := by
  rw [text, head, front]
  rfl

theorem isFirstCue_list_iff {word : Bytes} (hword : IsWord word) (hlength : word.length = 6) :
    IsFirstCue word none insert.text insert.list.head insert.list.rows.text ↔
      insert.keyword = word ∧ ∀ name ∈ insert.names, ¬ HasCue word name := by
  have hne : word ≠ [] := by
    rintro rfl
    cases hlength
  have hlast : Bytes.NoTrailingBlank word := by
    intro b hb
    exact not_isBlank_of_isLetter (hword b (List.mem_of_mem_getLast? hb))
  have hmore : Ascii.openParen ∉ Ascii.space :: insert.keyword := by
    intro hmem
    rcases List.mem_cons.mp hmem with heq | hmem
    · cases heq
    · exact insert.openParen_not_mem_keyword hmem
  have hopens : opensTuple insert.list.rows.text = true := by
    obtain ⟨inner, hinner⟩ := insert.hasRows_list.exists_text
    exact opensTuple_iff.mpr ⟨_, inner, insert.lead_blank, hinner⟩
  have hboundary : isBoundary ((insert.front ++ [Ascii.space]).getLast?.or none) = true := by
    rw [List.getLast?_concat]
    rfl
  have hcue : IsCue word none (insert.front ++ [Ascii.space] ++ insert.keyword)
      insert.list.rows.text ↔ _ := isCue_append_iff (insert.length_keyword.trans hlength.symm)
  rw [hboundary, hopens, ← List.append_cons] at hcue
  have hhead : insert.list.head = insert.front ++ Ascii.space :: insert.keyword := rfl
  rw [isFirstCue_iff hne hlast, insert.text_list, hhead, hcue,
    insert.hasCue_front_append hword hne hmore]
  simp only [true_and, and_true, not_exists, not_and]

theorem hasCue_text_of_lower (hkeyword : insert.keyword = ascii "values") :
    HasCue (ascii "VALUES") insert.text ↔
      (∃ name ∈ insert.names, HasCue (ascii "VALUES") name) ∨
        ∃ row ∈ insert.rows, ∃ literal ∈ row, HasCue (ascii "VALUES") literal.write := by
  have hword : IsWord (ascii "VALUES") := by decide
  have hne : ascii "VALUES" ≠ [] := by decide
  -- the first letter of the keyword is in no cue of the other spelling
  have hmark : IsMark (ascii "VALUES") 0x76 := ⟨by decide, by decide, by decide⟩
  have hspace : Ascii.openParen ∉ [Ascii.space] := by decide
  have hletters : (ascii "alues").any (isBoundary <| some ·) = false := by decide
  have htext : insert.text = insert.front ++ [Ascii.space] ++ 0x76 :: (ascii "alues" ++
      (insert.lead ++ (insert.rowsText ++ ascii ";"))) := by
    rw [text, head, hkeyword, List.append_cons]
    simp only [List.append_assoc]
    rfl
  rw [htext, hasCue_append_mark hmark, insert.hasCue_front_append hword hne hspace,
    hasCue_append_of_no_boundary hletters, rowsText,
    hasCue_writeRows hword hne insert.lead_blank insert.rows_ne]

/-- No name and no literal has the text of a cue that is found before the keyword. -/
def IsUnambiguous (insert : Insert) : Prop :=
  (insert.keyword = ascii "VALUES" ∧ ∀ name ∈ insert.names, ¬ HasCue (ascii "VALUES") name) ∨
    (insert.keyword = ascii "values" ∧
      (∀ name ∈ insert.names, ¬ HasCue (ascii "VALUES") name ∧ ¬ HasCue (ascii "values") name) ∧
      ∀ row ∈ insert.rows, ∀ literal ∈ row, ¬ HasCue (ascii "VALUES") literal.write)

theorem cutAfterValues?_eq_list_iff :
    cutAfterValues? insert.text = some (insert.list.head, insert.list.rows.text) ↔
      insert.IsUnambiguous := by
  have hupper : IsWord (ascii "VALUES") := by decide
  have hlower : IsWord (ascii "values") := by decide
  rw [cutAfterValues?_eq_some_iff, insert.isFirstCue_list_iff hupper rfl,
    insert.isFirstCue_list_iff hlower rfl]
  refine or_congr_right ?_
  constructor
  · rintro ⟨hnone, hkeyword, hnames⟩
    rw [insert.hasCue_text_of_lower hkeyword, not_or] at hnone
    obtain ⟨hnames', hrows⟩ := hnone
    refine ⟨hkeyword, ?_, ?_⟩
    · exact fun name hmem => ⟨fun hcue => hnames' ⟨name, hmem, hcue⟩, hnames name hmem⟩
    · exact fun row hrow literal hliteral hcue => hrows ⟨row, hrow, literal, hliteral, hcue⟩
  · rintro ⟨hkeyword, hnames, hrows⟩
    refine ⟨?_, hkeyword, fun name hmem => (hnames name hmem).2⟩
    rw [insert.hasCue_text_of_lower hkeyword]
    rintro (⟨name, hmem, hcue⟩ | ⟨row, hrow, literal, hliteral, hcue⟩)
    · exact (hnames name hmem).1 hcue
    · exact hrows row hrow literal hliteral hcue

theorem values?_ne_none : values? insert.text ≠ .ok none :=
  values?_ne_ok_none insert.isInsert_text

theorem values?_eq_list_iff :
    values? insert.text = .ok (some insert.list) ↔ insert.IsUnambiguous := by
  rw [values?_eq_ok_some_iff, insert.cutAfterValues?_eq_list_iff]
  constructor
  · rintro ⟨-, hunambiguous, -⟩
    exact hunambiguous
  · intro hunambiguous
    exact ⟨insert.isInsert_text, hunambiguous, insert.lead, insert.lead_blank,
      insert.hasRows_list⟩

theorem contents_rowSlots (lead : Bytes) (rows : List (List Literal)) :
    (rowSlots lead rows).map Layout.Slot.content = rows.map Tuple.writeRow := by
  induction rows generalizing lead with
  | nil => rfl
  | cons row rest ih => rw [rowSlots, List.map_cons, List.map_cons, ih]

/-- **Which rows are found.** The rows that were written are found exactly if the line is
unambiguous. In all other lines the search fails or finds something else in their place. -/
theorem finds_rows_iff :
    insert.list.head.length = (insert.front ++ [Ascii.space]).length + 6 ∧
      insert.list.spans.map (fun span => insert.text.extract span.1 span.2) =
        insert.rows.map Tuple.writeRow ∧
      (values? insert.text = .ok (some insert.list) ↔ insert.IsUnambiguous) ∧
      ((∀ list, values? insert.text = .ok (some list) → list = insert.list) ↔
        insert.IsUnambiguous ∨ ∃ fault, values? insert.text = .error fault) := by
  refine ⟨?_, ?_, insert.values?_eq_list_iff, ?_⟩
  · rw [list, head, List.append_cons, List.length_append, insert.length_keyword]
  · rw [← insert.text_list]
    exact (ValuesList.extract_spans insert.list).trans (contents_rowSlots insert.lead insert.rows)
  · rw [← insert.values?_eq_list_iff]
    constructor
    · intro hlist
      cases hvalues : values? insert.text with
      | error fault => exact Or.inr ⟨fault, rfl⟩
      | ok found =>
        cases found with
        | none => exact absurd hvalues insert.values?_ne_none
        | some list =>
          obtain rfl := hlist list hvalues
          exact Or.inl rfl
    · rintro (hfound | ⟨fault, hfault⟩) list hvalues
      · rw [hfound] at hvalues
        cases hvalues
        rfl
      · rw [hfault] at hvalues
        cases hvalues

/-- The value of a literal holds a cue, and the keyword is in lower case. -/
theorem finds_row_in_literal :
    let insert : Insert :=
      { table := ascii "t", columnList := none, keyword := ascii "values", lead := ascii " "
        rows := [[⟨.quoted, ascii "a VALUES (1)"⟩]]
        keyword_eq := by decide, lead_blank := by decide, rows_ne := by decide }
    insert.text = ascii "INSERT INTO `t` values ('a VALUES (1)');" ∧
      insert.list.head.length = 22 ∧ insert.list.spans = [(23, 39)] ∧
      ∃ list, values? insert.text = .ok (some list) ∧
        list.head.length = 33 ∧ list.spans = [(34, 37)] := by
  intro insert
  have hfound : values? insert.text = .ok (some
      ⟨ascii "INSERT INTO `t` values ('a VALUES",
        ⟨[⟨ascii " ", ascii "(1)"⟩], ascii "');"⟩⟩) := eq_ok_of_toOption (by decide +kernel)
  exact ⟨by decide +kernel, by decide +kernel, by decide +kernel, _, hfound, by decide, by decide⟩

end Search

end Insert

end DumpMask.Statement
