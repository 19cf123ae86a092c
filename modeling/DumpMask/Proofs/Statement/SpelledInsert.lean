import DumpMask.Proofs.Statement.BareNames
import Mathlib.Data.List.Basic

/-!
# Statements in any spelling

A statement that writes rows may be spelled in many ways: with its words in any case, its names bare
or quoted, and blanks wherever they may stand. Its rows are looked for behind one of two spellings
of the keyword, and these may also occur in front of the rows, as a decoy in a name, or in a literal.
Main statements: which cues a statement has, and when the first of them is its own keyword.
-/

namespace DumpMask.Statement

inductive SpelledName where
  | bare (name : BareName)
  | quoted (name : Bytes)

/-- A column name in a list, with the blanks around it. -/
structure SpelledColumn where
  before : Bytes
  name : SpelledName
  after : Bytes
  before_blank : Bytes.AllBlank before
  after_blank : Bytes.AllBlank after

structure SpelledColumns where
  gap : Bytes
  columns : List SpelledColumn
  gap_blank : Bytes.AllBlank gap

/-- A statement that writes rows, in any spelling. The blanks in front of the keyword may only be
left out behind a list of columns. -/
structure SpelledInsert where
  header : Header
  table : SpelledName
  columns? : Option SpelledColumns
  gap : Bytes
  keyword : Bytes
  lead : Bytes
  rows : List (List Literal)
  header_gap_ne : header.gap ≠ []
  gap_blank : Bytes.AllBlank gap
  gap_ne : columns? = none → gap ≠ []
  keyword_eq : Bytes.equalsIgnoringCase keyword (ascii "VALUES") = true
  lead_blank : Bytes.AllBlank lead
  rows_ne : rows ≠ []

def SpelledName.text : SpelledName → Bytes
  | .bare name => name.text
  | .quoted name => quoteName name

def SpelledColumn.text (column : SpelledColumn) : Bytes :=
  column.before ++ (column.name.text ++ column.after)

def SpelledColumns.text (list : SpelledColumns) : Bytes :=
  list.gap ++ Ascii.openParen ::
    ([Ascii.comma].intercalate (list.columns.map SpelledColumn.text) ++ [Ascii.closeParen])

/-- A spelling of the keyword that is looked for. -/
def IsSought (word : Bytes) : Prop :=
  word = ascii "VALUES" ∨ word = ascii "values"

namespace SpelledInsert

def columnText (insert : SpelledInsert) : Bytes :=
  match insert.columns? with
  | none => []
  | some list => list.text

/-- The names of the table and of the columns. -/
def names (insert : SpelledInsert) : List SpelledName :=
  match insert.columns? with
  | none => [insert.table]
  | some list => insert.table :: list.columns.map SpelledColumn.name

/-- The line up to the blanks in front of the keyword. -/
def front (insert : SpelledInsert) : Bytes :=
  insert.header.text ++ (insert.table.text ++ insert.columnText)

def head (insert : SpelledInsert) : Bytes :=
  insert.front ++ insert.gap ++ insert.keyword

def rowsText (insert : SpelledInsert) : Bytes :=
  [Ascii.comma].intercalate (insert.rows.map Tuple.writeRow)

def text (insert : SpelledInsert) : Bytes :=
  insert.head ++ (insert.lead ++ (insert.rowsText ++ ascii ";"))

/-- The rows that were written, in their places. -/
def list (insert : SpelledInsert) : ValuesList :=
  ⟨insert.head, ⟨Insert.rowSlots insert.lead insert.rows, ascii ";"⟩⟩

/-- Something in front of the keyword is taken for it: a quoted name with a cue in it, or a table
name that is the keyword and has the list of columns behind it. -/
def HasDecoy (insert : SpelledInsert) (word : Bytes) : Prop :=
  (∃ name ∈ insert.names, HasCue word name.text) ∨
    insert.columns? ≠ none ∧ insert.table.text = word

def HasLiteralCue (insert : SpelledInsert) (word : Bytes) : Prop :=
  ∃ row ∈ insert.rows, ∃ literal ∈ row, HasCue word literal.write

end SpelledInsert

/-! ### A spelling that is looked for -/

section Words

variable {word keyword : Bytes}

namespace IsSought

theorem isWord (h : IsSought word) : IsWord word := by
  rcases h with rfl | rfl
  · decide
  · decide

theorem length_eq (h : IsSought word) : word.length = 6 := by
  rcases h with rfl | rfl
  · rfl
  · rfl

theorem ne_nil (h : IsSought word) : word ≠ [] := by
  rcases h with rfl | rfl
  · nofun
  · nofun

theorem noTrailingBlank (h : IsSought word) : Bytes.NoTrailingBlank word :=
  fun b hb => not_isBlank_of_isLetter (h.isWord b (List.mem_of_mem_getLast? hb))

/-- Both spellings are in one case, so a keyword in another spelling has a letter of its own. -/
theorem exists_not_mem (h : IsSought word)
    (hkeyword : Bytes.equalsIgnoringCase keyword (ascii "VALUES") = true) (hne : keyword ≠ word) :
    ∃ b ∈ keyword, b ∉ word := by
  by_contra! hall
  rcases h with rfl | rfl
  · have hupper : ∀ b ∈ ascii "VALUES", Ascii.toUpper (Ascii.toLower b) = b := by
      decide +kernel
    exact hne (Bytes.eq_of_equalsIgnoringCase hkeyword (fun b hb => hupper b (hall b hb)) hupper)
  · have hlower : ∀ b ∈ ascii "values", id (Ascii.toLower b) = b := by decide +kernel
    have hsame : (ascii "VALUES").map Ascii.toLower = (ascii "values").map Ascii.toLower := by
      decide +kernel
    rw [Bytes.equalsIgnoringCase, hsame, ← Bytes.equalsIgnoringCase] at hkeyword
    exact hne (Bytes.eq_of_equalsIgnoringCase hkeyword (fun b hb => hlower b (hall b hb)) hlower)

end IsSought

end Words

/-! ### Cues beside names -/

section Names

variable {word front blanks : Bytes}

theorem isBoundary_getLast?_append (front : Bytes) (hblanks : Bytes.AllBlank blanks)
    (hne : blanks ≠ []) : isBoundary (front ++ blanks).getLast? = true := by
  rw [List.getLast?_append, List.getLast?_eq_some_getLast hne, Option.some_or, isBoundary,
    hblanks _ (List.getLast_mem hne), Bool.true_or]

theorem isNameOctet_not_marks : ∀ b, isNameOctet b = true →
    isBoundary (some b) = false ∧ b ≠ Ascii.openParen :=
  Bytes.forall_octet (by decide +kernel)

theorem isNameOctet_of_isLetter (b : UInt8) (hb : Ascii.isLetter b = true) :
    isNameOctet b = true :=
  isNameOctet_of_isWordOctet b (isWordOctet_of_isLetter b hb)

theorem noTrailingBlank_append_of_isNameOctet {name : Bytes} (hne : name ≠ [])
    (hname : ∀ b ∈ name, isNameOctet b = true) : Bytes.NoTrailingBlank (front ++ name) := by
  intro b hb
  rw [Option.mem_def, List.getLast?_append, List.getLast?_eq_some_getLast hne, Option.some_or] at hb
  cases hb
  exact (isNameOctet_classes _ (hname _ (List.getLast_mem hne))).2.2

/-- The last word of a text begins where the boundary in front of it ends. -/
theorem append_inj_of_boundary {front front' name name' : Bytes}
    (h : front ++ name = front' ++ name') (hfront : isBoundary front.getLast? = true)
    (hfront' : isBoundary front'.getLast? = true) (hname : ∀ b ∈ name, isNameOctet b = true)
    (hname' : ∀ b ∈ name', isNameOctet b = true) : name = name' := by
  -- a front that goes on into the other name does not end at a boundary
  have hshort : ∀ {start rest name : Bytes}, isBoundary (start ++ rest).getLast? = true →
      (∀ b ∈ rest ++ name, isNameOctet b = true) → rest = [] := by
    intro start rest name hboundary hoctets
    by_contra hne
    have hlast := hoctets _ (List.mem_append_left name (List.getLast_mem hne))
    rw [List.getLast?_append, List.getLast?_eq_some_getLast hne, Option.some_or,
      (isNameOctet_not_marks _ hlast).1] at hboundary
    cases hboundary
  rcases List.append_eq_append_iff.mp h with ⟨rest, rfl, rfl⟩ | ⟨rest, rfl, rfl⟩
  · rw [hshort hfront' hname, List.nil_append]
  · rw [hshort hfront hname', List.nil_append]

theorem hasCue_bare_openParen (hword : IsWord word) (hne : word ≠ [])
    (hfront : isBoundary front.getLast? = true) (hopen : Ascii.openParen ∉ front)
    (name : BareName) (hblanks : Bytes.AllBlank blanks) :
    HasCue word (front ++ (name.text ++ (blanks ++ [Ascii.openParen]))) ↔ name.text = word := by
  have hname : ∀ b ∈ name.text, isNameOctet b = true := fun _ hb => name.isNameOctet_of_mem hb
  have hoctets : ∀ b ∈ word, isNameOctet b = true :=
    fun b hb => isNameOctet_of_isLetter b (hword b hb)
  constructor
  · rintro ⟨head, after, htext, start, rfl, hboundary, hopens⟩
    obtain ⟨blanks', more, hblanks', rfl⟩ := opensTuple_iff.mp hopens
    rw [Option.or_none] at hboundary
    have hfree : Ascii.openParen ∉ front ++ name.text ++ blanks := by
      simp only [List.mem_append, not_or]
      exact ⟨⟨hopen, fun hmem => (isNameOctet_not_marks _ (hname _ hmem)).2 rfl⟩,
        Insert.openParen_not_mem_of_allBlank hblanks⟩
    have hsplit : front ++ name.text ++ blanks ++ Ascii.openParen :: [] =
        start ++ word ++ blanks' ++ Ascii.openParen :: more := by
      simpa only [List.append_assoc] using htext.symm
    obtain ⟨hcut, -, -⟩ := (List.append_cons_inj_of_notMem hfree List.not_mem_nil).mp hsplit
    have hkept := congrArg Bytes.splitTrailing hcut
    rw [Bytes.splitTrailing_append_of_noTrailingBlank
        (noTrailingBlank_append_of_isNameOctet name.text_ne hname) hblanks,
      Bytes.splitTrailing_append_of_noTrailingBlank
        (noTrailingBlank_append_of_isNameOctet hne hoctets) hblanks'] at hkept
    exact append_inj_of_boundary (Prod.mk.inj hkept).1 hfront hboundary hname hoctets
  · rintro rfl
    refine ⟨front ++ name.text, blanks ++ [Ascii.openParen], by simp, front, rfl, ?_, ?_⟩
    · rw [Option.or_none]
      exact hfront
    · exact opensTuple_iff.mpr ⟨blanks, [], hblanks, rfl⟩

namespace SpelledName

theorem ne_word_of_quoted (hword : IsWord word) (name : Bytes) :
    (SpelledName.quoted name).text ≠ word := by
  rintro rfl
  cases hword Ascii.backtick (List.mem_cons_self ..)

theorem not_hasCue_bare (name : BareName) : ¬ HasCue word (SpelledName.bare name).text :=
  not_hasCue_of_not_mem fun hmem =>
    (isNameOctet_not_marks _ (name.isNameOctet_of_mem hmem)).2 rfl

theorem hasCue_quoted (hword : IsWord word) (name : Bytes) :
    HasCue word (SpelledName.quoted name).text ↔ HasCue word name := by
  have hcue := Insert.hasCue_quoteName hword [] name []
  rwa [List.nil_append, List.append_nil, or_iff_right not_hasCue_nil,
    or_iff_left not_hasCue_nil] at hcue

/-- What is behind a name makes a cue of the name only if it opens a list. -/
theorem hasCue_append_text (hword : IsWord word) (hopen : Ascii.openParen ∉ front)
    (name : SpelledName) {more : Bytes} (hmore : Ascii.openParen ∉ more) :
    HasCue word (front ++ (name.text ++ more)) ↔ HasCue word name.text := by
  have hfront : ¬ HasCue word front := not_hasCue_of_not_mem hopen
  rw [← List.append_assoc, hasCue_append_of_no_openParen hmore hword]
  cases name with
  | bare name =>
    refine iff_of_false (not_hasCue_of_not_mem ?_) (not_hasCue_bare name)
    rw [List.mem_append, not_or]
    exact ⟨hopen, fun hmem => (isNameOctet_not_marks _ (name.isNameOctet_of_mem hmem)).2 rfl⟩
  | quoted name =>
    have hcue := Insert.hasCue_quoteName hword front name []
    rw [List.append_nil, or_iff_right hfront, or_iff_left not_hasCue_nil] at hcue
    rw [hasCue_quoted hword]
    exact hcue

theorem hasCue_append_openParen (hword : IsWord word) (hne : word ≠ [])
    (hfront : isBoundary front.getLast? = true) (hopen : Ascii.openParen ∉ front)
    (name : SpelledName) (hblanks : Bytes.AllBlank blanks) :
    HasCue word (front ++ (name.text ++ (blanks ++ [Ascii.openParen]))) ↔
      HasCue word name.text ∨ name.text = word := by
  cases name with
  | bare name =>
    rw [or_iff_right (not_hasCue_bare name)]
    exact hasCue_bare_openParen hword hne hfront hopen name hblanks
  | quoted name =>
    have hnone : ¬ HasCue word front := not_hasCue_of_not_mem hopen
    have hblank := Insert.not_hasCue_blanks_openParen hword hne hblanks
    rw [or_iff_left (ne_word_of_quoted hword name), hasCue_quoted hword]
    exact (Insert.hasCue_quoteName hword front name _).trans
      ((or_iff_right hnone).trans (or_iff_left hblank))

end SpelledName

theorem SpelledColumn.hasCue_text (hword : IsWord word) (column : SpelledColumn) :
    HasCue word column.text ↔ HasCue word column.name.text :=
  column.name.hasCue_append_text hword
    (Insert.openParen_not_mem_of_allBlank column.before_blank)
    (Insert.openParen_not_mem_of_allBlank column.after_blank)

end Names

theorem Header.openParen_not_mem_text (header : Header) : Ascii.openParen ∉ header.text := by
  have hword : ∀ {word : Bytes}, word.all isWordOctet = true → Ascii.openParen ∉ word := by
    intro word hall hmem
    cases List.all_eq_true.mp hall _ hmem
  have hblank : ∀ {blanks : Bytes}, Bytes.AllBlank blanks → Ascii.openParen ∉ blanks :=
    Insert.openParen_not_mem_of_allBlank
  have hwords : ∀ w ∈ header.words, Ascii.openParen ∉ w.text := by
    intro w hw hmem
    rcases List.mem_append.mp hmem with hgap | hmem
    · exact hblank w.gap_blank hgap
    · rcases List.mem_append.mp hw with hmodifier | hinto
      · exact hword (all_isWordOctet_of_isModifier (header.modifiers_eq w hmodifier)) hmem
      · have hkeyword := header.into_eq w (Option.mem_toList.mp hinto)
        exact hword (all_isWordOctet_of_isKeyword (by decide) hkeyword) hmem
  simp only [Header.text, List.mem_append, List.mem_flatMap, not_or, not_exists, not_and]
  exact ⟨hblank header.lead_blank, hword header.all_isWordOctet_keyword, hwords,
    hblank header.gap_blank⟩

theorem Header.isBoundary_getLast? (header : Header) (hgap : header.gap ≠ []) :
    isBoundary header.text.getLast? = true := by
  rw [Header.text, ← List.append_assoc, ← List.append_assoc]
  exact isBoundary_getLast?_append _ header.gap_blank hgap

/-! ### The cues of a statement -/

namespace SpelledInsert

section Cues

variable (insert : SpelledInsert) {word : Bytes}

/-- The cues in front of the keyword are decoys. -/
theorem hasCue_front_append (hword : IsWord word) (hne : word ≠ []) {more : Bytes}
    (hmore : Ascii.openParen ∉ more) :
    HasCue word (insert.front ++ more) ↔ insert.HasDecoy word := by
  have hopen := insert.header.openParen_not_mem_text
  have hboundary := insert.header.isBoundary_getLast? insert.header_gap_ne
  rw [hasCue_append_of_no_openParen hmore hword, front, HasDecoy, names, columnText]
  cases insert.columns? with
  | none =>
    have hcue := insert.table.hasCue_append_text hword hopen List.not_mem_nil
    simpa using hcue
  | some list =>
    have htable := insert.table.hasCue_append_openParen hword hne hboundary hopen list.gap_blank
    have hlist := Insert.hasCue_list hword (insert.header.text ++ (insert.table.text ++ list.gap))
      SpelledColumn.text list.columns
    simp only [SpelledColumn.hasCue_text hword, List.append_assoc, htable] at hlist
    simp only [SpelledColumns.text, hlist, List.mem_cons, List.mem_map, exists_eq_or_imp,
      ne_eq, reduceCtorEq, not_false_eq_true, true_and]
    simp only [exists_exists_and_eq_and]
    exact or_right_comm

theorem length_keyword : insert.keyword.length = 6 :=
  Bytes.length_of_equalsIgnoringCase insert.keyword_eq

theorem isWord_keyword : IsWord insert.keyword :=
  Insert.isWord_of_equalsIgnoringCase insert.keyword_eq (by decide)

theorem openParen_not_mem_gap : Ascii.openParen ∉ insert.gap :=
  Insert.openParen_not_mem_of_allBlank insert.gap_blank

/-- A keyword that is not the one that is looked for parts the names from what follows. -/
theorem hasCue_head_append (hsought : IsSought word) (hkeyword : insert.keyword ≠ word)
    (more : Bytes) :
    HasCue word (insert.head ++ more) ↔ insert.HasDecoy word ∨ HasCue word more := by
  -- the keyword has a letter that no cue has in it
  obtain ⟨mark, hmem, hnot⟩ := hsought.exists_not_mem insert.keyword_eq hkeyword
  obtain ⟨before, after, hcut⟩ := List.append_of_mem hmem
  have hletters : IsWord (before ++ mark :: after) := hcut ▸ insert.isWord_keyword
  have hmark : IsMark word mark := by
    have hname := isNameOctet_of_isLetter mark (hletters mark (by simp))
    exact ⟨hnot, (isNameOctet_not_marks mark hname).1, (isNameOctet_not_marks mark hname).2⟩
  have hbefore : Ascii.openParen ∉ insert.gap ++ before := by
    rw [List.mem_append, not_or]
    refine ⟨insert.openParen_not_mem_gap, fun hparen => ?_⟩
    cases hletters _ (List.mem_append_left _ hparen)
  have hafter : after.any (isBoundary <| some ·) = false := by
    rw [List.any_eq_false]
    intro b hb
    have hletter := hletters b (List.mem_append_right _ (List.mem_cons_of_mem _ hb))
    rw [(isNameOctet_not_marks b (isNameOctet_of_isLetter b hletter)).1]
    nofun
  have htext : insert.head ++ more =
      insert.front ++ (insert.gap ++ before) ++ mark :: (after ++ more) := by
    rw [head, hcut]
    simp only [List.append_assoc, List.cons_append]
  rw [htext, hasCue_append_mark hmark,
    insert.hasCue_front_append hsought.isWord hsought.ne_nil hbefore,
    hasCue_append_of_no_boundary hafter]

/-- Where the keyword is not the one that is looked for, a statement has the cues of its names and
of its literals. -/
theorem hasCue_text_of_ne (hsought : IsSought word) (hkeyword : insert.keyword ≠ word) :
    HasCue word insert.text ↔ insert.HasDecoy word ∨ insert.HasLiteralCue word := by
  rw [text, insert.hasCue_head_append hsought hkeyword, rowsText,
    Insert.hasCue_writeRows hsought.isWord hsought.ne_nil insert.lead_blank insert.rows_ne,
    HasLiteralCue]

theorem hasRows_list : HasRows insert.lead insert.list.rows :=
  Insert.hasRows_rowSlots insert.rows_ne insert.lead

theorem text_list : insert.list.head ++ insert.list.rows.text = insert.text :=
  congrArg (insert.head ++ ·) (Insert.text_rowSlots insert.rows_ne insert.lead)

theorem isInsert_text : isInsert insert.text = true := by
  have hends := endsWord_of_allBlank insert.header.gap_blank insert.header_gap_ne
  rw [text, head, front]
  simp only [List.append_assoc]
  exact insert.header.isInsert_text_append (hends _)

theorem isBoundary_getLast?_gap : isBoundary (insert.front ++ insert.gap).getLast? = true := by
  by_cases hgap : insert.gap = []
  · cases hcolumns : insert.columns? with
    | none => exact absurd hgap (insert.gap_ne hcolumns)
    | some list =>
      have hlast : insert.front ++ insert.gap = insert.header.text ++ (insert.table.text ++
          (list.gap ++ Ascii.openParen ::
            [Ascii.comma].intercalate (list.columns.map SpelledColumn.text))) ++
              [Ascii.closeParen] := by
        rw [hgap, front, columnText, hcolumns]
        simp [SpelledColumns.text]
      rw [hlast, List.getLast?_concat]
      rfl
  · exact isBoundary_getLast?_append insert.front insert.gap_blank hgap

/-- The keyword that was written is a cue. -/
theorem isCue_head_iff (hsought : IsSought word) :
    IsCue word none insert.head insert.list.rows.text ↔ insert.keyword = word := by
  have hopens : opensTuple insert.list.rows.text = true := by
    obtain ⟨inner, hinner⟩ := insert.hasRows_list.exists_text
    exact opensTuple_iff.mpr ⟨_, inner, insert.lead_blank, hinner⟩
  rw [head, isCue_append_iff (insert.length_keyword.trans hsought.length_eq.symm), Option.or_none,
    insert.isBoundary_getLast?_gap, hopens, eq_self, and_true, and_true]

theorem isFirstCue_list_iff (hsought : IsSought word) :
    IsFirstCue word none insert.text insert.list.head insert.list.rows.text ↔
      insert.keyword = word ∧ ¬ insert.HasDecoy word := by
  have hmore : Ascii.openParen ∉ insert.gap ++ insert.keyword := by
    rw [List.mem_append, not_or]
    exact ⟨insert.openParen_not_mem_gap, openParen_not_mem_of_isWord insert.isWord_keyword⟩
  have hhead : insert.list.head = insert.head := rfl
  have hcut : insert.head = insert.front ++ (insert.gap ++ insert.keyword) :=
    List.append_assoc ..
  rw [isFirstCue_iff hsought.ne_nil hsought.noTrailingBlank, insert.text_list, hhead,
    insert.isCue_head_iff hsought, hcut,
    insert.hasCue_front_append hsought.isWord hsought.ne_nil hmore]
  simp only [true_and]

theorem hasCue_text_of_keyword (hsought : IsSought word) (hkeyword : insert.keyword = word) :
    HasCue word insert.text :=
  ⟨_, _, insert.text_list, (insert.isCue_head_iff hsought).mpr hkeyword⟩

end Cues

end SpelledInsert

end DumpMask.Statement
