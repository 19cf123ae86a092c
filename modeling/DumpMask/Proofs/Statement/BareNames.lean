import DumpMask.Proofs.Statement.QuotedNames
import DumpMask.Proofs.Text.Validity

/-!
# Reading bare names

The words of a header are made of letters and underscores, but a bare name may also have digits and
dollar signs in it. So where no `INTO` stands in front, a name that goes on behind a header word loses
this word. Main statement: which table is read from a line whose table has a bare name, and that it is
the table that was written but for such names and for backticks in the name of the database.
-/

namespace DumpMask.Statement

/-- A word that is skipped in front of a name. -/
def IsHeaderWord (word : Bytes) : Prop :=
  isKeyword "INTO" word = true ∨ isModifier word = true

instance (word : Bytes) : Decidable (IsHeaderWord word) :=
  inferInstanceAs (Decidable (_ ∨ _))

/-- A name that needs no backticks. -/
structure BareName where
  name : String
  name_ne : name ≠ ""
  octets : (Utf8.encode name).all isNameOctet = true

inductive DatabaseName where
  | bare (name : BareName)
  | quoted (name : String)

/-- The bare name of a table, perhaps behind that of a database. -/
structure BareTable where
  database? : Option DatabaseName
  table : BareName

def BareName.text (name : BareName) : Bytes :=
  Utf8.encode name.name

def DatabaseName.text : DatabaseName → Bytes
  | .bare name => name.text
  | .quoted name => Utf8.encode (Identifier.quote name)

namespace BareTable

def text (table : BareTable) : Bytes :=
  match table.database? with
  | none => table.table.text
  | some database => database.text ++ Ascii.dot :: table.table.text

/-- The bare name that comes first. -/
def lead? (table : BareTable) : Option BareName :=
  match table.database? with
  | none => some table.table
  | some (.bare name) => some name
  | some (.quoted _) => none

end BareTable

theorem not_isHeaderWord_nil : ¬ IsHeaderWord [] := by
  decide

/-! ### Header words in front of a text -/

section Words

variable {gap text : Bytes}

theorem takeWhile_dropWhile_isWordOctet (text : Bytes) :
    (text.dropWhile isWordOctet).takeWhile isWordOctet = [] := by
  cases hrest : text.dropWhile isWordOctet with
  | nil => rfl
  | cons b rest =>
    have hnot := List.head?_dropWhile_not isWordOctet text
    rw [hrest] at hnot
    exact List.takeWhile_cons_of_neg (Bool.eq_false_iff.mp hnot)

theorem afterModifiers_gap (hgap : Bytes.AllBlank gap) (hstart : Bytes.NoLeadingBlank text)
    (hword : IsHeaderWord (text.takeWhile isWordOctet))
    (hrest : Bytes.NoLeadingBlank (text.dropWhile isWordOctet)) :
    afterModifiers (gap ++ text) = text.dropWhile isWordOctet := by
  rw [afterModifiers, firstWord_gap hgap hstart]
  dsimp only
  by_cases hinto : isKeyword "INTO" (text.takeWhile isWordOctet) = true
  · rw [if_pos hinto]
  · -- a modifier is skipped, and the next word is empty
    have hnone : (firstWord (text.dropWhile isWordOctet)).1 = [] :=
      (congrArg Prod.fst (firstWord_gap Bytes.allBlank_nil hrest)).trans
        (takeWhile_dropWhile_isWordOctet text)
    rw [if_neg hinto, dif_pos (hword.resolve_left hinto)]
    apply afterModifiers_of_name
    · rw [hnone]
      rfl
    · rw [hnone]
      rfl

end Words

namespace Header

variable (header : Header)

/-- The text from which a name is read: without `INTO` a header word is skipped in front of it. -/
def nameText (text : Bytes) : Bytes :=
  if header.into? = none ∧ IsHeaderWord (text.takeWhile isWordOctet) then
    text.dropWhile isWordOctet
  else text

theorem table?_nameText {text : Bytes} (hgap : header.gap ≠ [])
    (hstart : Bytes.NoLeadingBlank text)
    (hrest : header.into? = none → IsHeaderWord (text.takeWhile isWordOctet) →
      Bytes.NoLeadingBlank (text.dropWhile isWordOctet)) :
    table? (header.text ++ text) = (qualifiedName? (header.nameText text)).bind Utf8.decode := by
  have hends := endsWord_of_allBlank header.gap_blank hgap text
  have hfirst := firstWord_gap header.gap_blank hstart
  rw [nameText]
  split
  · next hcut =>
    obtain ⟨hinto, hword⟩ := hcut
    have hrest := hrest hinto hword
    have hwords : header.words = header.modifiers := by
      rw [words, hinto, Option.toList_none, List.append_nil]
    rw [table?, if_pos (header.isInsert_text_append hends), header.firstWord_text_append hends,
      hwords]
    dsimp only
    rw [afterModifiers_modifiers header.modifiers_eq hends,
      afterModifiers_gap header.gap_blank hstart hword hrest, Bytes.trimStart,
      Bytes.dropWhile_of_noLeadingBlank hrest]
    rfl
  · next hkept =>
    apply header.table?_text_append hstart hends
    intro hinto
    rw [hfirst]
    have hword : ¬ IsHeaderWord (text.takeWhile isWordOctet) := fun hword => hkept ⟨hinto, hword⟩
    rw [IsHeaderWord, not_or, Bool.not_eq_true, Bool.not_eq_true] at hword
    exact hword

end Header

/-! ### One name -/

/-- No name goes on into the text, and no other name follows. -/
def EndsName (text : Bytes) : Prop :=
  ∀ b ∈ text.head?, isNameOctet b = false ∧ b ≠ Ascii.dot

theorem isNameOctet_classes : ∀ b, isNameOctet b = true →
    b < 0x80 ∧ b ≠ Ascii.backtick ∧ Ascii.isBlank b = false :=
  Bytes.forall_octet (by decide +kernel)

theorem isNameOctet_of_isWordOctet : ∀ b, isWordOctet b = true → isNameOctet b = true :=
  Bytes.forall_octet (by decide +kernel)

theorem identifier?_bare {name tail : Bytes} (hne : name ≠ [])
    (hname : ∀ b ∈ name, isNameOctet b = true) (htail : ∀ b ∈ tail.head?, isNameOctet b = false) :
    identifier? (name ++ tail) = some (name, tail) := by
  cases name with
  | nil => exact absurd rfl hne
  | cons b rest =>
    have hb := hname b (List.mem_cons_self ..)
    have hrest : ∀ c ∈ rest, isNameOctet c = true :=
      fun c hc => hname c (List.mem_cons_of_mem b hc)
    rw [List.cons_append, identifier?, if_neg (isNameOctet_classes b hb).2.1, if_pos hb,
      takeWhile_run hrest htail, dropWhile_run hrest htail]

namespace BareName

variable (name : BareName)

/-- The part of a name that may be taken for a header word. -/
def word : Bytes := name.text.takeWhile isWordOctet

def afterWord : Bytes := name.text.dropWhile isWordOctet

theorem text_ne : name.text ≠ [] := by
  intro hnil
  have hempty : Utf8.encode name.name = Utf8.encode "" := hnil
  exact name.name_ne (Utf8.encode_inj.mp hempty)

theorem isNameOctet_of_mem {b : UInt8} (hb : b ∈ name.text) : isNameOctet b = true :=
  List.all_eq_true.mp name.octets b hb

theorem isNameOctet_of_mem_afterWord {b : UInt8} (hb : b ∈ name.afterWord) :
    isNameOctet b = true :=
  name.isNameOctet_of_mem ((List.dropWhile_sublist _).subset hb)

theorem word_append_afterWord : name.word ++ name.afterWord = name.text :=
  List.takeWhile_append_dropWhile

theorem afterWord_ne (hname : ¬ IsHeaderWord name.text) (hword : IsHeaderWord name.word) :
    name.afterWord ≠ [] := by
  intro hnil
  have happend := name.word_append_afterWord
  rw [hnil, List.append_nil] at happend
  rw [happend] at hword
  exact hname hword

theorem afterWord_ne_text (hword : IsHeaderWord name.word) : name.afterWord ≠ name.text := by
  intro hsame
  have happend := name.word_append_afterWord
  rw [hsame, List.append_left_eq_self] at happend
  rw [happend] at hword
  exact not_isHeaderWord_nil hword

/-- What is read of a name that comes first. -/
def read (header : Header) : Bytes :=
  if header.into? = none ∧ IsHeaderWord name.word then name.afterWord else name.text

theorem read_ne {header : Header} (hname : header.into? = none → ¬ IsHeaderWord name.text) :
    name.read header ≠ [] := by
  rw [read]
  split
  · next hcut => exact name.afterWord_ne (hname hcut.1) hcut.2
  · exact name.text_ne

theorem read_eq_text_iff {header : Header} :
    name.read header = name.text ↔ (header.into? = none → ¬ IsHeaderWord name.word) := by
  rw [read]
  split
  · next hcut =>
    constructor
    · intro hsame
      exact absurd hsame (name.afterWord_ne_text hcut.2)
    · intro hkept
      exact absurd hcut.2 (hkept hcut.1)
  · next hkept =>
    rw [eq_self, true_iff]
    exact fun hinto hword => hkept ⟨hinto, hword⟩

theorem isNameOctet_of_mem_read (header : Header) {b : UInt8} (hb : b ∈ name.read header) :
    isNameOctet b = true := by
  rw [read] at hb
  split at hb
  · exact name.isNameOctet_of_mem_afterWord hb
  · exact name.isNameOctet_of_mem hb

/-- What is read of a name is a text. -/
theorem exists_encode_read (header : Header) : ∃ text, Utf8.encode text = name.read header :=
  Utf8.isValid_iff_exists_encode.mp <| Utf8.isValid_of_isAscii fun _ hb =>
    (isNameOctet_classes _ (name.isNameOctet_of_mem_read header hb)).1

end BareName

/-! ### Names in front -/

section Lead

variable {header : Header} {octets tail : Bytes}

theorem noLeadingBlank_of_isNameOctet (hne : octets ≠ [])
    (hoctets : ∀ b ∈ octets, isNameOctet b = true) (tail : Bytes) :
    Bytes.NoLeadingBlank (octets ++ tail) := by
  cases octets with
  | nil => exact absurd rfl hne
  | cons b rest =>
    have hb := hoctets b (List.mem_cons_self ..)
    exact Bytes.noLeadingBlank_cons_iff.mpr (isNameOctet_classes b hb).2.2

theorem not_isWordOctet_of_not_isNameOctet {b : UInt8} (hb : isNameOctet b = false) :
    isWordOctet b = false := by
  cases hword : isWordOctet b with
  | false => rfl
  | true =>
    rw [isNameOctet_of_isWordOctet b hword] at hb
    cases hb

theorem nameText_append (name : BareName) (htail : ∀ b ∈ tail.head?, isNameOctet b = false) :
    header.nameText (name.text ++ tail) = name.read header ++ tail := by
  have hstop : ∀ b ∈ tail.head?, isWordOctet b = false :=
    fun b hb => not_isWordOctet_of_not_isNameOctet (htail b hb)
  rw [Header.nameText, takeWhile_append_stop hstop, dropWhile_append_stop hstop, BareName.read,
    BareName.word, BareName.afterWord]
  split
  · rfl
  · rfl

theorem table?_bare_lead (hgap : header.gap ≠ []) (name : BareName)
    (hname : header.into? = none → ¬ IsHeaderWord name.text)
    (htail : ∀ b ∈ tail.head?, isNameOctet b = false) :
    table? (header.text ++ (name.text ++ tail)) =
      (qualifiedName? (name.read header ++ tail)).bind Utf8.decode := by
  have hstop : ∀ b ∈ tail.head?, isWordOctet b = false :=
    fun b hb => not_isWordOctet_of_not_isNameOctet (htail b hb)
  have hstart := noLeadingBlank_of_isNameOctet name.text_ne
    (fun _ hb => name.isNameOctet_of_mem hb) tail
  rw [← nameText_append name htail]
  apply header.table?_nameText hgap hstart
  intro hinto hword
  rw [takeWhile_append_stop hstop] at hword
  rw [dropWhile_append_stop hstop]
  exact noLeadingBlank_of_isNameOctet (name.afterWord_ne (hname hinto) hword)
    (fun _ hb => name.isNameOctet_of_mem_afterWord hb) tail

theorem table?_quoted_lead (hgap : header.gap ≠ []) (text : Bytes) :
    table? (header.text ++ Ascii.backtick :: text) =
      (qualifiedName? (Ascii.backtick :: text)).bind Utf8.decode := by
  have hstart : Bytes.NoLeadingBlank (Ascii.backtick :: text) :=
    Bytes.noLeadingBlank_cons_iff.mpr (by decide)
  have hnone : ¬ IsHeaderWord ((Ascii.backtick :: text).takeWhile isWordOctet) :=
    not_isHeaderWord_nil
  have hkept : header.nameText (Ascii.backtick :: text) = Ascii.backtick :: text :=
    if_neg fun hcut => hnone hcut.2
  rw [header.table?_nameText hgap hstart fun _ hword => absurd hword hnone, hkept]

theorem qualifiedName?_bare (hne : octets ≠ []) (hoctets : ∀ b ∈ octets, isNameOctet b = true)
    (htail : EndsName tail) : qualifiedName? (octets ++ tail) = some octets := by
  apply qualifiedName?_of_end (identifier?_bare hne hoctets fun b hb => (htail b hb).1)
  intro hdot
  exact (htail _ hdot).2 rfl

theorem head?_dot (tail : Bytes) : ∀ b ∈ (Ascii.dot :: tail).head?, isNameOctet b = false := by
  rintro b ⟨⟩
  decide

theorem qualifiedName?_bare_dot (hne : octets ≠ [])
    (hoctets : ∀ b ∈ octets, isNameOctet b = true) (tail : Bytes) :
    qualifiedName? (octets ++ Ascii.dot :: tail) = qualifiedName? tail :=
  qualifiedName?_of_dot (identifier?_bare hne hoctets (head?_dot tail))

end Lead

/-! ### Which table is read -/

namespace BareTable

variable (table : BareTable)

/-- The octets that are taken for the name of the table. -/
def read (header : Header) : Bytes :=
  match table.database? with
  | none => table.table.read header
  | some (.bare _) => table.table.text
  | some (.quoted database) =>
    if '\x60' ∈ database.toList then Utf8.encode (beforeBacktick database) else table.table.text

variable {header : Header} {rest : Bytes}

theorem exists_encode_read (header : Header) : ∃ text, Utf8.encode text = table.read header := by
  rw [read]
  split
  · exact table.table.exists_encode_read header
  · exact ⟨_, rfl⟩
  · split
    · exact ⟨_, rfl⟩
    · exact ⟨_, rfl⟩

theorem table?_read (hgap : header.gap ≠ []) (hrest : EndsName rest)
    (hlead : header.into? = none → ∀ name ∈ table.lead?, ¬ IsHeaderWord name.text) :
    table? (header.text ++ (table.text ++ rest)) = Utf8.decode (table.read header) := by
  have htable : qualifiedName? (table.table.text ++ rest) = some table.table.text :=
    qualifiedName?_bare table.table.text_ne (fun _ hb => table.table.isNameOctet_of_mem hb) hrest
  obtain ⟨database?, name⟩ := table
  cases database? with
  | none =>
    have hname := fun hinto => hlead hinto name rfl
    have hread := qualifiedName?_bare (name.read_ne hname)
      (fun _ hb => name.isNameOctet_of_mem_read header hb) hrest
    exact (table?_bare_lead hgap name hname fun b hb => (hrest b hb).1).trans
      (congrArg (·.bind Utf8.decode) hread)
  | some database =>
    cases database with
    | bare database =>
      have hname := fun hinto => hlead hinto database rfl
      have hread := qualifiedName?_bare_dot (database.read_ne hname)
        (fun _ hb => database.isNameOctet_of_mem_read header hb) (name.text ++ rest)
      rw [htable] at hread
      rw [text, List.append_assoc]
      exact (table?_bare_lead hgap database hname (head?_dot _)).trans
        (congrArg (·.bind Utf8.decode) hread)
    | quoted database =>
      have hfront : ∃ inner, Utf8.encode (Identifier.quote database) = Ascii.backtick :: inner :=
        ⟨_, encode_quote database⟩
      have hread : qualifiedName? (Utf8.encode (Identifier.quote database) ++
          Ascii.dot :: (name.text ++ rest)) = some (read ⟨some (.quoted database), name⟩ header) := by
        rw [read]
        by_cases hmem : '\x60' ∈ database.toList
        · exact (TableName.qualifiedName?_quote fun hfree => absurd hmem hfree).trans
            (congrArg some (if_pos hmem).symm)
        · obtain ⟨after, hdatabase, hfree, -⟩ := identifier?_encode_quote database
            (Ascii.dot :: (name.text ++ rest))
          rw [hfree hmem] at hdatabase
          exact ((qualifiedName?_of_dot hdatabase).trans htable).trans
            (congrArg some (if_neg hmem).symm)
      obtain ⟨inner, hinner⟩ := hfront
      rw [text, List.append_assoc]
      dsimp only [DatabaseName.text]
      rw [List.cons_append]
      rw [hinner] at hread ⊢
      exact (table?_quoted_lead hgap _).trans (congrArg (·.bind Utf8.decode) hread)

/-- The name that was written is read, unless it goes on behind a header word or the name of the
database has a backtick in it. -/
theorem read_eq_text_iff :
    table.read header = table.table.text ↔
      (table.database? = none → header.into? = none → ¬ IsHeaderWord table.table.word) ∧
        ∀ database, table.database? = some (.quoted database) → '\x60' ∈ database.toList →
          beforeBacktick database = table.table.name := by
  obtain ⟨database?, name⟩ := table
  cases database? with
  | none => simp [read, name.read_eq_text_iff]
  | some database =>
    cases database with
    | bare database => simp [read]
    | quoted database =>
      by_cases hmem : '\x60' ∈ database.toList
      · simp [read, hmem, BareName.text, Utf8.encode_inj]
      · simp [read, hmem]

end BareTable

/-- **Which table with a bare name is read.** A name is read in every line, and it is the one that was
written unless a header word in front of it was cut off, or the database has a backtick in its
name. -/
theorem bare_table_read_iff (header : Header) (table : BareTable) {rest : Bytes}
    (hgap : header.gap ≠ []) (hrest : EndsName rest)
    (hlead : header.into? = none → ∀ name ∈ table.lead?, ¬ IsHeaderWord name.text) :
    let line := header.text ++ (table.text ++ rest)
    (∃ name, table? line = some name ∧ Utf8.encode name = table.read header) ∧
      (table? line = some table.table.name ↔
        (table.database? = none → header.into? = none → ¬ IsHeaderWord table.table.word) ∧
          ∀ database, table.database? = some (.quoted database) → '\x60' ∈ database.toList →
            beforeBacktick database = table.table.name) := by
  intro line
  obtain ⟨name, hname⟩ := table.exists_encode_read header
  have htable : table? line = some name := by
    rw [table.table?_read hgap hrest hlead, ← hname, Utf8.decode_encode]
  refine ⟨⟨name, htable, hname⟩, ?_⟩
  rw [htable, ← table.read_eq_text_iff, ← hname, Option.some_inj, BareName.text, Utf8.encode_inj]

/-- Behind the name of a database a name may begin with any word. -/
theorem bare_table_read_database :
    let header : Header :=
      { lead := [], keyword := ascii "insert", gap := ascii "\t"
        modifiers := [⟨ascii " ", ascii "Ignore", by decide, by decide⟩], into? := none
        lead_blank := by decide, keyword_eq := by decide, modifiers_eq := by decide
        into_eq := by decide, gap_blank := by decide }
    let table : BareTable :=
      ⟨some (.bare ⟨"shop2", by decide, by decide⟩), ⟨"into1", by decide, by decide⟩⟩
    let line := header.text ++ (table.text ++ ascii " VALUES (1);")
    line = ascii "insert Ignore\tshop2.into1 VALUES (1);" ∧ header.gap ≠ [] ∧
      EndsName (ascii " VALUES (1);") ∧ (∀ name ∈ table.lead?, ¬ IsHeaderWord name.text) ∧
      table? line = some "into1" := by
  intro header table line
  have hgap : header.gap ≠ [] := by decide
  have hrest : EndsName (ascii " VALUES (1);") := by
    rintro b ⟨⟩
    decide
  have hlead : ∀ name ∈ table.lead?, ¬ IsHeaderWord name.text := by
    rintro name ⟨⟩
    decide
  have hread := bare_table_read_iff header table hgap hrest fun _ => hlead
  refine ⟨by decide +kernel, hgap, hrest, hlead, hread.2.mpr ⟨?_, ?_⟩⟩
  · rintro ⟨⟩
  · rintro database ⟨⟩

/-- The name goes on behind `INTO` with a digit, and only the digit is read. -/
theorem bare_table_not_read_into :
    let header : Header :=
      { lead := [], keyword := ascii "INSERT", modifiers := [], into? := none, gap := ascii " "
        lead_blank := by decide, keyword_eq := by decide, modifiers_eq := by decide
        into_eq := by decide, gap_blank := by decide }
    let table : BareTable := ⟨none, ⟨"into1", by decide, by decide⟩⟩
    let line := header.text ++ (table.text ++ ascii " VALUES (1);")
    line = ascii "INSERT into1 VALUES (1);" ∧ ¬ IsHeaderWord table.table.text ∧
      table? line = some "1" := by
  decide +kernel

end DumpMask.Statement
