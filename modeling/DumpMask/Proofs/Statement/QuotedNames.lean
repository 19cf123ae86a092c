import DumpMask.Proofs.Schema.Identifier
import DumpMask.Proofs.Statement.Header
import DumpMask.Proofs.Statement.Insert
import DumpMask.Proofs.Text.Utf8

/-!
# Reading quoted names

A statement writes the name of its table between backticks, with the backticks of the name doubled,
perhaps after the name of the database and a dot. The reader takes the first backtick behind the
opening one for the closing one. So a name is read up to its own first backtick, and if the name of
the database has one the table is not reached.
-/

namespace DumpMask.Statement

/-! ### One name -/

theorem doubleBackticks_cons (b : UInt8) (rest : Bytes) :
    doubleBackticks (b :: rest) =
      (if b = Ascii.backtick then [b, b] else [b]) ++ doubleBackticks rest :=
  List.flatMap_cons

theorem takeWhile_doubleBackticks (name tail : Bytes) :
    (doubleBackticks name ++ Ascii.backtick :: tail).takeWhile (· != Ascii.backtick) =
      name.takeWhile (· != Ascii.backtick) := by
  induction name with
  | nil => rfl
  | cons b rest ih =>
    rw [doubleBackticks_cons]
    by_cases hb : b = Ascii.backtick
    · subst hb
      rfl
    · have hkeep : (b != Ascii.backtick) = true := bne_iff_ne.mpr hb
      rw [if_neg hb, List.append_assoc, List.singleton_append, List.takeWhile_cons,
        List.takeWhile_cons, if_pos hkeep, if_pos hkeep, ih]

/-- Behind the backtick that ends a name stands the text after the name, or the second half of the
name's own doubled backtick. -/
theorem dropWhile_doubleBackticks (name tail : Bytes) :
    ∃ after, (doubleBackticks name ++ Ascii.backtick :: tail).dropWhile (· != Ascii.backtick) =
        Ascii.backtick :: after ∧
      (Ascii.backtick ∉ name → after = tail) ∧
      (Ascii.backtick ∈ name → after.head? = some Ascii.backtick) := by
  induction name with
  | nil =>
    refine ⟨tail, rfl, fun _ => rfl, ?_⟩
    intro hmem
    cases hmem
  | cons b rest ih =>
    rw [doubleBackticks_cons]
    by_cases hb : b = Ascii.backtick
    · subst hb
      exact ⟨_, rfl, fun h => absurd (List.mem_cons_self ..) h, fun _ => rfl⟩
    · have hkeep : (b != Ascii.backtick) = true := bne_iff_ne.mpr hb
      have hmem : Ascii.backtick ∈ b :: rest ↔ Ascii.backtick ∈ rest := by
        rw [List.mem_cons, or_iff_right (Ne.symm hb)]
      rw [if_neg hb, List.append_assoc, List.singleton_append, List.dropWhile_cons, if_pos hkeep,
        hmem]
      exact ih

/-- A quoted name is read up to the first backtick in it. -/
theorem identifier?_quoteName (name tail : Bytes) :
    ∃ after, identifier? (quoteName name ++ tail) =
        some (name.takeWhile (· != Ascii.backtick), after) ∧
      (Ascii.backtick ∉ name → after = tail) ∧
      (Ascii.backtick ∈ name → after.head? = some Ascii.backtick) := by
  obtain ⟨after, hdrop, hafter⟩ := dropWhile_doubleBackticks name tail
  refine ⟨after, ?_, hafter⟩
  rw [quoteName, List.cons_append, List.append_assoc, List.singleton_append, identifier?,
    if_pos rfl, hdrop, takeWhile_doubleBackticks]

/-! ### The octets of a name -/

theorem utf8EncodeChar_backtick : String.utf8EncodeChar '\x60' = [Ascii.backtick] := by
  decide

theorem doubleBackticks_of_not_mem {name : Bytes} (h : Ascii.backtick ∉ name) :
    doubleBackticks name = name := by
  induction name with
  | nil => rfl
  | cons b rest ih =>
    rw [List.mem_cons, not_or] at h
    rw [doubleBackticks_cons, if_neg (Ne.symm h.1), ih h.2, List.singleton_append]

theorem encode_double (chars : List Char) :
    (Identifier.double chars).flatMap String.utf8EncodeChar =
      doubleBackticks (chars.flatMap String.utf8EncodeChar) := by
  induction chars with
  | nil => rfl
  | cons c rest ih =>
    rw [Identifier.double, List.flatMap_cons, ← Identifier.double, List.flatMap_append, ih,
      List.flatMap_cons, doubleBackticks, doubleBackticks, List.flatMap_append]
    congr 1
    by_cases hc : c = '\x60'
    · subst hc
      simp [utf8EncodeChar_backtick]
    · have hfree := Utf8.not_mem_utf8EncodeChar utf8EncodeChar_backtick (by decide) hc
      rw [if_neg hc, List.flatMap_singleton, ← doubleBackticks, doubleBackticks_of_not_mem hfree]

theorem encode_quote (name : String) :
    Utf8.encode (Identifier.quote name) = quoteName (Utf8.encode name) := by
  rw [Utf8.encode, Identifier.quote_toList, List.flatMap_cons, List.flatMap_append, encode_double,
    List.flatMap_singleton, utf8EncodeChar_backtick]
  rfl

/-- A name up to its first backtick. -/
def beforeBacktick (name : String) : String :=
  String.ofList (name.toList.takeWhile (· != '\x60'))

theorem identifier?_encode_quote (name : String) (tail : Bytes) :
    ∃ after, identifier? (Utf8.encode (Identifier.quote name) ++ tail) =
        some (Utf8.encode (beforeBacktick name), after) ∧
      ('\x60' ∉ name.toList → after = tail) ∧
      ('\x60' ∈ name.toList → after.head? = some Ascii.backtick) := by
  have h := identifier?_quoteName (Utf8.encode name) tail
  rwa [Utf8.takeWhile_ne_encode utf8EncodeChar_backtick (by decide),
    Utf8.mem_encode_iff utf8EncodeChar_backtick (by decide), ← encode_quote] at h

theorem not_mem_beforeBacktick (name : String) : '\x60' ∉ (beforeBacktick name).toList := by
  rw [beforeBacktick, String.toList_ofList]
  intro hmem
  have hall := List.all_eq_true.mp (List.all_takeWhile (p := (· != '\x60')) (l := name.toList))
  exact absurd (hall _ hmem) (by decide)

theorem beforeBacktick_eq_iff {name : String} :
    beforeBacktick name = name ↔ '\x60' ∉ name.toList := by
  constructor
  · intro h
    rw [← h]
    exact not_mem_beforeBacktick name
  · intro hfree
    have hall : ∀ c ∈ name.toList, (c != '\x60') = true := by
      intro c hc
      apply bne_iff_ne.mpr
      rintro rfl
      exact hfree hc
    have htake : (name.toList ++ []).takeWhile (· != '\x60') = name.toList ++ [] :=
      List.takeWhile_append_of_pos hall
    rw [List.append_nil] at htake
    rw [beforeBacktick, htake, String.ofList_toList]

/-! ### Names behind each other -/

section Qualified

variable {text name after : Bytes}

theorem qualifiedName?_of_end (h : identifier? text = some (name, after))
    (hafter : after.head? ≠ some Ascii.dot) : qualifiedName? text = some name := by
  rw [qualifiedName?]
  split
  · next heq => rw [h] at heq; cases heq
  · next heq => rw [h] at heq; cases heq; rfl
  · next heq =>
    rw [h] at heq
    cases heq
    rw [if_neg]
    rintro rfl
    exact hafter rfl

theorem qualifiedName?_of_dot (h : identifier? text = some (name, Ascii.dot :: after)) :
    qualifiedName? text = qualifiedName? after := by
  rw [qualifiedName?]
  split
  · next heq => rw [h] at heq; cases heq
  · next heq => rw [h] at heq; cases heq
  · next heq =>
    rw [h] at heq
    cases heq
    rw [if_pos rfl]

end Qualified

/-- The quoted name of a table, perhaps behind that of a database. -/
structure TableName where
  database? : Option String
  table : String
deriving DecidableEq, Repr

namespace TableName

def text (name : TableName) : Bytes :=
  match name.database? with
  | none => Utf8.encode (Identifier.quote name.table)
  | some database =>
    Utf8.encode (Identifier.quote database) ++
      Ascii.dot :: Utf8.encode (Identifier.quote name.table)

/-- What is taken for the name of the table. -/
def read (name : TableName) : String :=
  match name.database? with
  | none => beforeBacktick name.table
  | some database =>
    if '\x60' ∈ database.toList then beforeBacktick database else beforeBacktick name.table

/-- Behind a name whose own backtick ended it there is no dot. -/
theorem qualifiedName?_quote {name : String} {tail : Bytes}
    (htail : '\x60' ∉ name.toList → tail.head? ≠ some Ascii.dot) :
    qualifiedName? (Utf8.encode (Identifier.quote name) ++ tail) =
      some (Utf8.encode (beforeBacktick name)) := by
  obtain ⟨after, hname, hfree, hstop⟩ := identifier?_encode_quote name tail
  apply qualifiedName?_of_end hname
  by_cases hmem : '\x60' ∈ name.toList
  · rw [hstop hmem]
    decide
  · rw [hfree hmem]
    exact htail hmem

theorem qualifiedName?_text (name : TableName) {tail : Bytes}
    (htail : tail.head? ≠ some Ascii.dot) :
    qualifiedName? (name.text ++ tail) = some (Utf8.encode name.read) := by
  rw [text, read]
  cases name.database? with
  | none => exact qualifiedName?_quote fun _ => htail
  | some database =>
    dsimp only
    rw [List.append_assoc]
    by_cases hmem : '\x60' ∈ database.toList
    · rw [if_pos hmem]
      exact qualifiedName?_quote fun hfree => absurd hmem hfree
    · obtain ⟨after, hname, hfree, -⟩ := identifier?_encode_quote database
        (Ascii.dot :: (Utf8.encode (Identifier.quote name.table) ++ tail))
      rw [hfree hmem] at hname
      rw [if_neg hmem, List.cons_append, qualifiedName?_of_dot hname]
      exact qualifiedName?_quote fun _ => htail

theorem read_eq_table_iff {name : TableName} :
    name.read = name.table ↔ '\x60' ∉ name.table.toList ∧
      ∀ database ∈ name.database?, '\x60' ∈ database.toList →
        beforeBacktick database = name.table := by
  have hfree : beforeBacktick name.table = name.table ↔ '\x60' ∉ name.table.toList :=
    beforeBacktick_eq_iff
  rw [read]
  cases name.database? with
  | none => simpa using hfree
  | some database =>
    dsimp only
    by_cases hmem : '\x60' ∈ database.toList
    · rw [if_pos hmem]
      constructor
      · intro h
        refine ⟨h ▸ not_mem_beforeBacktick database, ?_⟩
        rintro _ ⟨⟩ -
        exact h
      · intro h
        exact h.2 database rfl hmem
    · rw [if_neg hmem, hfree]
      refine ⟨fun h => ⟨h, ?_⟩, fun h => h.1⟩
      rintro _ ⟨⟩ hmem'
      exact absurd hmem' hmem

theorem exists_text (name : TableName) : ∃ rest, name.text = Ascii.backtick :: rest := by
  simp only [text, encode_quote, quoteName]
  cases name.database? with
  | none => exact ⟨_, rfl⟩
  | some database => exact ⟨_, rfl⟩

end TableName

/-- The table that is read from a line. -/
theorem table?_header_name (header : Header) (name : TableName) {rest : Bytes}
    (hrest : rest.head? ≠ some Ascii.dot) :
    table? (header.text ++ (name.text ++ rest)) = some name.read := by
  obtain ⟨inner, hinner⟩ := name.exists_text
  have hstart : Bytes.NoLeadingBlank (name.text ++ rest) := by
    rw [hinner]
    exact Bytes.noLeadingBlank_cons_iff.mpr (by decide)
  have hbacktick : EndsWord (name.text ++ rest) := by
    rw [hinner]
    rintro b ⟨⟩
    decide
  have hends : EndsWord (header.gap ++ (name.text ++ rest)) := by
    by_cases hgap : header.gap = []
    · rw [hgap]
      exact hbacktick
    · exact endsWord_of_allBlank header.gap_blank hgap _
  have hfirst : firstWord (header.gap ++ (name.text ++ rest)) = ([], name.text ++ rest) :=
    @firstWord_append header.gap [] _ header.gap_blank rfl hstart hbacktick
  have hname : header.into? = none →
      isKeyword "INTO" (firstWord (header.gap ++ (name.text ++ rest))).1 = false ∧
        isModifier (firstWord (header.gap ++ (name.text ++ rest))).1 = false := by
    intro _
    rw [hfirst]
    exact ⟨rfl, rfl⟩
  calc table? (header.text ++ (name.text ++ rest))
      = (qualifiedName? (name.text ++ rest)).bind Utf8.decode :=
        header.table?_text_append hstart hends hname
    _ = (some (Utf8.encode name.read)).bind Utf8.decode := by rw [name.qualifiedName?_text hrest]
    _ = some name.read := Utf8.decode_encode name.read

end DumpMask.Statement
