import DumpMask.Proofs.LetterCase
import DumpMask.Proofs.Statement.Cues
import DumpMask.Statement.Table

/-!
# Headers of statements

In front of the name of its table a statement has its keyword, modifiers and perhaps `INTO`, in any
letter case and with any blanks between them. The words are skipped one by one, so a table is named
where the header ends, provided that the text of the name does not go on with a word of the header.
-/

namespace DumpMask.Statement

/-- A word and the blanks that set it off from the word before. -/
structure SpacedWord where
  gap : Bytes
  word : Bytes
  gap_blank : Bytes.AllBlank gap
  gap_ne : gap ≠ []

structure Header where
  lead : Bytes
  keyword : Bytes
  modifiers : List SpacedWord
  into? : Option SpacedWord
  gap : Bytes
  lead_blank : Bytes.AllBlank lead
  keyword_eq : isKeyword "INSERT" keyword = true ∨ isKeyword "REPLACE" keyword = true
  modifiers_eq : ∀ w ∈ modifiers, isModifier w.word = true
  into_eq : ∀ w ∈ into?, isKeyword "INTO" w.word = true
  gap_blank : Bytes.AllBlank gap

def SpacedWord.text (w : SpacedWord) : Bytes :=
  w.gap ++ w.word

/-- The words after the statement keyword. -/
def Header.words (header : Header) : List SpacedWord :=
  header.modifiers ++ header.into?.toList

def Header.text (header : Header) : Bytes :=
  header.lead ++ (header.keyword ++ (header.words.flatMap SpacedWord.text ++ header.gap))

/-! ### Words -/

section Words

variable {gap word rest : Bytes}

theorem isWordOctet_of_isLetter (b : UInt8) (hb : Ascii.isLetter b = true) :
    isWordOctet b = true := by
  rw [isWordOctet, hb, Bool.true_or]

theorem not_isBlank_of_isWordOctet {b : UInt8} (hb : isWordOctet b = true) :
    Ascii.isBlank b = false := by
  rw [isWordOctet, Bool.or_eq_true, beq_iff_eq] at hb
  rcases hb with hletter | rfl
  · exact not_isBlank_of_isLetter hletter
  · decide

theorem not_isWordOctet_of_isBlank {b : UInt8} (hb : Ascii.isBlank b = true) :
    isWordOctet b = false := by
  cases hword : isWordOctet b with
  | false => rfl
  | true =>
    rw [not_isBlank_of_isWordOctet hword] at hb
    cases hb

theorem all_isWordOctet_of_isKeyword {keyword : String}
    (hkeyword : (ascii keyword).all isWordOctet = true) (h : isKeyword keyword word = true) :
    word.all isWordOctet = true :=
  Bytes.all_of_equalsIgnoringCase isWordOctet_of_isLetter h hkeyword

theorem exists_modifier (h : isModifier word = true) :
    ∃ keyword ∈ ["LOW_PRIORITY", "DELAYED", "HIGH_PRIORITY", "IGNORE"],
      isKeyword keyword word = true := by
  simpa [isModifier, or_assoc] using h

theorem all_isWordOctet_of_isModifier (h : isModifier word = true) :
    word.all isWordOctet = true := by
  obtain ⟨keyword, hmem, hkeyword⟩ := exists_modifier h
  have hall : ∀ keyword ∈ ["LOW_PRIORITY", "DELAYED", "HIGH_PRIORITY", "IGNORE"],
      (ascii keyword).all isWordOctet = true := by decide
  exact all_isWordOctet_of_isKeyword (hall keyword hmem) hkeyword

/-- No modifier is as short as `INTO`. -/
theorem not_isKeyword_into_of_isModifier (h : isModifier word = true) :
    isKeyword "INTO" word = false := by
  obtain ⟨keyword, hmem, hkeyword⟩ := exists_modifier h
  have hlonger : ∀ keyword ∈ ["LOW_PRIORITY", "DELAYED", "HIGH_PRIORITY", "IGNORE"],
      (ascii keyword).length ≠ (ascii "INTO").length := by decide
  cases hinto : isKeyword "INTO" word with
  | false => rfl
  | true =>
    have hlength := Bytes.length_of_equalsIgnoringCase hkeyword
    rw [Bytes.length_of_equalsIgnoringCase hinto] at hlength
    exact absurd hlength.symm (hlonger keyword hmem)

/-- No word goes on into the text. -/
def EndsWord (text : Bytes) : Prop := ∀ b ∈ text.head?, isWordOctet b = false

theorem endsWord_of_allBlank (hgap : Bytes.AllBlank gap) (hne : gap ≠ []) (rest : Bytes) :
    EndsWord (gap ++ rest) := by
  cases gap with
  | nil => exact absurd rfl hne
  | cons b others =>
    intro c hc
    cases hc
    exact not_isWordOctet_of_isBlank (hgap b (List.mem_cons_self ..))

theorem firstWord_gap {text : Bytes} (hgap : Bytes.AllBlank gap)
    (hstart : Bytes.NoLeadingBlank text) :
    firstWord (gap ++ text) = (text.takeWhile isWordOctet, text.dropWhile isWordOctet) := by
  rw [firstWord, Bytes.trimStart, Bytes.dropWhile_append hgap hstart]

theorem firstWord_append (hgap : Bytes.AllBlank gap) (hword : word.all isWordOctet = true)
    (hstart : Bytes.NoLeadingBlank (word ++ rest)) (hrest : EndsWord rest) :
    firstWord (gap ++ (word ++ rest)) = (word, rest) := by
  have hall := List.all_eq_true.mp hword
  rw [firstWord_gap hgap hstart, takeWhile_run hall hrest, dropWhile_run hall hrest]

theorem noLeadingBlank_of_isWordOctet (hne : word ≠ []) (hword : word.all isWordOctet = true)
    (rest : Bytes) : Bytes.NoLeadingBlank (word ++ rest) := by
  cases word with
  | nil => exact absurd rfl hne
  | cons b others =>
    rw [List.all_cons, Bool.and_eq_true] at hword
    exact Bytes.noLeadingBlank_cons_iff.mpr (not_isBlank_of_isWordOctet hword.1)

end Words

/-! ### Skipping words -/

section Skipping

variable {rest : Bytes}

theorem firstWord_text (w : SpacedWord) (hne : w.word ≠ [])
    (hword : w.word.all isWordOctet = true) (hrest : EndsWord rest) :
    firstWord (w.text ++ rest) = (w.word, rest) := by
  rw [SpacedWord.text, List.append_assoc]
  exact firstWord_append w.gap_blank hword (noLeadingBlank_of_isWordOctet hne hword rest) hrest

theorem afterModifiers_modifier {w : SpacedWord} (hw : isModifier w.word = true)
    (hrest : EndsWord rest) : afterModifiers (w.text ++ rest) = afterModifiers rest := by
  have hfirst := firstWord_text w (ne_nil_of_isModifier hw) (all_isWordOctet_of_isModifier hw) hrest
  have hinto := Bool.eq_false_iff.mp (not_isKeyword_into_of_isModifier hw)
  rw [afterModifiers, hfirst]
  simp only
  rw [if_neg hinto, dif_pos hw]

theorem afterModifiers_into {w : SpacedWord} (hw : isKeyword "INTO" w.word = true)
    (hrest : EndsWord rest) : afterModifiers (w.text ++ rest) = rest := by
  have hne : w.word ≠ [] := by
    intro hnil
    rw [hnil] at hw
    cases hw
  have hfirst := firstWord_text w hne (all_isWordOctet_of_isKeyword (by decide) hw) hrest
  rw [afterModifiers, hfirst]
  simp only
  rw [if_pos hw]

theorem afterModifiers_of_name {text : Bytes} (hinto : isKeyword "INTO" (firstWord text).1 = false)
    (hmodifier : isModifier (firstWord text).1 = false) : afterModifiers text = text := by
  rw [afterModifiers, if_neg (Bool.eq_false_iff.mp hinto), dif_neg (Bool.eq_false_iff.mp hmodifier)]

theorem endsWord_flatMap (words : List SpacedWord) (hrest : EndsWord rest) :
    EndsWord (words.flatMap SpacedWord.text ++ rest) := by
  cases words with
  | nil => exact hrest
  | cons w others =>
    rw [List.flatMap_cons, SpacedWord.text, List.append_assoc, List.append_assoc]
    exact endsWord_of_allBlank w.gap_blank w.gap_ne _

theorem afterModifiers_modifiers {words : List SpacedWord}
    (hwords : ∀ w ∈ words, isModifier w.word = true) (hrest : EndsWord rest) :
    afterModifiers (words.flatMap SpacedWord.text ++ rest) = afterModifiers rest := by
  induction words with
  | nil => rfl
  | cons w others ih =>
    have hothers := fun v hv => hwords v (List.mem_cons_of_mem w hv)
    rw [List.flatMap_cons, List.append_assoc,
      afterModifiers_modifier (hwords w (List.mem_cons_self ..)) (endsWord_flatMap others hrest),
      ih hothers]

end Skipping

namespace Header

variable (header : Header) {text : Bytes}

theorem keyword_ne : header.keyword ≠ [] := by
  intro hnil
  have hkeyword := header.keyword_eq
  rw [hnil] at hkeyword
  revert hkeyword
  decide

theorem all_isWordOctet_keyword : header.keyword.all isWordOctet = true := by
  rcases header.keyword_eq with h | h
  · exact all_isWordOctet_of_isKeyword (by decide) h
  · exact all_isWordOctet_of_isKeyword (by decide) h

theorem firstWord_text_append (hends : EndsWord (header.gap ++ text)) :
    firstWord (header.text ++ text) =
      (header.keyword, header.words.flatMap SpacedWord.text ++ (header.gap ++ text)) := by
  have hstart := noLeadingBlank_of_isWordOctet header.keyword_ne header.all_isWordOctet_keyword
    (header.words.flatMap SpacedWord.text ++ (header.gap ++ text))
  have hfirst := firstWord_append header.lead_blank header.all_isWordOctet_keyword hstart
    (endsWord_flatMap header.words hends)
  rw [Header.text]
  simp only [List.append_assoc]
  exact hfirst

theorem isInsert_text_append (hends : EndsWord (header.gap ++ text)) :
    isInsert (header.text ++ text) = true := by
  have hfirst := header.firstWord_text_append hends
  rw [isInsert, hfirst, Bool.or_eq_true]
  exact header.keyword_eq

/-- What is left of a line when the words of its header are skipped. Without `INTO` the name must
not look like a word of the header. -/
theorem afterModifiers_words (hends : EndsWord (header.gap ++ text))
    (hname : header.into? = none →
      isKeyword "INTO" (firstWord (header.gap ++ text)).1 = false ∧
        isModifier (firstWord (header.gap ++ text)).1 = false) :
    afterModifiers (header.words.flatMap SpacedWord.text ++ (header.gap ++ text)) =
      header.gap ++ text := by
  rw [words, List.flatMap_append, List.append_assoc]
  cases hinto : header.into? with
  | none =>
    obtain ⟨hinto', hmodifier⟩ := hname hinto
    exact (afterModifiers_modifiers header.modifiers_eq hends).trans
      (afterModifiers_of_name hinto' hmodifier)
  | some w =>
    have hw : isKeyword "INTO" w.word = true := header.into_eq w hinto
    have hends' := endsWord_flatMap [w] hends
    rw [Option.toList_some, afterModifiers_modifiers header.modifiers_eq hends',
      List.flatMap_cons, List.flatMap_nil, List.append_nil, afterModifiers_into hw hends]

/-- The table of a line is what its text names after the header. -/
theorem table?_text_append (hstart : Bytes.NoLeadingBlank text)
    (hends : EndsWord (header.gap ++ text))
    (hname : header.into? = none →
      isKeyword "INTO" (firstWord (header.gap ++ text)).1 = false ∧
        isModifier (firstWord (header.gap ++ text)).1 = false) :
    table? (header.text ++ text) = (qualifiedName? text).bind Utf8.decode := by
  rw [table?, if_pos (header.isInsert_text_append hends), header.firstWord_text_append hends]
  simp only
  rw [header.afterModifiers_words hends hname, Bytes.trimStart,
    Bytes.dropWhile_append header.gap_blank hstart]
  rfl

end Header

end DumpMask.Statement
