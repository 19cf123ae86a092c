import DumpMask.Proofs.Json.Printed
import DumpMask.Proofs.Json.StringText
import DumpMask.Proofs.Json.Tokens

/-!
# The numerals of a written document

A document is written without blanks, so each part of it ends where the next mark begins, and its
numerals are collected one after the other. Main statement: they stand at the positions of the
numbers and denote what is written for them.
-/

namespace DumpMask.Json

/-- The numeral stands where the number does and denotes what is written for it. -/
def IsShown (token : Token) (number : Position × Number) : Prop :=
  token.1 = number.1 ∧ token.2.value = number.2.shown

variable {fuel : Nat} {position : Position} {text rest : Bytes}

theorem endsNumber_of_mark {b : UInt8}
    (hb : b = Ascii.comma ∨ b = Ascii.closeBrace ∨ b = Ascii.closeBracket) (rest : Bytes) :
    EndsNumber (b :: rest) := by
  rintro _ ⟨⟩
  obtain rfl | rfl | rfl := hb <;> decide

theorem skipBlanks_cons {b : UInt8} (hb : isBlank b = false) : skipBlanks (b :: rest) = b :: rest :=
  List.dropWhile_cons_of_neg (by simp [hb])

/-! ### Numbers and strings -/

/-- A numeral begins with its sign or a digit. -/
theorem Numeral.IsWritten.exists_cons {numeral : Numeral} (h : numeral.IsWritten) :
    ∃ b more, numeral.text = b :: more ∧ (b == 0x2D || Ascii.isDigit b) = true := by
  obtain ⟨negative, whole, fraction, exponent⟩ := numeral
  cases negative with
  | true => exact ⟨0x2D, _, rfl, rfl⟩
  | false =>
    obtain ⟨b, more, hwhole⟩ := List.exists_cons_of_ne_nil h.whole.ne_nil
    dsimp only at hwhole
    subst hwhole
    refine ⟨b, _, rfl, ?_⟩
    rw [h.whole.all b (List.mem_cons_self ..), Bool.or_true]

theorem not_isBlank_of_number : ∀ b : UInt8,
    (b == 0x2D || Ascii.isDigit b) = true → isBlank b = false :=
  Bytes.forall_octet (by decide +kernel)

theorem exists_tokens_number (number : Number) (hrest : EndsNumber rest) :
    ∃ token, tokensOfValue (fuel + 1) position (number.print ++ rest) = some ([token], rest) ∧
      IsShown token (position, number) := by
  obtain ⟨numeral, hwritten, htext, hvalue⟩ := exists_spells_print number
  obtain ⟨b, more, hcons, hb⟩ := hwritten.exists_cons
  have hscan := scan_text hwritten hrest
  rw [hcons, List.cons_append] at hscan
  have hblanks : skipBlanks (number.print ++ rest) = b :: (more ++ rest) := by
    rw [← htext, hcons, List.cons_append, skipBlanks_cons (not_isBlank_of_number b hb)]
  refine ⟨(position, numeral), ?_, rfl, hvalue⟩
  rw [tokensOfValue_numeral hblanks hb, hscan]
  rfl

theorem skipBlanks_printString (value : String) (rest : Bytes) :
    skipBlanks (printString value ++ rest) = Ascii.doubleQuote ::
      ((Utf8.encode value).flatMap printOctet ++ Ascii.doubleQuote :: rest) := by
  rw [printString, List.cons_append, skipBlanks_cons rfl, List.append_assoc, List.singleton_append]

theorem tokensOfValue_printString (value : String) :
    tokensOfValue (fuel + 1) position (printString value ++ rest) = some ([], rest) := by
  rw [tokensOfValue_string (skipBlanks_printString value rest), readString_print]
  rfl

theorem readName_print (name : String) :
    readName true (printString name ++ Ascii.colon :: rest) = some (name, rest) := by
  rw [readName, skipBlanks_printString]
  dsimp only
  rw [if_pos rfl, readString_print]
  rfl

/-! ### Documents -/

section Marks

variable {α : Type} {close b : UInt8} {first : List α} {elements : Bytes → Option (List α × Bytes)}

theorem openWith_close (hclose : isBlank close = false) :
    openWith close elements (close :: rest) = some ([], rest) := by
  rw [openWith, skipBlanks_cons hclose]
  exact if_pos rfl

theorem openWith_elements (hb : isBlank b = false) (hclose : b ≠ close) :
    openWith close elements (b :: rest) = elements (b :: rest) := by
  rw [openWith, skipBlanks_cons hb]
  exact if_neg hclose

theorem continueWith_close (hclose : isBlank close = false) (hcomma : close ≠ Ascii.comma) :
    continueWith close elements first (close :: rest) = some (first, rest) := by
  rw [continueWith, skipBlanks_cons hclose]
  dsimp only
  rw [if_neg hcomma, if_pos rfl]

theorem continueWith_comma :
    continueWith close elements first (Ascii.comma :: rest) =
      (elements rest).map fun (others, rest) => (first ++ others, rest) := by
  rw [continueWith, skipBlanks_cons rfl]
  exact if_pos rfl

end Marks

/-- A value begins with an octet of its own. -/
theorem exists_cons_print (doc : Json) :
    ∃ b more, doc.print = b :: more ∧ isBlank b = false ∧ b ≠ Ascii.closeBracket := by
  cases doc with
  | null => exact ⟨_, _, rfl, by decide, by decide⟩
  | bool value => cases value <;> exact ⟨_, _, rfl, by decide, by decide⟩
  | number value =>
    obtain ⟨numeral, hwritten, htext, -⟩ := exists_spells_print value
    obtain ⟨b, more, hcons, hb⟩ := hwritten.exists_cons
    refine ⟨b, more, ?_, not_isBlank_of_number b hb, ?_⟩
    · rw [print, ← htext, hcons]
    · rintro rfl
      cases hb
  | string value => exact ⟨_, _, rfl, by decide, by decide⟩
  | array items => exact ⟨_, _, rfl, by decide, by decide⟩
  | object members => exact ⟨_, _, rfl, by decide, by decide⟩

theorem tokensOfMembers_print {name : String} {value : Bytes} {tokens : List Token}
    (hvalue : tokensOfValue fuel (position ++ [.member name]) value = some (tokens, rest)) :
    tokensOfMembers (fuel + 1) position (printString name ++ Ascii.colon :: value) =
      continueWith Ascii.closeBrace (tokensOfMembers fuel position) tokens rest := by
  rw [tokensOfMembers, readName_print]
  dsimp only [bind, Option.bind]
  rw [hvalue]

theorem printItems_cons_cons (item next : Json) (more : List Json) :
    printItems (item :: next :: more) =
      item.print ++ Ascii.comma :: printItems (next :: more) :=
  rfl

theorem printMembers_cons_cons (name : String) (value : Json) (next : String × Json)
    (more : List (String × Json)) :
    printMembers ((name, value) :: next :: more) =
      printString name ++ Ascii.colon :: (value.print ++ Ascii.comma :: printMembers (next :: more)) := by
  rw [printMembers, List.append_assoc, List.cons_append]
  exact nofun

theorem exists_cons_printItems (item : Json) (more : List Json) :
    ∃ b rest, printItems (item :: more) = b :: rest ∧ isBlank b = false ∧
      b ≠ Ascii.closeBracket := by
  obtain ⟨b, rest, hcons, hblank, hclose⟩ := exists_cons_print item
  cases more with
  | nil => exact ⟨b, rest, hcons, hblank, hclose⟩
  | cons next more =>
    refine ⟨b, rest ++ Ascii.comma :: printItems (next :: more), ?_, hblank, hclose⟩
    rw [printItems_cons_cons, hcons, List.cons_append]

theorem exists_cons_printMembers (member : String × Json) (more : List (String × Json)) :
    ∃ rest, printMembers (member :: more) = Ascii.doubleQuote :: rest := by
  cases more <;> exact ⟨_, rfl⟩

/-- With this much fuel, two units for each octet, the numerals of a written part are collected. -/
structure CollectsShown (fuel : Nat) : Prop where
  value : ∀ {doc : Json} {rest : Bytes} (position : Position), 2 * doc.print.length < fuel →
    EndsNumber rest → ∃ tokens, tokensOfValue fuel position (doc.print ++ rest) = some (tokens, rest) ∧
      List.Forall₂ IsShown tokens (doc.numbersAt position)
  items : ∀ {item : Json} {more : List Json} {rest : Bytes} (position : Position) (index : Nat),
    2 * (printItems (item :: more)).length + 1 < fuel →
    ∃ tokens, tokensOfItems fuel position index
        (printItems (item :: more) ++ Ascii.closeBracket :: rest) = some (tokens, rest) ∧
      List.Forall₂ IsShown tokens (numbersOfItems position index (item :: more))
  members : ∀ {member : String × Json} {more : List (String × Json)} {rest : Bytes}
    (position : Position), 2 * (printMembers (member :: more)).length < fuel →
    ∃ tokens, tokensOfMembers fuel position
        (printMembers (member :: more) ++ Ascii.closeBrace :: rest) = some (tokens, rest) ∧
      List.Forall₂ IsShown tokens (numbersOfMembers position (member :: more))

section Step

variable (hcollects : CollectsShown fuel) (position : Position)
include hcollects

theorem exists_tokens_array {items : List Json}
    (hfuel : 2 * (Json.array items).print.length < fuel + 1) :
    ∃ tokens, tokensOfValue (fuel + 1) position ((Json.array items).print ++ rest) =
        some (tokens, rest) ∧
      List.Forall₂ IsShown tokens (numbersOfItems position 0 items) := by
  have htext : (Json.array items).print ++ rest =
      Ascii.openBracket :: (printItems items ++ Ascii.closeBracket :: rest) := by
    rw [print, List.cons_append, List.append_assoc, List.singleton_append]
  rw [print, List.length_cons, List.length_append, List.length_singleton] at hfuel
  rw [htext, tokensOfValue_array (skipBlanks_cons rfl)]
  cases items with
  | nil => exact ⟨[], openWith_close rfl, .nil⟩
  | cons item more =>
    have hitems : 2 * (printItems (item :: more)).length + 1 < fuel := by omega
    obtain ⟨tokens, htokens, hshown⟩ := hcollects.items position 0 hitems
    obtain ⟨b, after, hcons, hblank, hclose⟩ := exists_cons_printItems item more
    refine ⟨tokens, ?_, hshown⟩
    rw [hcons] at htokens ⊢
    exact (openWith_elements hblank hclose).trans htokens

theorem exists_tokens_object {members : List (String × Json)}
    (hfuel : 2 * (Json.object members).print.length < fuel + 1) :
    ∃ tokens, tokensOfValue (fuel + 1) position ((Json.object members).print ++ rest) =
        some (tokens, rest) ∧
      List.Forall₂ IsShown tokens (numbersOfMembers position members) := by
  have htext : (Json.object members).print ++ rest =
      Ascii.openBrace :: (printMembers members ++ Ascii.closeBrace :: rest) := by
    rw [print, List.cons_append, List.append_assoc, List.singleton_append]
  rw [print, List.length_cons, List.length_append, List.length_singleton] at hfuel
  rw [htext, tokensOfValue_object (skipBlanks_cons rfl)]
  cases members with
  | nil => exact ⟨[], openWith_close rfl, .nil⟩
  | cons member more =>
    have hmembers : 2 * (printMembers (member :: more)).length < fuel := by omega
    obtain ⟨tokens, htokens, hshown⟩ := hcollects.members position hmembers
    obtain ⟨after, hcons⟩ := exists_cons_printMembers member more
    refine ⟨tokens, ?_, hshown⟩
    rw [hcons] at htokens ⊢
    exact (openWith_elements rfl (by decide)).trans htokens

theorem exists_tokens_print {doc : Json} (hfuel : 2 * doc.print.length < fuel + 1)
    (hrest : EndsNumber rest) :
    ∃ tokens, tokensOfValue (fuel + 1) position (doc.print ++ rest) = some (tokens, rest) ∧
      List.Forall₂ IsShown tokens (doc.numbersAt position) := by
  cases doc with
  | null => exact ⟨[], tokensOfValue_word .null rfl, .nil⟩
  | bool value =>
    cases value with
    | true => exact ⟨[], tokensOfValue_word .true rfl, .nil⟩
    | false => exact ⟨[], tokensOfValue_word .false rfl, .nil⟩
  | number value =>
    obtain ⟨token, htoken, hshown⟩ := exists_tokens_number value hrest
    exact ⟨[token], htoken, .cons hshown .nil⟩
  | string value => exact ⟨[], tokensOfValue_printString value, .nil⟩
  | array items => exact exists_tokens_array hcollects position hfuel
  | object members => exact exists_tokens_object hcollects position hfuel

theorem exists_tokens_printItems {item : Json} {more : List Json} {index : Nat}
    (hfuel : 2 * (printItems (item :: more)).length + 1 < fuel + 1) :
    ∃ tokens, tokensOfItems (fuel + 1) position index
        (printItems (item :: more) ++ Ascii.closeBracket :: rest) = some (tokens, rest) ∧
      List.Forall₂ IsShown tokens (numbersOfItems position index (item :: more)) := by
  cases more with
  | nil =>
    rw [printItems] at hfuel ⊢
    have hitem : 2 * item.print.length < fuel := by omega
    obtain ⟨tokens, htokens, hshown⟩ := hcollects.value (position ++ [.item index]) hitem
      (endsNumber_of_mark (.inr (.inr rfl)) rest)
    refine ⟨tokens, ?_, ?_⟩
    · rw [tokensOfItems, htokens]
      dsimp only [bind, Option.bind]
      exact continueWith_close rfl (by decide)
    · rw [numbersOfItems, numbersOfItems, List.append_nil]
      exact hshown
  | cons next more =>
    rw [printItems_cons_cons, List.length_append, List.length_cons] at hfuel
    have hitem : 2 * item.print.length < fuel := by omega
    have hmore : 2 * (printItems (next :: more)).length + 1 < fuel := by omega
    obtain ⟨tokens, htokens, hshown⟩ := hcollects.value (position ++ [.item index]) hitem
      (endsNumber_of_mark (.inl rfl) _)
    obtain ⟨others, hothers, hshown'⟩ := hcollects.items position (index + 1) hmore
    refine ⟨tokens ++ others, ?_, List.rel_append hshown hshown'⟩
    rw [printItems_cons_cons, List.append_assoc, List.cons_append, tokensOfItems, htokens]
    dsimp only [bind, Option.bind]
    rw [continueWith_comma, hothers]
    rfl

theorem exists_tokens_printMembers {member : String × Json} {more : List (String × Json)}
    (hfuel : 2 * (printMembers (member :: more)).length < fuel + 1) :
    ∃ tokens, tokensOfMembers (fuel + 1) position
        (printMembers (member :: more) ++ Ascii.closeBrace :: rest) = some (tokens, rest) ∧
      List.Forall₂ IsShown tokens (numbersOfMembers position (member :: more)) := by
  obtain ⟨name, value⟩ := member
  cases more with
  | nil =>
    rw [printMembers, List.length_append, List.length_cons] at hfuel
    have hvalue : 2 * value.print.length < fuel := by omega
    obtain ⟨tokens, htokens, hshown⟩ := hcollects.value (position ++ [.member name]) hvalue
      (endsNumber_of_mark (.inr (.inl rfl)) rest)
    refine ⟨tokens, ?_, ?_⟩
    · rw [printMembers, List.append_assoc, List.cons_append, tokensOfMembers_print htokens]
      exact continueWith_close rfl (by decide)
    · rw [numbersOfMembers, numbersOfMembers, List.append_nil]
      exact hshown
  | cons next more =>
    rw [printMembers_cons_cons, List.length_append, List.length_cons, List.length_append,
      List.length_cons] at hfuel
    have hvalue : 2 * value.print.length < fuel := by omega
    have hmore : 2 * (printMembers (next :: more)).length < fuel := by omega
    obtain ⟨tokens, htokens, hshown⟩ := hcollects.value (position ++ [.member name]) hvalue
      (endsNumber_of_mark (.inl rfl) _)
    obtain ⟨others, hothers, hshown'⟩ := hcollects.members position hmore
    refine ⟨tokens ++ others, ?_, List.rel_append hshown hshown'⟩
    rw [printMembers_cons_cons, List.append_assoc, List.cons_append, List.append_assoc,
      List.cons_append, tokensOfMembers_print htokens, continueWith_comma, hothers]
    rfl

end Step

theorem collectsShown (fuel : Nat) : CollectsShown fuel := by
  induction fuel with
  | zero =>
    refine ⟨fun _ h => ?_, fun _ _ h => ?_, fun _ h => ?_⟩ <;> exact absurd h (Nat.not_lt_zero _)
  | succ fuel ih =>
    exact ⟨fun position => exists_tokens_print ih position,
      fun position _ => exists_tokens_printItems ih position,
      fun position => exists_tokens_printMembers ih position⟩

/-- **The numerals of a written document denote what is written for its numbers.** -/
theorem exists_tokens_of_print (doc : Json) :
    ∃ tokens, tokens? doc.print = some tokens ∧
      List.Forall₂ IsShown tokens (doc.numbersAt []) := by
  have hfuel : 2 * doc.print.length < 2 * doc.print.length + 2 := by omega
  have hend : EndsNumber [] := nofun
  obtain ⟨tokens, htokens, hshown⟩ := (collectsShown _).value [] hfuel hend
  rw [List.append_nil] at htokens
  refine ⟨tokens, ?_, hshown⟩
  rw [tokens?, htokens]
  rfl

end DumpMask.Json
