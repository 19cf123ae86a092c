import DumpMask.Proofs.LetterCase
import DumpMask.Proofs.Literal.Bodies
import DumpMask.Proofs.Tuple.Written

/-!
# Where readers and scans end a literal

A scan ends a string at its first quote that is neither escaped nor doubled, and a reader accepts a
string only if there is no such quote before its end. Main statement: literals that can be read are
cut out of a tuple as they were put into it, and of a literal that was cut out a reader never finds
that it ends too early or too late.
-/

namespace DumpMask.Tuple

/-! ### Bodies of strings -/

theorem stringBody_tokens (tokens : List Literal.Token) :
    StringBody (tokens.flatMap Literal.Token.text) := by
  induction tokens with
  | nil => exact .nil
  | cons token tokens ih =>
    cases token with
    | plain b hquote hbackslash => exact .plain hbackslash hquote ih
    | doubled => exact .doubled ih
    | escaped code => exact .escaped code ih

theorem stringBody_of_unescapeFrom {offset : Nat} {body value : Bytes}
    (h : Literal.unescapeFrom offset body = .ok value) : StringBody body := by
  obtain ⟨tokens, rfl, -⟩ := Literal.unescapeFrom_eq_ok_iff.mp h
  exact stringBody_tokens tokens

theorem exists_unknownEscape_of_stringBody {offset : Nat} {body : Bytes} {fault : Literal.Fault}
    (hbody : StringBody body) (h : Literal.unescapeFrom offset body = .error fault) :
    ∃ code place, fault = .unknownEscape code place := by
  induction hbody generalizing offset with
  | nil => cases h
  | escaped b hrest ih =>
    rw [Literal.unescapeFrom_backslash] at h
    split at h
    · exact ih (map_eq_error_iff.mp h)
    · cases h
      exact ⟨b, offset, rfl⟩
  | doubled hrest ih =>
    rw [Literal.unescapeFrom.eq_def] at h
    exact ih (map_eq_error_iff.mp h)
  | plain hbackslash hquote hrest ih =>
    rw [Literal.unescapeFrom_cons_plain hquote hbackslash] at h
    exact ih (map_eq_error_iff.mp h)

/-! ### What can be read is cut out as a whole -/

theorem isToken_of_isBare {token : Bytes} (h : Literal.IsBare token) : IsToken token := by
  rcases Literal.isUnquoted_iff.mp h.unquoted with ⟨b, bits, hb, hbits, rfl⟩ | hall
  · refine Or.inr ⟨?_, ?_⟩
    · have hquote : b ≠ Ascii.quote := by rcases hb with rfl | rfl <;> decide
      have hunderscore : b ≠ Ascii.underscore := by rcases hb with rfl | rfl <;> decide
      rintro ⟨before, rest, rfl | ⟨blanks, -, rfl⟩, heq⟩
      · exact hquote (List.head_eq_of_cons_eq heq)
      · exact hunderscore (List.head_eq_of_cons_eq heq)
    · intro c hc
      simp only [List.mem_cons, List.mem_append, List.not_mem_nil, or_false] at hc
      rcases hc with rfl | rfl | hbit | rfl
      · rcases hb with rfl | rfl <;> rfl
      · rfl
      · rcases hbits c hbit with rfl | rfl <;> rfl
      · rfl
  · exact isToken_of_all_isBareOctet hall

theorem isToken_of_reading {token : Bytes} {result : Except Literal.Fault Literal}
    {literal : Literal} (h : Literal.Reading token result) (hok : result = .ok literal) :
    IsToken token := by
  cases h with
  | empty => cases hok
  | null hnull =>
    have hall : Literal.nullToken.all Literal.isBareOctet = true := by decide
    exact isToken_of_all_isBareOctet
      (Bytes.all_of_equalsIgnoringCase (fun _ => Literal.isBareOctet_of_isLetter) hnull hall)
  | @binary blanks hblanks rest =>
    obtain ⟨value, hvalue, -⟩ := map_eq_ok_iff.mp hok
    obtain ⟨inner, rfl, hinner⟩ := Literal.exists_inner_of_unquote hvalue
    exact Or.inl ⟨Literal.binaryIntroducer ++ blanks, inner, Or.inr ⟨blanks, hblanks, rfl⟩,
      stringBody_of_unescapeFrom hinner, (List.append_assoc ..).symm⟩
  | quoted rest =>
    obtain ⟨value, hvalue, -⟩ := map_eq_ok_iff.mp hok
    obtain ⟨inner, rfl, hinner⟩ := Literal.exists_inner_of_unquote hvalue
    exact Or.inl ⟨[], inner, Or.inl rfl, stringBody_of_unescapeFrom hinner, rfl⟩
  | @hex x digits hx hdigits =>
    obtain ⟨value, hvalue, -⟩ := map_eq_ok_iff.mp hok
    apply isToken_of_all_isBareOctet
    rw [List.all_cons, List.all_cons, Literal.all_isBareOctet_of_readHex hvalue]
    rcases hx with rfl | rfl <;> rfl
  | bare hbare => exact isToken_of_isBare hbare
  | invalid token => cases hok

/-! ### What was cut out ends where a reader ends it -/

/-- The faults that are not about the end of a literal. -/
inductive IsContentFault : Literal.Fault → Prop
  | empty : IsContentFault .empty
  | unknownEscape (code : UInt8) (offset : Nat) : IsContentFault (.unknownEscape code offset)
  | invalidHex : IsContentFault .invalidHex
  | invalidBareToken : IsContentFault .invalidBareToken

theorem IsToken.exists_inner {before rest : Bytes} (hbefore : IsIntroducer before)
    (h : IsToken (before ++ Ascii.quote :: rest)) :
    ∃ inner, StringBody inner ∧ rest = inner ++ [Ascii.quote] := by
  rcases h with ⟨before', inner, hbefore', hinner, heq⟩ | ⟨hstarts, -⟩
  · have hstart : stringStart? (before ++ Ascii.quote :: rest) =
        some (before, Ascii.quote :: rest) :=
      stringStart?_eq_some_iff.mpr ⟨hbefore, List.head?_cons, rfl⟩
    rw [stringStart?_eq_some_iff.mpr ⟨hbefore', List.head?_cons, heq⟩] at hstart
    cases hstart
    exact ⟨inner, hinner, rfl⟩
  · exact absurd ⟨before, rest, hbefore, rfl⟩ hstarts

theorem isContentFault_of_unquote {before rest : Bytes} {fault : Literal.Fault}
    (hbefore : IsIntroducer before) (htoken : IsToken (before ++ Ascii.quote :: rest))
    (h : Literal.unquote (Ascii.quote :: rest) = .error fault) : IsContentFault fault := by
  obtain ⟨inner, hinner, rfl⟩ := htoken.exists_inner hbefore
  rw [Literal.unquote_concat_quote] at h
  obtain ⟨code, offset, rfl⟩ := exists_unknownEscape_of_stringBody hinner h
  exact .unknownEscape code offset

theorem invalidHex_of_readHex {digits : Bytes} {fault : Literal.Fault}
    (h : Literal.readHex digits = .error fault) : fault = .invalidHex := by
  fun_induction Literal.readHex digits with
  | case1 => cases h
  | case2 =>
    cases h
    rfl
  | case3 high low rest _ _ _ _ ih => exact ih (map_eq_error_iff.mp h)
  | case4 =>
    cases h
    rfl

theorem isContentFault_of_reading {token : Bytes} {result : Except Literal.Fault Literal}
    {fault : Literal.Fault} (h : Literal.Reading token result) (htoken : IsToken token)
    (herror : result = .error fault) : IsContentFault fault := by
  cases h with
  | empty =>
    cases herror
    exact .empty
  | null hnull => cases herror
  | @binary blanks hblanks rest =>
    rw [← List.append_assoc] at htoken
    exact isContentFault_of_unquote (Or.inr ⟨blanks, hblanks, rfl⟩) htoken
      (map_eq_error_iff.mp herror)
  | quoted rest =>
    exact isContentFault_of_unquote (Or.inl rfl) htoken (map_eq_error_iff.mp herror)
  | hex hx hdigits =>
    rw [invalidHex_of_readHex (map_eq_error_iff.mp herror)]
    exact .invalidHex
  | bare hbare => cases herror
  | invalid token =>
    cases herror
    exact .invalidBareToken

/-! ### Rows -/

theorem extract_spans {row : Bytes} {layout : Layout} (h : split row = .ok layout) :
    layout.spans.map (fun span => row.extract span.1 span.2) = layout.contents := by
  rw [← text_of_split h]
  exact Layout.extract_spansFrom [] layout.slots layout.tail

theorem trim_ne_nil_of_read {text : Bytes} {literal : Literal}
    (h : Literal.read text = .ok literal) : Bytes.trim text ≠ [] := by
  intro hempty
  rw [Literal.read, hempty] at h
  cases h

theorem exists_cells {pieces : List PaddedText}
    (h : ∀ piece ∈ pieces, ∃ literal, Literal.read piece.text = .ok literal) :
    ∃ cells : List Cell, cells.map Cell.literal = pieces.map (fun piece => Bytes.trim piece.text) ∧
      cells.map Cell.text = pieces.map PaddedText.whole := by
  induction pieces with
  | nil => exact ⟨[], rfl, rfl⟩
  | cons piece rest ih =>
    obtain ⟨literal, hread⟩ := h piece (List.mem_cons_self ..)
    obtain ⟨cells, hliterals, htexts⟩ := ih fun other hmem => h other (List.mem_cons_of_mem _ hmem)
    have htoken := isToken_of_reading (Literal.reading (Bytes.trim piece.text)) hread
    obtain ⟨cell, hliteral, htext⟩ := exists_cell htoken (trim_ne_nil_of_read hread)
    refine ⟨cell :: cells, ?_, ?_⟩
    · rw [List.map_cons, List.map_cons, hliteral, hliterals]
    · rw [List.map_cons, List.map_cons, htext, htexts]

/-- **Readers and scans agree.** Texts that can be read, with blanks around them, are cut out of a
tuple in their places and without the blanks. What is cut out of any row is not faulted for where it
ends. -/
theorem split_agrees_with_read :
    (∀ pieces : List PaddedText, pieces ≠ [] →
      (∀ piece ∈ pieces, ∃ literal, Literal.read piece.text = .ok literal) →
      ∃ layout, split (join (pieces.map PaddedText.whole)) = .ok layout ∧
        layout.spans.length = pieces.length ∧
        layout.spans.map (fun span =>
            (join (pieces.map PaddedText.whole)).extract span.1 span.2) =
          pieces.map fun piece => Bytes.trim piece.text) ∧
    ∀ row layout, split row = .ok layout → ∀ span ∈ layout.spans, ∀ fault,
      Literal.read (row.extract span.1 span.2) = .error fault → IsContentFault fault := by
  refine ⟨?_, ?_⟩
  · intro pieces hpieces hreads
    obtain ⟨cells, hliterals, htexts⟩ := exists_cells hreads
    have hne : cells.map Cell.literal ≠ [[]] := by
      rw [hliterals]
      intro hempty
      obtain ⟨piece, rfl⟩ := List.length_eq_one_iff.mp (by simpa using congrArg List.length hempty)
      obtain ⟨literal, hread⟩ := hreads piece (List.mem_singleton_self piece)
      exact trim_ne_nil_of_read hread (List.head_eq_of_cons_eq hempty)
    obtain ⟨tuple, htuple, hcontents, htext⟩ := exists_isTuple_cells cells hne
    rw [← htexts, ← hliterals, ← htext, ← hcontents]
    have hsplit := split_of_isTuple htuple
    have hspans := extract_spans hsplit
    refine ⟨tuple, hsplit, ?_, hspans⟩
    have hlength := congrArg List.length hspans
    rw [hcontents, hliterals] at hlength
    simpa using hlength
  · intro row layout hsplit span hspan fault hread
    have hmem : row.extract span.1 span.2 ∈ layout.contents := by
      rw [← extract_spans hsplit]
      exact List.mem_map_of_mem (f := fun span => row.extract span.1 span.2) hspan
    obtain ⟨htoken, htrimmed⟩ := isToken_of_split hsplit _ hmem
    rw [Literal.read, Bytes.trim_of_isTrimmed htrimmed] at hread
    exact isContentFault_of_reading (Literal.reading _) htoken hread

theorem split_agrees_with_read_quotes :
    let pieces : List PaddedText :=
      [⟨ascii " ", ascii "_binary 'a''\\',)'", ascii "\t", by decide, by decide⟩,
        ⟨[], ascii "null", ascii " ", by decide, by decide⟩]
    (∃ layout, split (join (pieces.map PaddedText.whole)) = .ok layout ∧
        layout.spans.map (fun span =>
            (join (pieces.map PaddedText.whole)).extract span.1 span.2) =
          [ascii "_binary 'a''\\',)'", ascii "null"]) ∧
      Literal.read ((ascii "('\\q')").extract 1 5) = .error (.unknownEscape 0x71 1) ∧
        IsContentFault (.unknownEscape 0x71 1) := by
  intro pieces
  have hbinary : Literal.read (ascii "_binary 'a''\\',)'") = .ok ⟨.binary, ascii "a'',)"⟩ :=
    eq_ok_of_toOption (by decide +kernel)
  have hnull : Literal.read (ascii "null") = .ok ⟨.null, []⟩ :=
    eq_ok_of_toOption (by decide +kernel)
  have hreads : ∀ piece ∈ pieces, ∃ literal, Literal.read piece.text = .ok literal := by
    intro piece hpiece
    rcases List.mem_cons.mp hpiece with rfl | hpiece
    · exact ⟨_, hbinary⟩
    · rw [List.mem_singleton.mp hpiece]
      exact ⟨_, hnull⟩
  obtain ⟨layout, hsplit, -, hspans⟩ :=
    split_agrees_with_read.1 pieces (List.cons_ne_nil _ _) hreads
  have hrow : split (ascii "('\\q')") = .ok ⟨[⟨ascii "(", ascii "'\\q'"⟩], ascii ")"⟩ :=
    eq_ok_of_toOption (by decide +kernel)
  have hfault : Literal.read ((ascii "('\\q')").extract 1 5) = .error (.unknownEscape 0x71 1) := rfl
  refine ⟨⟨layout, hsplit, hspans⟩, hfault, ?_⟩
  exact split_agrees_with_read.2 _ _ hrow (1, 5) (List.mem_singleton_self _) _ hfault

end DumpMask.Tuple
