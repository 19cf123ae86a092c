import DumpMask.Proofs.Trimming
import DumpMask.Statement.Values

/-!
# Where the rows are looked for

A cue is a place where a list of tuples seems to begin: the keyword after a boundary and before a
tuple. The search for a keyword stops at the first cue of the line, whatever part of the statement
the cue stands in, and whether it is a cue does not depend on what follows the tuple's parenthesis.
-/

namespace DumpMask.Statement

/-- `head` ends with the keyword, and `after` begins with a tuple. The octet in front of the whole
text is `before`. -/
def IsCue (keyword : Bytes) (before : Option UInt8) (head after : Bytes) : Prop :=
  ∃ start, head = start ++ keyword ∧ isBoundary (start.getLast?.or before) = true ∧
    opensTuple after = true

def HasCue (keyword text : Bytes) : Prop :=
  ∃ head after, head ++ after = text ∧ IsCue keyword none head after

/-- The cut after the first cue of a text. -/
structure IsFirstCue (keyword : Bytes) (before : Option UInt8) (text head after : Bytes) :
    Prop where
  text_eq : head ++ after = text
  cue : IsCue keyword before head after
  first : ∀ head' after', head' ++ after' = text → IsCue keyword before head' after' →
    head.length ≤ head'.length

variable {keyword : Bytes}

theorem IsFirstCue.unique {before : Option UInt8} {text head head' after after' : Bytes}
    (h : IsFirstCue keyword before text head after)
    (h' : IsFirstCue keyword before text head' after') : head = head' ∧ after = after' := by
  have hlength : head.length = head'.length :=
    Nat.le_antisymm (h.first _ _ h'.text_eq h'.cue) (h'.first _ _ h.text_eq h.cue)
  exact List.append_inj (h.text_eq.trans h'.text_eq.symm) hlength

/-! ### The search finds the first cue -/

theorem isCue_append_iff {before : Option UInt8} {start word after : Bytes}
    (hlength : word.length = keyword.length) :
    IsCue keyword before (start ++ word) after ↔
      word = keyword ∧ isBoundary (start.getLast?.or before) = true ∧ opensTuple after = true := by
  constructor
  · rintro ⟨start', hstart, hboundary, hopens⟩
    obtain ⟨rfl, rfl⟩ := List.append_inj' hstart hlength
    exact ⟨rfl, hboundary, hopens⟩
  · rintro ⟨rfl, hboundary, hopens⟩
    exact ⟨start, rfl, hboundary, hopens⟩

theorem isCue_keyword_iff {before : Option UInt8} {after : Bytes} :
    IsCue keyword before keyword after ↔ isBoundary before = true ∧ opensTuple after = true := by
  have hcue : IsCue keyword before ([] ++ keyword) after ↔ _ := isCue_append_iff rfl
  rwa [List.nil_append, eq_self, true_and] at hcue

theorem not_isCue_nil (hkeyword : keyword ≠ []) {before : Option UInt8} {after : Bytes} :
    ¬ IsCue keyword before [] after := by
  rintro ⟨start, hstart, -⟩
  exact hkeyword (List.append_eq_nil_iff.mp hstart.symm).2

/-- A cue of a text is at its front, or it is a cue of the rest. -/
theorem isCue_cons_iff {before : Option UInt8} {b : UInt8} {head after : Bytes} :
    IsCue keyword before (b :: head) after ↔
      (b :: head = keyword ∧ isBoundary before = true ∧ opensTuple after = true) ∨
        IsCue keyword (some b) head after := by
  constructor
  · rintro ⟨start, hstart, hboundary, hopens⟩
    cases start with
    | nil => exact Or.inl ⟨hstart, hboundary, hopens⟩
    | cons c start =>
      obtain ⟨rfl, hrest⟩ := List.cons.inj hstart
      refine Or.inr ⟨start, hrest, ?_, hopens⟩
      rw [List.getLast?_cons] at hboundary
      cases hlast : start.getLast? <;> simpa [hlast] using hboundary
  · rintro (⟨heq, hboundary, hopens⟩ | ⟨start, rfl, hboundary, hopens⟩)
    · exact ⟨[], heq, hboundary, hopens⟩
    · refine ⟨b :: start, rfl, ?_, hopens⟩
      rw [List.getLast?_cons]
      cases hlast : start.getLast? <;> simpa [hlast] using hboundary

theorem isFirstCue_cons_iff {before : Option UInt8} {b : UInt8} {rest head after : Bytes}
    (hkeyword : keyword ≠ [])
    (hfront : ∀ after, keyword ++ after = b :: rest → ¬ IsCue keyword before keyword after) :
    IsFirstCue keyword before (b :: rest) head after ↔
      ∃ head', head = b :: head' ∧ IsFirstCue keyword (some b) rest head' after := by
  have hstep : ∀ {head after : Bytes}, head ++ after = rest →
      (IsCue keyword before (b :: head) after ↔ IsCue keyword (some b) head after) := by
    intro head after htext
    rw [isCue_cons_iff]
    refine or_iff_right ?_
    rintro ⟨heq, hcue⟩
    refine hfront after ?_ (isCue_keyword_iff.mpr hcue)
    rw [← heq, List.cons_append, htext]
  constructor
  · rintro ⟨htext, hcue, hfirst⟩
    cases head with
    | nil => exact absurd hcue (not_isCue_nil hkeyword)
    | cons c head =>
      obtain ⟨rfl, hrest⟩ := List.cons.inj htext
      refine ⟨head, rfl, hrest, (hstep hrest).mp hcue, ?_⟩
      intro head' after' htext' hcue'
      have hle := hfirst (c :: head') after' (congrArg _ htext') ((hstep htext').mpr hcue')
      exact Nat.le_of_succ_le_succ hle
  · rintro ⟨head, rfl, hrest, hcue, hfirst⟩
    refine ⟨congrArg _ hrest, (hstep hrest).mpr hcue, ?_⟩
    intro head' after' htext' hcue'
    cases head' with
    | nil => exact absurd hcue' (not_isCue_nil hkeyword)
    | cons c head' =>
      obtain ⟨rfl, hrest'⟩ := List.cons.inj htext'
      exact Nat.succ_le_succ (hfirst head' after' hrest' ((hstep hrest').mp hcue'))

/-- One step of the search: it stops at a cue in front, or goes on behind the first octet. -/
theorem cutAfter?_cons (before : Option UInt8) (b : UInt8) (rest : Bytes) :
    (∃ after, keyword ++ after = b :: rest ∧ IsCue keyword before keyword after ∧
        cutAfter? keyword before (b :: rest) = some (keyword, after)) ∨
      ((∀ after, keyword ++ after = b :: rest → ¬ IsCue keyword before keyword after) ∧
        cutAfter? keyword before (b :: rest) =
          (cutAfter? keyword (some b) rest).map fun (head, after) => (b :: head, after)) := by
  rw [cutAfter?]
  split
  · next after hstrip =>
    have htext := Bytes.stripStart?_eq_some_iff.mp hstrip
    by_cases hcue : IsCue keyword before keyword after
    · obtain ⟨hboundary, hopens⟩ := isCue_keyword_iff.mp hcue
      exact Or.inl ⟨after, htext.symm, hcue, by simp [hboundary, hopens]⟩
    · refine Or.inr ⟨?_, ?_⟩
      · intro after' htext'
        rw [htext] at htext'
        rwa [List.append_cancel_left htext']
      · rw [isCue_keyword_iff] at hcue
        simp [hcue]
  · next hstrip =>
    refine Or.inr ⟨?_, rfl⟩
    intro after htext
    rw [Bytes.stripStart?_eq_some_iff.mpr htext.symm] at hstrip
    cases hstrip

theorem cutAfter?_eq_some_iff (hkeyword : keyword ≠ []) {before : Option UInt8}
    {text head after : Bytes} :
    cutAfter? keyword before text = some (head, after) ↔
      IsFirstCue keyword before text head after := by
  induction text generalizing before head after with
  | nil =>
    constructor
    · intro h
      cases h
    · intro h
      obtain rfl := (List.append_eq_nil_iff.mp h.text_eq).1
      exact absurd h.cue (not_isCue_nil hkeyword)
  | cons b rest ih =>
    rcases cutAfter?_cons before b rest with ⟨after', htext, hcue, hcut⟩ | ⟨hfront, hcut⟩
    · have hfirst : IsFirstCue keyword before (b :: rest) keyword after' := by
        refine ⟨htext, hcue, ?_⟩
        rintro head' after'' - ⟨start, rfl, -⟩
        simp
      rw [hcut]
      constructor
      · intro h
        cases h
        exact hfirst
      · intro h
        obtain ⟨rfl, rfl⟩ := hfirst.unique h
        rfl
    · rw [hcut, isFirstCue_cons_iff hkeyword hfront, Option.map_eq_some_iff]
      constructor
      · rintro ⟨⟨head', after'⟩, hrest, heq⟩
        cases heq
        exact ⟨head', rfl, ih.mp hrest⟩
      · rintro ⟨head', rfl, hrest⟩
        exact ⟨⟨head', after⟩, ih.mpr hrest, rfl⟩

theorem cutAfter?_eq_none_iff (hkeyword : keyword ≠ []) {text : Bytes} :
    cutAfter? keyword none text = none ↔ ¬ HasCue keyword text := by
  constructor
  · -- the octet in front of the text changes in the induction
    have hnone : ∀ (text : Bytes) (before : Option UInt8), cutAfter? keyword before text = none →
        ∀ head after, head ++ after = text → ¬ IsCue keyword before head after := by
      intro text
      induction text with
      | nil =>
        intro before _ head after htext
        obtain rfl := (List.append_eq_nil_iff.mp htext).1
        exact not_isCue_nil hkeyword
      | cons b rest ih =>
        intro before hcut head after htext hcue
        rcases cutAfter?_cons before b rest with ⟨_, _, _, hsome⟩ | ⟨hfront, hstep⟩
        · rw [hcut] at hsome
          cases hsome
        · rw [hstep, Option.map_eq_none_iff] at hcut
          cases head with
          | nil => exact not_isCue_nil hkeyword hcue
          | cons c head =>
            obtain ⟨rfl, hrest⟩ := List.cons.inj htext
            rcases isCue_cons_iff.mp hcue with ⟨rfl, hboundary⟩ | hcue
            · exact hfront after htext (isCue_keyword_iff.mpr hboundary)
            · exact ih (some c) hcut head after hrest hcue
    rintro h ⟨head, after, htext, hcue⟩
    exact hnone text none h head after htext hcue
  · intro h
    cases hcut : cutAfter? keyword none text with
    | none => rfl
    | some cut =>
      obtain ⟨head, after⟩ := cut
      have hfirst := (cutAfter?_eq_some_iff hkeyword).mp hcut
      exact absurd ⟨head, after, hfirst.text_eq, hfirst.cue⟩ h

theorem exists_isFirstCue (hkeyword : keyword ≠ []) {text : Bytes} (h : HasCue keyword text) :
    ∃ head after, IsFirstCue keyword none text head after := by
  cases hcut : cutAfter? keyword none text with
  | none => exact absurd h ((cutAfter?_eq_none_iff hkeyword).mp hcut)
  | some cut => exact ⟨cut.1, cut.2, (cutAfter?_eq_some_iff hkeyword).mp hcut⟩

theorem cutAfterValues?_eq_some_iff {line head after : Bytes} :
    cutAfterValues? line = some (head, after) ↔
      IsFirstCue (ascii "VALUES") none line head after ∨
        (¬ HasCue (ascii "VALUES") line ∧ IsFirstCue (ascii "values") none line head after) := by
  have hupper : ascii "VALUES" ≠ [] := by decide
  have hlower : ascii "values" ≠ [] := by decide
  rw [cutAfterValues?, Option.or_eq_some_iff, cutAfter?_eq_some_iff hupper,
    cutAfter?_eq_none_iff hupper, cutAfter?_eq_some_iff hlower]

theorem cutAfterValues?_eq_none_iff {line : Bytes} :
    cutAfterValues? line = none ↔
      ¬ HasCue (ascii "VALUES") line ∧ ¬ HasCue (ascii "values") line := by
  have hupper : ascii "VALUES" ≠ [] := by decide
  have hlower : ascii "values" ≠ [] := by decide
  rw [cutAfterValues?, Option.or_eq_none_iff, cutAfter?_eq_none_iff hupper,
    cutAfter?_eq_none_iff hlower]

theorem cutAfterValues?_append {line head after : Bytes}
    (h : cutAfterValues? line = some (head, after)) : head ++ after = line := by
  rcases cutAfterValues?_eq_some_iff.mp h with hfirst | ⟨-, hfirst⟩
  · exact hfirst.text_eq
  · exact hfirst.text_eq

/-! ### What a cue depends on -/

theorem opensTuple_iff {text : Bytes} :
    opensTuple text = true ↔
      ∃ blanks more, Bytes.AllBlank blanks ∧ text = blanks ++ Ascii.openParen :: more := by
  constructor
  · intro h
    have htext := List.takeWhile_append_dropWhile (p := Ascii.isBlank) (l := text)
    obtain ⟨more, hmore⟩ := List.head?_eq_some_iff.mp (beq_iff_eq.mp h)
    rw [Bytes.trimStart] at hmore
    exact ⟨_, more, Bytes.allBlank_takeWhile text, by rw [← hmore, htext]⟩
  · rintro ⟨blanks, more, hblanks, rfl⟩
    have hparen : Bytes.NoLeadingBlank (Ascii.openParen :: more) :=
      Bytes.noLeadingBlank_cons_iff.mpr (by decide)
    rw [opensTuple, Bytes.trimStart, Bytes.dropWhile_append hblanks hparen]
    rfl

theorem opensTuple_append {mid : Bytes} (hmid : ¬ Bytes.AllBlank mid) (more : Bytes) :
    opensTuple (mid ++ more) = opensTuple mid := by
  have hmid' := List.takeWhile_append_dropWhile (p := Ascii.isBlank) (l := mid)
  cases hdrop : mid.dropWhile Ascii.isBlank with
  | nil =>
    rw [hdrop, List.append_nil] at hmid'
    exact absurd (hmid' ▸ Bytes.allBlank_takeWhile mid) hmid
  | cons b rest =>
    have hmore : (mid ++ more).dropWhile Ascii.isBlank = b :: (rest ++ more) := by
      rw [List.dropWhile_append, hdrop]
      rfl
    rw [opensTuple, opensTuple, Bytes.trimStart, Bytes.trimStart, hmore, hdrop]
    rfl

theorem not_allBlank_of_opensTuple {text : Bytes} (h : opensTuple text = true) :
    ¬ Bytes.AllBlank text := by
  obtain ⟨blanks, more, -, rfl⟩ := opensTuple_iff.mp h
  intro hall
  cases hall Ascii.openParen (by simp)

theorem not_allBlank_of_noTrailingBlank {text : Bytes} (h : Bytes.NoTrailingBlank text)
    (hne : text ≠ []) : ¬ Bytes.AllBlank text := by
  intro hall
  have hlast := h _ (List.getLast?_eq_some_getLast hne)
  rw [hall _ (List.getLast_mem hne)] at hlast
  cases hlast

theorem IsCue.opensTuple {before : Option UInt8} {head after : Bytes}
    (h : IsCue keyword before head after) : opensTuple after = true := by
  obtain ⟨_, _, _, hopens⟩ := h
  exact hopens

/-- Only the front of the text behind a cue makes it a cue. -/
theorem IsCue.replace {before : Option UInt8} {head after after' : Bytes}
    (h : IsCue keyword before head after) (hopens : Statement.opensTuple after' = true) :
    IsCue keyword before head after' := by
  obtain ⟨start, hstart, hboundary, -⟩ := h
  exact ⟨start, hstart, hboundary, hopens⟩

/-- The first cue is the one that has no cue in front of it. -/
theorem isFirstCue_iff {text head after : Bytes} (hkeyword : keyword ≠ [])
    (hlast : Bytes.NoTrailingBlank keyword) :
    IsFirstCue keyword none text head after ↔
      head ++ after = text ∧ IsCue keyword none head after ∧ ¬ HasCue keyword head := by
  constructor
  · intro h
    refine ⟨h.text_eq, h.cue, ?_⟩
    rintro ⟨head', mid, hhead, hcue⟩
    have hopens := hcue.opensTuple
    rw [← opensTuple_append (not_allBlank_of_opensTuple hopens) after] at hopens
    have hle := h.first head' (mid ++ after) (by rw [← List.append_assoc, hhead, h.text_eq])
      (hcue.replace hopens)
    rw [← hhead, List.length_append] at hle
    have hmid : mid = [] := List.length_eq_zero_iff.mp (by omega)
    rw [hmid] at hcue
    cases hcue.opensTuple
  · rintro ⟨htext, hcue, hnone⟩
    refine ⟨htext, hcue, ?_⟩
    intro head' after' htext' hcue'
    rcases List.append_eq_append_iff.mp (htext'.trans htext.symm) with
      ⟨mid, hhead, hafter⟩ | ⟨mid, hhead, -⟩
    · by_cases hmid : mid = []
      · rw [hmid, List.append_nil] at hhead
        exact Nat.le_of_eq (congrArg List.length hhead)
      · -- the keyword ends what is between the cues, so the earlier cue is one of the head
        have htrailing : Bytes.NoTrailingBlank mid := by
          obtain ⟨start, hstart, -⟩ := hcue
          have heq : mid.getLast? = keyword.getLast? := by
            have hlasts := congrArg List.getLast? (hhead.symm.trans hstart)
            rwa [List.getLast?_append, List.getLast?_append,
              List.getLast?_eq_some_getLast hmid, List.getLast?_eq_some_getLast hkeyword,
              Option.some_or, Option.some_or, ← List.getLast?_eq_some_getLast hmid,
              ← List.getLast?_eq_some_getLast hkeyword] at hlasts
          rwa [Bytes.NoTrailingBlank, heq]
        have hopens := hcue'.opensTuple
        rw [hafter, opensTuple_append (not_allBlank_of_noTrailingBlank htrailing hmid)] at hopens
        exact absurd ⟨head', mid, hhead.symm, hcue'.replace hopens⟩ hnone
    · rw [hhead, List.length_append]
      exact Nat.le_add_right _ _

/-- The first cue of a part is that of the whole text if none ends in front of it. -/
theorem IsFirstCue.append {front text head after : Bytes} (hkeyword : keyword ≠ [])
    (hlast : Bytes.NoTrailingBlank keyword) (h : IsFirstCue keyword none text head after)
    (hfront : ¬ HasCue keyword (front ++ head)) (back : Bytes) :
    IsFirstCue keyword none (front ++ (text ++ back)) (front ++ head) (after ++ back) := by
  obtain ⟨rfl, ⟨start, rfl, hboundary, hopens⟩, -⟩ := h
  refine (isFirstCue_iff hkeyword hlast).mpr ⟨by simp only [List.append_assoc], ?_, hfront⟩
  refine ⟨front ++ start, (List.append_assoc ..).symm, ?_, ?_⟩
  · cases hstart : start.getLast? with
    | none =>
      rw [hstart] at hboundary
      cases hboundary
    | some b =>
      rw [hstart] at hboundary
      rwa [List.getLast?_append, hstart]
  · rwa [opensTuple_append (not_allBlank_of_opensTuple hopens)]

/-- Behind the upper case keyword, another list of tuples is found in the same place. -/
theorem cutAfterValues?_replace {line head after after' : Bytes}
    (h : cutAfterValues? line = some (head, after)) (hupper : ascii "VALUES" <:+ head)
    (hopens : opensTuple after' = true) :
    cutAfterValues? (head ++ after') = some (head, after') := by
  have hkeyword : ascii "VALUES" ≠ [] := by decide
  have hlast : Bytes.NoTrailingBlank (ascii "VALUES") := by
    intro b hb
    cases hb
    decide
  have hfirst : IsFirstCue (ascii "VALUES") none line head after := by
    rcases cutAfterValues?_eq_some_iff.mp h with hfirst | ⟨-, hfirst⟩
    · exact hfirst
    · -- the two spellings cannot end the same head
      obtain ⟨start, hstart, -⟩ := hfirst.cue
      obtain ⟨start', hstart'⟩ := hupper
      have hlength : (ascii "VALUES").length = (ascii "values").length := by decide
      have heq := (List.append_inj' (hstart'.trans hstart) hlength).2
      exact absurd heq (by decide)
  obtain ⟨-, hcue, hnone⟩ := (isFirstCue_iff hkeyword hlast).mp hfirst
  apply cutAfterValues?_eq_some_iff.mpr
  exact Or.inl ((isFirstCue_iff hkeyword hlast).mpr ⟨rfl, hcue.replace hopens, hnone⟩)

end DumpMask.Statement
