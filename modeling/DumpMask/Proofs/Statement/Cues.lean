import DumpMask.Proofs.Statement.Keyword

/-!
# Where cues can stand

A cue takes up a stretch of a text: a boundary, the keyword, blanks and an opening parenthesis. Most
octets stand in no cue, or only at one end of it, so a text that is put together of parts has the
cues of its parts and no others, and its first cue is that of the first part that has one.
-/

namespace DumpMask.Statement

/-- The stretch of text that a cue takes up, from its boundary to its parenthesis. -/
def IsCueText (keyword cue : Bytes) : Prop :=
  ∃ boundary blanks, isBoundary (some boundary) = true ∧ Bytes.AllBlank blanks ∧
    cue = boundary :: (keyword ++ (blanks ++ [Ascii.openParen]))

variable {keyword : Bytes}

theorem hasCue_iff_exists {text : Bytes} :
    HasCue keyword text ↔ ∃ cue, IsCueText keyword cue ∧ cue <:+: text := by
  constructor
  · rintro ⟨head, after, rfl, start, rfl, hboundary, hopens⟩
    obtain ⟨blanks, more, hblanks, rfl⟩ := opensTuple_iff.mp hopens
    cases hlast : start.getLast? with
    | none =>
      rw [hlast] at hboundary
      cases hboundary
    | some b =>
      obtain ⟨front, rfl⟩ := List.getLast?_eq_some_iff.mp hlast
      rw [hlast] at hboundary
      exact ⟨_, ⟨b, blanks, hboundary, hblanks, rfl⟩, front, more, by simp⟩
  · rintro ⟨_, ⟨b, blanks, hboundary, hblanks, rfl⟩, front, more, rfl⟩
    refine ⟨front ++ [b] ++ keyword, blanks ++ Ascii.openParen :: more, by simp,
      front ++ [b], rfl, ?_, opensTuple_iff.mpr ⟨blanks, more, hblanks, rfl⟩⟩
    simpa using hboundary

/-! ### The octets of a cue -/

/-- What a keyword must be for the marks of a statement to be no part of it. -/
def IsWord (keyword : Bytes) : Prop :=
  ∀ b ∈ keyword, Ascii.isLetter b = true

instance (keyword : Bytes) : Decidable (IsWord keyword) :=
  decidable_of_iff (keyword.all Ascii.isLetter = true) List.all_eq_true

theorem not_isBlank_of_isLetter {b : UInt8} (hb : Ascii.isLetter b = true) :
    Ascii.isBlank b = false := by
  cases hblank : Ascii.isBlank b with
  | false => rfl
  | true =>
    simp only [Ascii.isBlank, Bool.or_eq_true, beq_iff_eq] at hblank
    rcases hblank with (((rfl | rfl) | rfl) | rfl) | rfl <;> cases hb

theorem openParen_not_mem_of_isWord (hword : IsWord keyword) : Ascii.openParen ∉ keyword := by
  intro hmem
  cases hword _ hmem

namespace IsCueText

variable {cue front back : Bytes}

theorem openParen_mem (h : IsCueText keyword cue) : Ascii.openParen ∈ cue := by
  obtain ⟨boundary, blanks, -, -, rfl⟩ := h
  simp

theorem mem_of_mem_keyword (h : IsCueText keyword cue) {b : UInt8} (hb : b ∈ keyword) :
    b ∈ cue := by
  obtain ⟨boundary, blanks, -, -, rfl⟩ := h
  exact List.mem_cons_of_mem _ (List.mem_append_left _ hb)

theorem mem_cases (h : IsCueText keyword cue) {b : UInt8} (hb : b ∈ cue) :
    b ∈ keyword ∨ isBoundary (some b) = true ∨ b = Ascii.openParen := by
  obtain ⟨boundary, blanks, hboundary, hblanks, rfl⟩ := h
  simp only [List.mem_cons, List.mem_append, List.not_mem_nil, or_false] at hb
  rcases hb with rfl | hkeyword | hblank | hparen
  · exact Or.inr (Or.inl hboundary)
  · exact Or.inl hkeyword
  · refine Or.inr (Or.inl ?_)
    rw [isBoundary, hblanks b hblank, Bool.true_or]
  · exact Or.inr (Or.inr hparen)

/-- A cue that is cut in two begins with its boundary. -/
theorem boundary_mem_left (h : IsCueText keyword (front ++ back)) (hfront : front ≠ []) :
    ∃ b ∈ front, isBoundary (some b) = true := by
  obtain ⟨boundary, blanks, hboundary, -, heq⟩ := h
  cases front with
  | nil => exact absurd rfl hfront
  | cons b rest =>
    obtain ⟨rfl, -⟩ := List.cons.inj heq
    exact ⟨b, List.mem_cons_self .., hboundary⟩

/-- A cue that is cut in two ends with its only parenthesis. -/
theorem openParen_not_mem_left (hword : IsWord keyword) (h : IsCueText keyword (front ++ back))
    (hback : back ≠ []) : Ascii.openParen ∉ front := by
  obtain ⟨boundary, blanks, hboundary, hblanks, heq⟩ := h
  have hsplit : front ++ back.dropLast ++ [back.getLast hback] =
      boundary :: (keyword ++ blanks) ++ [Ascii.openParen] := by
    rw [List.append_assoc, List.dropLast_concat_getLast, heq]
    simp
  obtain ⟨hinit, -⟩ := List.append_inj' hsplit rfl
  intro hmem
  have hinner : Ascii.openParen ∈ boundary :: (keyword ++ blanks) :=
    hinit ▸ List.mem_append_left _ hmem
  rcases List.mem_cons.mp hinner with rfl | hrest
  · cases hboundary
  · rcases List.mem_append.mp hrest with hkeyword | hblank
    · exact openParen_not_mem_of_isWord hword hkeyword
    · cases hblanks _ hblank

end IsCueText

theorem not_hasCue_of_not_mem {text : Bytes} (hparen : Ascii.openParen ∉ text) :
    ¬ HasCue keyword text := by
  intro h
  obtain ⟨cue, hcue, hoccurs⟩ := hasCue_iff_exists.mp h
  exact hparen (hoccurs.subset hcue.openParen_mem)

theorem not_hasCue_nil : ¬ HasCue keyword [] := not_hasCue_of_not_mem List.not_mem_nil

theorem not_hasCue_of_not_mem_keyword {text : Bytes} {b : UInt8} (hb : b ∈ keyword)
    (hmem : b ∉ text) : ¬ HasCue keyword text := by
  intro h
  obtain ⟨cue, hcue, hoccurs⟩ := hasCue_iff_exists.mp h
  exact hmem (hoccurs.subset (hcue.mem_of_mem_keyword hb))

/-! ### Texts in two parts -/

section Parts

variable {left right : Bytes}

theorem hasCue_append_iff :
    HasCue keyword (left ++ right) ↔ HasCue keyword left ∨ HasCue keyword right ∨
      ∃ front back, IsCueText keyword (front ++ back) ∧ front ≠ [] ∧ back ≠ [] ∧
        front <:+ left ∧ back <+: right := by
  simp only [hasCue_iff_exists, List.infix_append_iff_ne_nil]
  constructor
  · rintro ⟨cue, hcue, hleft | hright | ⟨front, back, hfront, hback, rfl, hends, hstarts⟩⟩
    · exact Or.inl ⟨cue, hcue, hleft⟩
    · exact Or.inr (Or.inl ⟨cue, hcue, hright⟩)
    · exact Or.inr (Or.inr ⟨front, back, hcue, hfront, hback, hends, hstarts⟩)
  · rintro (⟨cue, hcue, hleft⟩ | ⟨cue, hcue, hright⟩ |
      ⟨front, back, hcue, hfront, hback, hends, hstarts⟩)
    · exact ⟨cue, hcue, Or.inl hleft⟩
    · exact ⟨cue, hcue, Or.inr (Or.inl hright)⟩
    · exact ⟨_, hcue, Or.inr (Or.inr ⟨front, back, hfront, hback, rfl, hends, hstarts⟩)⟩

theorem hasCue_append_of_no_openParen (hright : Ascii.openParen ∉ right) (hword : IsWord keyword) :
    HasCue keyword (left ++ right) ↔ HasCue keyword left := by
  rw [hasCue_append_iff]
  refine or_iff_left ?_
  rintro (h | ⟨front, back, hcue, -, hback, -, hstarts⟩)
  · exact not_hasCue_of_not_mem hright h
  · have hmem := hcue.openParen_mem
    rcases List.mem_append.mp hmem with hfront | hmem
    · exact hcue.openParen_not_mem_left hword hback hfront
    · exact hright (hstarts.subset hmem)

theorem hasCue_append_of_no_boundary (hleft : left.any (isBoundary <| some ·) = false) :
    HasCue keyword (left ++ right) ↔ HasCue keyword right := by
  have hplain : ∀ b ∈ left, isBoundary (some b) = false := by
    simpa using hleft
  have hcut : ∀ {front back : Bytes}, IsCueText keyword (front ++ back) → front ≠ [] →
      ¬ front <:+ left := by
    intro front back hcue hfront hends
    obtain ⟨b, hmem, hboundary⟩ := hcue.boundary_mem_left hfront
    rw [hplain b (hends.subset hmem)] at hboundary
    cases hboundary
  have hnone : ¬ HasCue keyword left := by
    intro h
    obtain ⟨cue, hcue, hoccurs⟩ := hasCue_iff_exists.mp h
    have hne : cue ≠ [] := List.ne_nil_of_mem hcue.openParen_mem
    rw [← List.append_nil cue] at hcue
    obtain ⟨b, hmem, hboundary⟩ := hcue.boundary_mem_left hne
    rw [hplain b (hoccurs.subset hmem)] at hboundary
    cases hboundary
  rw [hasCue_append_iff, or_iff_right hnone]
  refine or_iff_left ?_
  rintro ⟨front, back, hcue, hfront, -, hends, -⟩
  exact hcut hcue hfront hends

/-- An opening parenthesis ends the cue that it stands in. -/
theorem hasCue_append_openParen (hword : IsWord keyword) :
    HasCue keyword (left ++ Ascii.openParen :: right) ↔
      HasCue keyword (left ++ [Ascii.openParen]) ∨ HasCue keyword right := by
  rw [List.append_cons, hasCue_append_iff]
  refine or_congr_right (or_iff_left ?_)
  rintro ⟨front, back, hcue, hfront, hback, hends, -⟩
  rcases List.suffix_concat_iff.mp hends with hnil | ⟨rest, rfl, -⟩
  · exact hfront hnil
  · exact hcue.openParen_not_mem_left hword hback (by simp)

/-- A mark that stands in no cue. -/
structure IsMark (keyword : Bytes) (mark : UInt8) : Prop where
  not_mem : mark ∉ keyword
  not_boundary : isBoundary (some mark) = false
  ne_openParen : mark ≠ Ascii.openParen

theorem hasCue_append_mark {mark : UInt8} (hmark : IsMark keyword mark) :
    HasCue keyword (left ++ mark :: right) ↔ HasCue keyword left ∨ HasCue keyword right := by
  have hright : HasCue keyword (mark :: right) ↔ HasCue keyword right := by
    have hnone : [mark].any (isBoundary <| some ·) = false := by
      simp [hmark.not_boundary]
    exact hasCue_append_of_no_boundary hnone
  rw [hasCue_append_iff, hright]
  refine or_congr_right (or_iff_left ?_)
  rintro ⟨front, back, hcue, -, hback, -, hstarts⟩
  have hmem : mark ∈ front ++ back := by
    rcases List.prefix_cons_iff.mp hstarts with hnil | ⟨rest, rfl, -⟩
    · exact absurd hnil hback
    · simp
  rcases hcue.mem_cases hmem with hkeyword | hboundary | hparen
  · exact hmark.not_mem hkeyword
  · rw [hmark.not_boundary] at hboundary
    cases hboundary
  · exact hmark.ne_openParen hparen

theorem intercalate_map_cons_cons (mark : UInt8) {α : Type} (write : α → Bytes) (item other : α)
    (others : List α) :
    [mark].intercalate ((item :: other :: others).map write) =
      write item ++ mark :: [mark].intercalate ((other :: others).map write) := by
  rw [List.map_cons, List.map_cons, List.intercalate_cons_cons, ← List.map_cons]
  simp

/-- A text whose parts are separated by marks has the cues of its parts. -/
theorem hasCue_intercalate_iff {mark : UInt8} (hmark : IsMark keyword mark) {α : Type}
    (write : α → Bytes) (parts : List α) :
    HasCue keyword ([mark].intercalate (parts.map write)) ↔
      ∃ part ∈ parts, HasCue keyword (write part) := by
  induction parts with
  | nil => simp [List.intercalate_nil, not_hasCue_nil]
  | cons part rest ih =>
    cases rest with
    | nil => simp
    | cons next rest =>
      rw [intercalate_map_cons_cons, hasCue_append_mark hmark, ih]
      simp

end Parts

/-! ### The first cue of a text in parts -/

/-- A part of a text, with the text that follows it. -/
structure Part where
  text : Bytes
  rest : Bytes

/-- `behind` is what follows the first cue in the first part that has one. -/
inductive IsBehindCue (keyword : Bytes) : List Part → Bytes → Prop
  | here {part : Part} {others : List Part} {head after : Bytes}
      (hfirst : IsFirstCue keyword none part.text head after) :
      IsBehindCue keyword (part :: others) (after ++ part.rest)
  | later {part : Part} {others : List Part} {behind : Bytes}
      (hnone : ¬ HasCue keyword part.text) (hothers : IsBehindCue keyword others behind) :
      IsBehindCue keyword (part :: others) behind

/-- The items of a list with commas between them. Behind the list stands `rest`. -/
def itemParts {α : Type} (write : α → Bytes) (rest : Bytes) : List α → List Part
  | [] => []
  | item :: others =>
    ⟨write item, others.flatMap (fun other => Ascii.comma :: write other) ++ rest⟩ ::
      itemParts write rest others

section First

variable {front rest behind : Bytes} {parts others : List Part}

theorem exists_isBehindCue_iff (hkeyword : keyword ≠ []) :
    (∃ behind, IsBehindCue keyword parts behind) ↔ ∃ part ∈ parts, HasCue keyword part.text := by
  constructor
  · rintro ⟨behind, h⟩
    induction h with
    | @here part others head after hfirst =>
      exact ⟨part, List.mem_cons_self .., head, after, hfirst.text_eq, hfirst.cue⟩
    | later _ _ ih =>
      obtain ⟨part, hmem, hcue⟩ := ih
      exact ⟨part, List.mem_cons_of_mem _ hmem, hcue⟩
  · rintro ⟨part, hmem, hcue⟩
    induction parts with
    | nil => cases hmem
    | cons first others ih =>
      by_cases hfirst : HasCue keyword first.text
      · obtain ⟨head, after, hhere⟩ := exists_isFirstCue hkeyword hfirst
        exact ⟨_, .here hhere⟩
      · rcases List.mem_cons.mp hmem with rfl | hmem
        · exact absurd hcue hfirst
        · obtain ⟨behind, hothers⟩ := ih hmem
          exact ⟨behind, .later hfirst hothers⟩

theorem IsBehindCue.of_append (h : IsBehindCue keyword (parts ++ others) behind) :
    IsBehindCue keyword parts behind ∨
      (∀ part ∈ parts, ¬ HasCue keyword part.text) ∧ IsBehindCue keyword others behind := by
  induction parts with
  | nil => exact Or.inr ⟨nofun, h⟩
  | cons part parts ih =>
    cases h with
    | here hfirst => exact Or.inl (.here hfirst)
    | later hnone hothers =>
      rcases ih hothers with hparts | ⟨hparts, hothers⟩
      · exact Or.inl (.later hnone hparts)
      · exact Or.inr ⟨List.forall_mem_cons.mpr ⟨hnone, hparts⟩, hothers⟩

theorem exists_hasCue_itemParts {α : Type} {write : α → Bytes} {items : List α} :
    (∃ part ∈ itemParts write rest items, HasCue keyword part.text) ↔
      ∃ item ∈ items, HasCue keyword (write item) := by
  induction items with
  | nil => exact iff_of_false nofun nofun
  | cons item others ih => simp only [itemParts, List.mem_cons, exists_eq_or_imp, ih]

theorem intercalate_comma_cons {α : Type} (write : α → Bytes) (item : α) (others : List α) :
    [Ascii.comma].intercalate ((item :: others).map write) =
      write item ++ others.flatMap fun other => Ascii.comma :: write other := by
  induction others generalizing item with
  | nil => simp
  | cons other others ih =>
    rw [intercalate_map_cons_cons, ih, List.flatMap_cons, List.cons_append]

/-- No cue begins in this text, whatever may follow it. -/
def NoCueBegins (keyword front : Bytes) : Prop :=
  ∀ back, HasCue keyword (front ++ back) → HasCue keyword back

theorem noCueBegins_mark {mark : UInt8} (hmark : IsMark keyword mark)
    (hfront : ¬ HasCue keyword front) : NoCueBegins keyword (front ++ [mark]) := by
  intro back h
  rw [← List.append_cons, hasCue_append_mark hmark] at h
  exact h.resolve_left hfront

theorem noCueBegins_openParen (hword : IsWord keyword)
    (hfront : ¬ HasCue keyword (front ++ [Ascii.openParen])) :
    NoCueBegins keyword (front ++ [Ascii.openParen]) := by
  intro back h
  rw [← List.append_cons, hasCue_append_openParen hword] at h
  exact h.resolve_left hfront

theorem NoCueBegins.isFirstCue {text head after : Bytes} (hfront : NoCueBegins keyword front)
    (hkeyword : keyword ≠ []) (hlast : Bytes.NoTrailingBlank keyword)
    (h : IsFirstCue keyword none text head after) (back : Bytes) :
    IsFirstCue keyword none (front ++ (text ++ back)) (front ++ head) (after ++ back) :=
  h.append hkeyword hlast
    (fun hcue => ((isFirstCue_iff hkeyword hlast).mp h).2.2 (hfront head hcue)) back

/-- The first cue of a list is that of its first item that has one. -/
theorem IsBehindCue.isFirstCue_items {α : Type} {write : α → Bytes} {items : List α}
    (h : IsBehindCue keyword (itemParts write rest items) behind)
    (hcomma : IsMark keyword Ascii.comma) (hkeyword : keyword ≠ [])
    (hlast : Bytes.NoTrailingBlank keyword) (hfront : NoCueBegins keyword front) :
    ∃ head, IsFirstCue keyword none
      (front ++ ([Ascii.comma].intercalate (items.map write) ++ rest)) head behind := by
  induction items generalizing front with
  | nil => cases h
  | cons item others ih =>
    rw [itemParts] at h
    cases h with
    | here hfirst =>
      rw [intercalate_comma_cons, List.append_assoc]
      exact ⟨_, hfront.isFirstCue hkeyword hlast hfirst _⟩
    | later hnone hothers =>
      cases others with
      | nil => cases hothers
      | cons other others =>
        have hitem : ¬ HasCue keyword (front ++ write item) := fun hcue => hnone (hfront _ hcue)
        obtain ⟨head, hfirst⟩ := ih hothers (noCueBegins_mark hcomma hitem)
        refine ⟨head, ?_⟩
        rw [intercalate_map_cons_cons]
        simpa using hfirst

end First

end DumpMask.Statement
