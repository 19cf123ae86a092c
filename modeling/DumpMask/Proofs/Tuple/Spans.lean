import DumpMask.Proofs.Tuple.Agreement

/-!
# The places of the literals in a row

A row is blanks, a parenthesis, literals with blanks around them and commas between them, a
parenthesis and blanks again: no other octet is left over. An outline writes a row down in these
pieces, so it also says where each literal stands. Main statement: every row that is cut has an
outline with the ranges of the cut, and every outline of literals is cut into its own ranges.

Blanks next to an empty literal do not say on which side of it they stand. A scan takes them for
blanks in front of it, so the ranges are those of the outline with such blanks moved there.
-/

namespace DumpMask.Tuple

/-! ### Outlines -/

/-- The half-open ranges of the texts, if the first piece begins at `start` and a comma stands
between any two. -/
def places (start : Nat) : List PaddedText → List (Nat × Nat)
  | [] => []
  | piece :: rest =>
    let first := start + piece.before.length
    let last := first + piece.text.length
    (first, last) :: places (last + piece.after.length + 1) rest

structure Outline where
  before : Bytes
  pieces : List PaddedText
  /-- What stands between the parentheses if there are no pieces. -/
  gap : Bytes
  after : Bytes
  before_blank : Bytes.AllBlank before
  gap_blank : Bytes.AllBlank gap
  after_blank : Bytes.AllBlank after

namespace Outline

def text (outline : Outline) : Bytes :=
  outline.before ++ Ascii.openParen ::
    (between outline.gap (outline.pieces.map PaddedText.whole) ++ Ascii.closeParen :: outline.after)

def texts (outline : Outline) : List Bytes :=
  outline.pieces.map PaddedText.text

def spans (outline : Outline) : List (Nat × Nat) :=
  places (outline.before.length + 1) outline.pieces

end Outline

/-- A text that stands for one literal, whether it can be read or not. -/
structure IsLiteralText (text : Bytes) : Prop where
  trimmed : Bytes.IsTrimmed text
  closed : IsString text ∨ Ascii.comma ∉ text ∧ Ascii.closeParen ∉ text

theorem not_mem_delimiters_iff {text : Bytes} :
    (Ascii.comma ∉ text ∧ Ascii.closeParen ∉ text) ↔ ∀ b ∈ text, endsBareLiteral b = false := by
  constructor
  · rintro ⟨hcomma, hclose⟩ b hb
    cases hends : endsBareLiteral b with
    | false => rfl
    | true =>
      rcases eq_comma_or_closeParen hends with rfl | rfl
      · exact absurd hb hcomma
      · exact absurd hb hclose
  · intro hplain
    exact ⟨fun hmem => absurd (hplain _ hmem) (by decide),
      fun hmem => absurd (hplain _ hmem) (by decide)⟩

theorem isString_iff {text : Bytes} :
    IsString text ↔ StartsString text ∧ scanLiteral text = .ok (text, []) := by
  constructor
  · rintro ⟨before, inner, hbefore, hinner, rfl⟩
    have hstart : stringStart? (before ++ Ascii.quote :: (inner ++ [Ascii.quote])) =
        some (before, Ascii.quote :: (inner ++ [Ascii.quote])) :=
      stringStart?_eq_some_iff.mpr ⟨hbefore, List.head?_cons, rfl⟩
    refine ⟨⟨before, _, hbefore, rfl⟩, ?_⟩
    rw [scanLiteral, hstart]
    dsimp only
    rw [List.tail_cons, closeString_of_stringBody hinner (by simp)]
  · rintro ⟨hstarts, hscan⟩
    unfold scanLiteral at hscan
    split at hscan
    · next before string hstart =>
      obtain ⟨hbefore, -, -⟩ := stringStart?_eq_some_iff.mp hstart
      split at hscan
      · next body rest hclose =>
        obtain ⟨inner, hinner, rfl, -⟩ := stringBody_of_closeString hclose
        simp only [Except.ok.injEq, Prod.mk.injEq] at hscan
        exact ⟨before, inner, hbefore, hinner, hscan.1.symm⟩
      · cases hscan
    · next hstart => exact absurd hstarts (stringStart?_eq_none_iff.mp hstart)

instance (text : Bytes) : Decidable (StartsString text) :=
  decidable_of_iff (stringStart? text ≠ none)
    (by rw [ne_eq, stringStart?_eq_none_iff, Classical.not_not])

instance (text : Bytes) : Decidable (IsString text) :=
  decidable_of_iff (StartsString text ∧ (scanLiteral text).toOption = some (text, []))
    (by rw [isString_iff, toOption_eq_some_iff])

instance (text : Bytes) : Decidable (IsLiteralText text) :=
  decidable_of_iff
    (Bytes.IsTrimmed text ∧ (IsString text ∨ Ascii.comma ∉ text ∧ Ascii.closeParen ∉ text))
    ⟨fun h => ⟨h.1, h.2⟩, fun h => ⟨h.trimmed, h.closed⟩⟩

/-- The tokens of a scan are the literal texts that do not begin a string and leave it open. -/
theorem isToken_and_isTrimmed_iff {text : Bytes} :
    (IsToken text ∧ Bytes.IsTrimmed text) ↔
      IsLiteralText text ∧ (StartsString text → IsString text) := by
  constructor
  · rintro ⟨hstring | ⟨hstarts, hplain⟩, htrimmed⟩
    · exact ⟨⟨htrimmed, Or.inl hstring⟩, fun _ => hstring⟩
    · exact ⟨⟨htrimmed, Or.inr (not_mem_delimiters_iff.mpr hplain)⟩,
        fun hstart => absurd hstart hstarts⟩
  · rintro ⟨⟨htrimmed, hclosed⟩, hcomplete⟩
    refine ⟨?_, htrimmed⟩
    by_cases hstarts : StartsString text
    · exact Or.inl (hcomplete hstarts)
    · rcases hclosed with hstring | hplain
      · exact Or.inl hstring
      · exact Or.inr ⟨hstarts, not_mem_delimiters_iff.mp hplain⟩

/-! ### The ranges follow each other -/

theorem le_of_mem_places {start : Nat} {pieces : List PaddedText} {span : Nat × Nat}
    (h : span ∈ places start pieces) : start ≤ span.1 := by
  induction pieces generalizing start with
  | nil => cases h
  | cons piece rest ih =>
    rcases List.mem_cons.mp h with rfl | hrest
    · exact Nat.le_add_right ..
    · have hstart := ih hrest
      omega

/-- At least the comma stands between two ranges. -/
theorem pairwise_places (start : Nat) (pieces : List PaddedText) :
    (places start pieces).Pairwise fun left right => left.2 < right.1 := by
  induction pieces generalizing start with
  | nil => exact .nil
  | cons piece rest ih =>
    refine .cons ?_ (ih _)
    intro span hspan
    have hstart := le_of_mem_places hspan
    dsimp only
    omega

/-! ### A tuple made of cells -/

def Cell.padded (cell : Cell) : PaddedText :=
  ⟨cell.before, cell.literal, cell.gap, cell.before_blank, cell.isCell.blank⟩

theorem map_text_padded (cells : List Cell) :
    (cells.map Cell.padded).map PaddedText.text = cells.map Cell.literal :=
  List.map_map ..

theorem map_whole_padded (cells : List Cell) :
    (cells.map Cell.padded).map PaddedText.whole = cells.map Cell.text :=
  List.map_map ..

theorem spansFrom_layoutFrom (start : Nat) (outer : Bytes) (first : Cell) (others : List Cell) :
    Layout.spansFrom start (layoutFrom outer first others).slots =
      places (start + outer.length) ((first :: others).map Cell.padded) := by
  induction others generalizing start outer first with
  | nil => simp [layoutFrom, Layout.spansFrom, places, Cell.padded, Nat.add_assoc]
  | cons second others ih =>
    have hfirst : start + (outer ++ first.before).length =
        start + outer.length + first.before.length := by
      rw [List.length_append, Nat.add_assoc]
    have hgap (last : Nat) : last + (first.gap ++ [Ascii.comma]).length =
        last + first.gap.length + 1 := by
      rw [List.length_append, List.length_singleton, Nat.add_assoc]
    rw [layoutFrom, Layout.cons, Layout.spansFrom, ih, hfirst, hgap]
    rfl

/-- The row that an outline of cells writes, cut. -/
def Outline.layout (outline : Outline) (cells : List Cell) : Layout :=
  ((tupleOf outline.gap cells).prepend outline.before).append outline.after

theorem Outline.text_layout {outline : Outline} {cells : List Cell}
    (hcells : outline.pieces = cells.map Cell.padded) :
    (outline.layout cells).text = outline.text := by
  rw [layout, Layout.text_append, Layout.text_prepend, text_tupleOf, text, hcells,
    map_whole_padded]
  simp

theorem Outline.spans_layout {outline : Outline} {cells : List Cell}
    (hcells : outline.pieces = cells.map Cell.padded) :
    (outline.layout cells).spans = outline.spans := by
  have htuple (start : Nat) : Layout.spansFrom start (tupleOf outline.gap cells).slots =
      places (start + 1) (cells.map Cell.padded) := by
    cases cells with
    | nil => rfl
    | cons first others => exact spansFrom_layoutFrom start [Ascii.openParen] first others
  calc (outline.layout cells).spans
      = ((tupleOf outline.gap cells).prepend outline.before).spans := rfl
    _ = outline.spans := by rw [Layout.spans_prepend, htuple, spans, hcells]

/-- A row that can be cut is an outline of cells. -/
theorem split_eq_ok_iff_outline {row : Bytes} {layout : Layout} :
    split row = .ok layout ↔
      ∃ (outline : Outline) (cells : List Cell), outline.pieces = cells.map Cell.padded ∧
        outline.texts ≠ [[]] ∧ outline.text = row ∧ layout = outline.layout cells := by
  rw [split_eq_ok_iff]
  constructor
  · rintro ⟨blanks, tuple, rest, hblanks, htuple, hrest, rfl, rfl⟩
    obtain ⟨gap, cells, hgap, hne, rfl⟩ := isTuple_iff.mp htuple
    let outline : Outline := ⟨blanks, cells.map Cell.padded, gap, rest, hblanks, hgap, hrest⟩
    refine ⟨outline, cells, rfl, ?_, (Outline.text_layout rfl).symm, rfl⟩
    rw [Outline.texts, map_text_padded]
    exact hne
  · rintro ⟨outline, cells, hcells, hne, rfl, rfl⟩
    rw [Outline.texts, hcells, map_text_padded] at hne
    exact ⟨outline.before, tupleOf outline.gap cells, outline.after, outline.before_blank,
      isTuple_iff.mpr ⟨outline.gap, cells, outline.gap_blank, hne, rfl⟩, outline.after_blank, rfl,
      Outline.text_layout hcells⟩

/-! ### Blanks next to an empty literal -/

/-- Blanks around an empty text, all in front of it. -/
def PaddedText.settle (piece : PaddedText) : PaddedText :=
  if piece.text = [] then
    ⟨piece.before ++ piece.after, [], [],
      Bytes.allBlank_append_iff.mpr ⟨piece.before_blank, piece.after_blank⟩, Bytes.allBlank_nil⟩
  else piece

theorem PaddedText.text_settle (piece : PaddedText) : piece.settle.text = piece.text := by
  unfold settle
  split
  · next hempty => exact hempty.symm
  · rfl

theorem PaddedText.whole_settle (piece : PaddedText) : piece.settle.whole = piece.whole := by
  unfold settle
  split
  · next hempty => simp [whole, hempty]
  · rfl

theorem PaddedText.exists_cell_settle {piece : PaddedText} (htoken : IsToken piece.text)
    (htrimmed : Bytes.IsTrimmed piece.text) : ∃ cell : Cell, cell.padded = piece.settle := by
  have htight : piece.settle.text = [] → piece.settle.after = [] := by
    unfold settle
    split
    · next => exact fun _ => rfl
    · next hne => exact fun hempty => absurd hempty hne
  rw [← piece.text_settle] at htoken htrimmed
  exact ⟨⟨piece.settle.before, piece.settle.text, piece.settle.after, piece.settle.before_blank,
    htoken, htrimmed, piece.settle.after_blank, htight⟩, rfl⟩

theorem PaddedText.settle_eq_self {piece : PaddedText} (h : piece.text = [] → piece.after = []) :
    piece.settle = piece := by
  unfold settle
  split
  · next hempty =>
    obtain ⟨before, text, after, _, _⟩ := piece
    obtain rfl : text = [] := hempty
    obtain rfl : after = [] := h rfl
    simp
  · rfl

def Outline.settle (outline : Outline) : Outline :=
  { outline with pieces := outline.pieces.map PaddedText.settle }

theorem Outline.settle_eq_self {outline : Outline}
    (h : ∀ piece ∈ outline.pieces, piece.text = [] → piece.after = []) :
    outline.settle = outline := by
  have hpieces : outline.pieces.map PaddedText.settle = outline.pieces.map id :=
    List.map_congr_left fun piece hpiece => PaddedText.settle_eq_self (h piece hpiece)
  rw [settle, hpieces, List.map_id]

theorem Outline.texts_settle (outline : Outline) : outline.settle.texts = outline.texts := by
  rw [texts, settle, List.map_map]
  exact List.map_congr_left fun piece _ => piece.text_settle

theorem Outline.text_settle (outline : Outline) : outline.settle.text = outline.text := by
  have hwhole : (outline.pieces.map PaddedText.settle).map PaddedText.whole =
      outline.pieces.map PaddedText.whole := by
    rw [List.map_map]
    exact List.map_congr_left fun piece _ => piece.whole_settle
  rw [text, text, settle, hwhole]

theorem exists_cells_settle {pieces : List PaddedText}
    (h : ∀ piece ∈ pieces, IsToken piece.text ∧ Bytes.IsTrimmed piece.text) :
    ∃ cells : List Cell, pieces.map PaddedText.settle = cells.map Cell.padded := by
  induction pieces with
  | nil => exact ⟨[], rfl⟩
  | cons piece rest ih =>
    obtain ⟨htoken, htrimmed⟩ := h piece (List.mem_cons_self ..)
    obtain ⟨cell, hcell⟩ := PaddedText.exists_cell_settle htoken htrimmed
    obtain ⟨cells, hcells⟩ := ih fun other hmem => h other (List.mem_cons_of_mem _ hmem)
    exact ⟨cell :: cells, by rw [List.map_cons, List.map_cons, hcell, hcells]⟩

/-! ### Every octet is accounted for -/

theorem isLiteralText_of_mem_spans {row : Bytes} {layout : Layout} {span : Nat × Nat}
    (hsplit : split row = .ok layout) (hspan : span ∈ layout.spans) :
    span.1 ≤ span.2 ∧ span.2 ≤ row.length ∧ IsLiteralText (row.extract span.1 span.2) := by
  obtain ⟨hordered, hlast⟩ := Layout.bounds_of_mem_spansFrom hspan
  have hlength := congrArg List.length (text_of_split hsplit)
  rw [Layout.text, List.length_append] at hlength
  have hmem : row.extract span.1 span.2 ∈ layout.contents := by
    rw [← extract_spans hsplit]
    exact List.mem_map_of_mem (f := fun span => row.extract span.1 span.2) hspan
  exact ⟨hordered, by omega, (isToken_and_isTrimmed_iff.mp (isToken_of_split hsplit _ hmem)).1⟩

/-- **Rows and their outlines.** The ranges of a row are in its bounds, each ends before the next
begins, and an outline of the row has them. An outline is cut into its ranges if each text in it is
a literal and none begins a string and leaves it open; one empty text by itself is no literal. -/
theorem split_accounts_for_every_octet :
    (∀ row layout, split row = .ok layout →
      (∀ span ∈ layout.spans, span.1 ≤ span.2 ∧ span.2 ≤ row.length ∧
        IsLiteralText (row.extract span.1 span.2)) ∧
      layout.spans.Pairwise (fun left right => left.2 < right.1) ∧
      ∃ outline : Outline, outline.text = row ∧ outline.spans = layout.spans ∧
        outline.texts = layout.spans.map fun span => row.extract span.1 span.2) ∧
    ∀ outline : Outline, outline.texts ≠ [[]] →
      (∀ text ∈ outline.texts, IsLiteralText text ∧ (StartsString text → IsString text)) →
      ∃ layout, split outline.text = .ok layout ∧ layout.spans = outline.settle.spans ∧
        ((∀ piece ∈ outline.pieces, piece.text = [] → piece.after = []) →
          layout.spans = outline.spans) := by
  refine ⟨?_, ?_⟩
  · intro row layout hsplit
    have hliterals (span) (hspan : span ∈ layout.spans) := isLiteralText_of_mem_spans hsplit hspan
    have hextract := extract_spans hsplit
    obtain ⟨outline, cells, hcells, -, htext, rfl⟩ := split_eq_ok_iff_outline.mp hsplit
    have hspans : (outline.layout cells).spans = outline.spans := Outline.spans_layout hcells
    have htexts : outline.texts = (outline.layout cells).contents := by
      rw [Outline.texts, hcells, map_text_padded, Outline.layout, Layout.contents_append,
        Layout.contents_prepend, contents_tupleOf]
    refine ⟨hliterals, ?_, outline, htext, hspans.symm, htexts.trans hextract.symm⟩
    rw [hspans]
    exact pairwise_places _ _
  · intro outline hne hliterals
    obtain ⟨cells, hcells⟩ : ∃ cells : List Cell, outline.settle.pieces = cells.map Cell.padded := by
      refine exists_cells_settle fun piece hpiece => ?_
      exact isToken_and_isTrimmed_iff.mpr (hliterals _ (List.mem_map_of_mem hpiece))
    rw [← outline.texts_settle] at hne
    have hspans := Outline.spans_layout hcells
    refine ⟨outline.settle.layout cells,
      split_eq_ok_iff_outline.mpr ⟨outline.settle, cells, hcells, hne, outline.text_settle, rfl⟩,
      hspans, ?_⟩
    intro htight
    rw [hspans, Outline.settle_eq_self htight]

/-- The row `( ,2)`, with its first literal put in front of the blank. -/
theorem split_blank_behind_empty_literal :
    let outline : Outline :=
      ⟨[], [⟨[], [], ascii " ", by decide, by decide⟩, ⟨[], ascii "2", [], by decide, by decide⟩],
        [], [], by decide, by decide, by decide⟩
    outline.texts ≠ [[]] ∧
      (∀ text ∈ outline.texts, IsLiteralText text ∧ (StartsString text → IsString text)) ∧
      outline.text = ascii "( ,2)" ∧ outline.spans = [(1, 1), (3, 4)] ∧
      ∃ layout, split outline.text = .ok layout ∧ layout.spans = [(2, 2), (3, 4)] := by
  intro outline
  have hsplit : split outline.text =
      .ok ⟨[⟨ascii "( ", []⟩, ⟨ascii ",", ascii "2"⟩], ascii ")"⟩ :=
    eq_ok_of_toOption (by decide +kernel)
  exact ⟨by decide, by decide +kernel, by decide, by decide, _, hsplit, by decide⟩

theorem split_accounts_for_every_octet_quotes :
    let outline : Outline :=
      ⟨ascii "\t",
        [⟨ascii " ", ascii "_binary 'a,)''\\''", ascii " ", by decide, by decide⟩,
          ⟨[], [], ascii " ", by decide, by decide⟩,
          ⟨ascii "\n", ascii "x'y", [], by decide, by decide⟩],
        [], ascii " ", by decide, by decide, by decide⟩
    ∃ layout, split outline.text = .ok layout ∧
      layout.spans = [(3, 20), (23, 23), (25, 28)] ∧
      layout.spans.Pairwise (fun left right => left.2 < right.1) ∧
      IsLiteralText (outline.text.extract 3 20) := by
  intro outline
  have hliterals : ∀ text ∈ outline.texts,
      IsLiteralText text ∧ (StartsString text → IsString text) := by decide +kernel
  obtain ⟨layout, hsplit, hspans, -⟩ :=
    split_accounts_for_every_octet.2 outline (by decide) hliterals
  have hvalues : outline.settle.spans = [(3, 20), (23, 23), (25, 28)] := by decide +kernel
  rw [hvalues] at hspans
  obtain ⟨hbounds, hpairwise, -⟩ := split_accounts_for_every_octet.1 _ _ hsplit
  refine ⟨layout, hsplit, hspans, hpairwise, ?_⟩
  exact (hbounds (3, 20) (by rw [hspans]; decide)).2.2

end DumpMask.Tuple
