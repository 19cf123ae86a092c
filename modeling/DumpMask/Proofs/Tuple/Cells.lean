import DumpMask.Proofs.Tuple.Shape

/-!
# Tuples put together of cells

A cell is a literal with the blanks on both sides of it. Cells with commas between them make a
tuple, and every tuple is made of cells; the literals that are cut out of it are those of its cells.
-/

namespace DumpMask.Tuple

structure Cell where
  before : Bytes
  literal : Bytes
  gap : Bytes
  before_blank : Bytes.AllBlank before
  isCell : IsCell literal gap

def Cell.text (cell : Cell) : Bytes :=
  cell.before ++ (cell.literal ++ cell.gap)

/-- The texts between parentheses, with nothing between them but commas. -/
def join (texts : List Bytes) : Bytes :=
  Ascii.openParen :: ([Ascii.comma].intercalate texts ++ [Ascii.closeParen])

/-- The layout that cells make up to the closing parenthesis, behind the text `outer`. -/
def layoutFrom (outer : Bytes) (first : Cell) : List Cell → Layout
  | [] => ⟨[⟨outer ++ first.before, first.literal⟩], first.gap ++ [Ascii.closeParen]⟩
  | second :: others =>
    (layoutFrom (first.gap ++ [Ascii.comma]) second others).cons
      ⟨outer ++ first.before, first.literal⟩

theorem contents_layoutFrom (outer : Bytes) (first : Cell) (others : List Cell) :
    (layoutFrom outer first others).contents = (first :: others).map Cell.literal := by
  induction others generalizing outer first with
  | nil => rfl
  | cons second others ih => exact congrArg (first.literal :: ·) (ih (first.gap ++ [_]) second)

theorem text_layoutFrom (outer : Bytes) (first : Cell) (others : List Cell) :
    (layoutFrom outer first others).text =
      outer ++ ([Ascii.comma].intercalate ((first :: others).map Cell.text) ++
        [Ascii.closeParen]) := by
  induction others generalizing outer first with
  | nil =>
    rw [layoutFrom, Layout.text_singleton, List.map_singleton, List.intercalate_singleton,
      Cell.text]
    simp only [List.append_assoc]
  | cons second others ih =>
    rw [layoutFrom, Layout.text_cons, ih]
    simp only [Cell.text, List.map_cons, List.intercalate_cons_cons, List.append_assoc]

theorem hasLiterals_layoutFrom (outer : Bytes) (first : Cell) (others : List Cell) :
    HasLiterals (outer ++ first.before) (layoutFrom outer first others) := by
  induction others generalizing outer first with
  | nil => exact .last first.isCell
  | cons second others ih =>
    have hrest := ih (first.gap ++ [Ascii.comma]) second
    rw [List.append_assoc, List.singleton_append] at hrest
    exact .more first.isCell second.before_blank hrest

theorem HasLiterals.exists_layoutFrom {lead : Bytes} {layout : Layout} (h : HasLiterals lead layout)
    (outer before : Bytes) (hlead : lead = outer ++ before) (hblank : Bytes.AllBlank before) :
    ∃ first others, layout = layoutFrom outer first others := by
  induction h generalizing outer before with
  | @last lead literal gap hcell =>
    exact ⟨⟨before, literal, gap, hblank, hcell⟩, [], by rw [layoutFrom, hlead]⟩
  | @more lead literal gap gap' layout hcell hgap' _ ih =>
    obtain ⟨second, others, rfl⟩ := ih (gap ++ [Ascii.comma]) gap' (List.append_cons ..) hgap'
    exact ⟨⟨before, literal, gap, hblank, hcell⟩, second :: others, by rw [layoutFrom, hlead]⟩

/-! ### Whole tuples -/

/-- The tuple of the cells. Without cells the parentheses stand around `gap`. -/
def tupleOf (gap : Bytes) : List Cell → Layout
  | [] => ⟨[], Ascii.openParen :: (gap ++ [Ascii.closeParen])⟩
  | first :: others => layoutFrom [Ascii.openParen] first others

/-- What stands between the parentheses of a tuple. -/
def between (gap : Bytes) : List Bytes → Bytes
  | [] => gap
  | first :: others => [Ascii.comma].intercalate (first :: others)

theorem contents_tupleOf (gap : Bytes) (cells : List Cell) :
    (tupleOf gap cells).contents = cells.map Cell.literal := by
  cases cells with
  | nil => rfl
  | cons first others => exact contents_layoutFrom [Ascii.openParen] first others

theorem text_tupleOf (gap : Bytes) (cells : List Cell) :
    (tupleOf gap cells).text =
      Ascii.openParen :: (between gap (cells.map Cell.text) ++ [Ascii.closeParen]) := by
  cases cells with
  | nil => rfl
  | cons first others => exact text_layoutFrom [Ascii.openParen] first others

theorem join_eq (texts : List Bytes) :
    join texts = Ascii.openParen :: (between [] texts ++ [Ascii.closeParen]) := by
  cases texts <;> rfl

/-- One empty literal by itself would be an empty tuple. -/
theorem isTuple_iff {tuple : Layout} :
    IsTuple tuple ↔
      ∃ gap cells, Bytes.AllBlank gap ∧ cells.map Cell.literal ≠ [[]] ∧
        tuple = tupleOf gap cells := by
  constructor
  · intro h
    cases h with
    | @empty gap hgap => exact ⟨gap, [], hgap, (List.cons_ne_nil _ _).symm, rfl⟩
    | @literals gap _ hgap hlits hne =>
      obtain ⟨first, others, rfl⟩ := hlits.exists_layoutFrom [Ascii.openParen] gap rfl hgap
      rw [contents_layoutFrom] at hne
      exact ⟨[], first :: others, Bytes.allBlank_nil, hne, rfl⟩
  · rintro ⟨gap, cells, hgap, hne, rfl⟩
    cases cells with
    | nil => exact .empty hgap
    | cons first others =>
      have hcontents := contents_layoutFrom [Ascii.openParen] first others
      have hlits := hasLiterals_layoutFrom [Ascii.openParen] first others
      exact .literals first.before_blank hlits (hcontents ▸ hne)

theorem exists_isTuple_cells (cells : List Cell) (hne : cells.map Cell.literal ≠ [[]]) :
    ∃ tuple, IsTuple tuple ∧ tuple.contents = cells.map Cell.literal ∧
      tuple.text = join (cells.map Cell.text) := by
  refine ⟨tupleOf [] cells, isTuple_iff.mpr ⟨[], cells, Bytes.allBlank_nil, hne, rfl⟩,
    contents_tupleOf [] cells, ?_⟩
  rw [text_tupleOf, join_eq]

/-! ### Blanks around a literal -/

structure PaddedText where
  before : Bytes
  text : Bytes
  after : Bytes
  before_blank : Bytes.AllBlank before
  after_blank : Bytes.AllBlank after

def PaddedText.whole (piece : PaddedText) : Bytes :=
  piece.before ++ (piece.text ++ piece.after)

theorem exists_cell {piece : PaddedText} (htoken : IsToken (Bytes.trim piece.text))
    (hne : Bytes.trim piece.text ≠ []) :
    ∃ cell : Cell, cell.literal = Bytes.trim piece.text ∧ cell.text = piece.whole := by
  obtain ⟨lead, trail, hlead, htrail, htext⟩ := Bytes.exists_trim piece.text
  refine ⟨⟨piece.before ++ lead, Bytes.trim piece.text, trail ++ piece.after,
    Bytes.allBlank_append_iff.mpr ⟨piece.before_blank, hlead⟩,
    htoken, Bytes.isTrimmed_trim piece.text,
    Bytes.allBlank_append_iff.mpr ⟨htrail, piece.after_blank⟩,
    fun hempty => absurd hempty hne⟩, rfl, ?_⟩
  calc piece.before ++ lead ++ (Bytes.trim piece.text ++ (trail ++ piece.after))
      = piece.before ++ (lead ++ (Bytes.trim piece.text ++ trail) ++ piece.after) := by
        simp only [List.append_assoc]
    _ = piece.whole := by rw [← htext, PaddedText.whole]

end DumpMask.Tuple
