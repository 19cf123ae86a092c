import DumpMask.Tuple

/-!
# The rows of a statement

A dump fills a table by `INSERT` or `REPLACE` lines that end in `VALUES` and a list of tuples.
`Statement.values?` cuts such a line after the keyword and cuts the rest into a layout whose slots
are the tuples.
-/

namespace DumpMask.Statement

/-- The octets of a keyword. -/
def isWordOctet (b : UInt8) : Bool :=
  Ascii.isLetter b || b == Ascii.underscore

/-- The word that a text begins with, blanks apart, and what follows it. -/
def firstWord (text : Bytes) : Bytes × Bytes :=
  let trimmed := Bytes.trimStart text
  (trimmed.takeWhile isWordOctet, trimmed.dropWhile isWordOctet)

def isKeyword (keyword : String) (word : Bytes) : Bool :=
  Bytes.equalsIgnoringCase word (ascii keyword)

/-- Whether a line is a statement that writes rows. -/
def isInsert (line : Bytes) : Bool :=
  let word := (firstWord line).1
  isKeyword "INSERT" word || isKeyword "REPLACE" word

/-- A line cut after its `VALUES` keyword: the head ends with the keyword, and the slots of `rows`
are the tuples. -/
structure ValuesList where
  head : Bytes
  rows : Layout
deriving DecidableEq, Repr

namespace ValuesList

def text (list : ValuesList) : Bytes :=
  list.head ++ list.rows.text

/-- The ranges of the tuples in the line. -/
def spans (list : ValuesList) : List (Nat × Nat) :=
  Layout.spansFrom list.head.length list.rows.slots

end ValuesList

/-- Whether the octet before a keyword sets it off. -/
def isBoundary (before : Option UInt8) : Bool :=
  match before with
  | some b => Ascii.isBlank b || b == Ascii.closeParen
  | none => false

/-- Whether a tuple begins after blanks. -/
def opensTuple (text : Bytes) : Bool :=
  (Bytes.trimStart text).head? == some Ascii.openParen

/-- Cuts a text after the first place where `keyword` stands after a boundary and before a tuple.
`before` is the octet in front of the text. -/
def cutAfter? (keyword : Bytes) (before : Option UInt8) : Bytes → Option (Bytes × Bytes)
  | [] => none
  | b :: rest =>
    match Bytes.stripStart? keyword (b :: rest) with
    | some after =>
      if isBoundary before && opensTuple after then some (keyword, after)
      else (cutAfter? keyword (some b) rest).map fun (head, after) => (b :: head, after)
    | none => (cutAfter? keyword (some b) rest).map fun (head, after) => (b :: head, after)

/-- Cuts a line after its `VALUES` keyword. The upper case spelling is looked for in the whole line
before the lower case one. -/
def cutAfterValues? (line : Bytes) : Option (Bytes × Bytes) :=
  (cutAfter? (ascii "VALUES") none line).or (cutAfter? (ascii "values") none line)

/-- Cuts a text that begins with a list of tuples. `lead` is the text in front of the next tuple. -/
def cutRows (lead text : Bytes) : Except Tuple.Stop Layout :=
  match _hscan : Tuple.scan text with
  | .error stop => .error stop
  | .ok (tuple, after) =>
    match _hrest : after.dropWhile Ascii.isBlank with
    | [] => .ok ⟨[⟨lead, tuple.text⟩], after⟩
    | b :: rest =>
      if b = Ascii.comma then
        Layout.cons ⟨lead, tuple.text⟩ <$>
          cutRows (after.takeWhile Ascii.isBlank ++ b :: rest.takeWhile Ascii.isBlank)
            (rest.dropWhile Ascii.isBlank)
      else .ok ⟨[⟨lead, tuple.text⟩], after⟩
termination_by text.length
decreasing_by
  have hafter := Tuple.length_of_scan _hscan
  have hdrop := (List.dropWhile_sublist (l := after) Ascii.isBlank).length_le
  have hblanks := (List.dropWhile_sublist (l := rest) Ascii.isBlank).length_le
  rw [_hrest] at hdrop
  simp only [List.length_cons] at hdrop
  omega

/-- The rows of a line, if the line writes rows. -/
def values? (line : Bytes) : Except MalformedRow (Option ValuesList) :=
  if isInsert line then
    match cutAfterValues? line with
    | none => .error ⟨0, .missingValues⟩
    | some (head, after) =>
      let blanks := after.takeWhile Ascii.isBlank
      let text := after.dropWhile Ascii.isBlank
      match cutRows blanks text with
      | .ok rows => .ok (some ⟨head, rows⟩)
      | .error stop => .error (stop.fault (head.length + blanks.length) text.length)
  else .ok none

/-! ### A cut loses nothing -/

theorem cutRows_text {lead text : Bytes} {rows : Layout} (h : cutRows lead text = .ok rows) :
    rows.text = lead ++ text := by
  fun_induction cutRows lead text generalizing rows with
  | case1 => simp at h
  | case2 lead text tuple after hscan =>
    simp only [Except.ok.injEq] at h
    rw [← h, ← Tuple.scan_append hscan]
    simp [Layout.text, Layout.Slot.text]
  | case3 lead text tuple after hscan rest hrest ih =>
    have hafter := List.takeWhile_append_dropWhile (p := Ascii.isBlank) (l := after)
    have hblanks := List.takeWhile_append_dropWhile (p := Ascii.isBlank) (l := rest)
    rw [hrest] at hafter
    generalize hrec : cutRows _ _ = result at h ih
    cases result with
    | error stop => simp [Functor.map, Except.map] at h
    | ok inner =>
      simp only [Functor.map, Except.map, Except.ok.injEq] at h
      rw [← h, Layout.text_cons, ih rfl, ← Tuple.scan_append hscan]
      simp only [List.append_assoc, List.cons_append, hblanks]
      rw [hafter]
  | case4 lead text tuple after hscan =>
    simp only [Except.ok.injEq] at h
    rw [← h, ← Tuple.scan_append hscan]
    simp [Layout.text, Layout.Slot.text]

end DumpMask.Statement
