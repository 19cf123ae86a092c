import DumpMask.Masker.Basic

/-!
# What a masker tells of itself

The status lists the columns that have a transform, by table and column; the description is one line
that also shows the truncated tables, with the columns in the order of their labels. Texts stand in
it between double quotes, with a backslash before the characters that would end or blur them.
-/

namespace DumpMask.Text

private def lowerHexDigits (n : Nat) : String :=
  String.ofList (Nat.toDigits 16 n)

/-- One character as it stands between the quotes. Control characters are shown by their code. -/
def quotedChar (c : Char) : String :=
  if c = '"' then "\\\""
  else if c = '\\' then "\\\\"
  else if c = '\n' then "\\n"
  else if c = '\r' then "\\r"
  else if c = '\t' then "\\t"
  else if c.toNat = 0 then "\\0"
  else if c.toNat < 0x20 || c.toNat = 0x7F then "\\u\x7b" ++ lowerHexDigits c.toNat ++ "\x7d"
  else c.toString

def quoted (text : String) : String :=
  "\"" ++ String.join (text.toList.map quotedChar) ++ "\""

/-- A list of quoted texts between brackets. -/
def quotedList (texts : List String) : String :=
  "[" ++ String.intercalate ", " (texts.map quoted) ++ "]"

end DumpMask.Text

namespace DumpMask.Masker

structure Status where
  threshold : Nat
  columns : List String
deriving DecidableEq, Repr

/-- The threshold and the columns, by table, then by column. -/
def status (masker : Masker) : Status :=
  ⟨masker.threshold.length, (masker.columns.mergeSort ColumnId.le).map ColumnId.label⟩

def sortTexts (texts : List String) : List String :=
  texts.mergeSort fun left right => left ≤ right

/-- The columns as they are shown, in the order of the shown texts. -/
def labels (masker : Masker) : List String :=
  sortTexts (masker.columns.map ColumnId.label)

/-- The masker in one line. -/
def describe (masker : Masker) : String :=
  String.join ["AnonymizerCore \x7b policy: ThresholdPolicy \x7b threshold: ",
    toString masker.threshold.length, " \x7d, columns: ", Text.quotedList masker.labels,
    ", truncated: ", Text.quotedList (sortTexts masker.truncated), " \x7d"]

end DumpMask.Masker
