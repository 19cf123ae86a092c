import DumpMask.Statement.Values
import DumpMask.Text.Utf8

/-!
# The table of a statement

The head of a statement names its table after the statement keyword, any modifiers and an optional
`INTO`. The name may be quoted by backticks and may follow the name of its database and a dot.
-/

namespace DumpMask.Statement

def isModifier (word : Bytes) : Bool :=
  isKeyword "LOW_PRIORITY" word || isKeyword "DELAYED" word || isKeyword "HIGH_PRIORITY" word ||
    isKeyword "IGNORE" word

theorem length_firstWord (text : Bytes) :
    (firstWord text).1.length + (firstWord text).2.length ≤ text.length := by
  have hdrop := (List.dropWhile_sublist (l := text) Ascii.isBlank).length_le
  have happend := List.takeWhile_append_dropWhile (p := isWordOctet) (l := Bytes.trimStart text)
  have := congrArg List.length happend
  simp only [firstWord, Bytes.trimStart, List.length_append] at this ⊢
  omega

theorem ne_nil_of_isModifier {word : Bytes} (h : isModifier word) : word ≠ [] := by
  rintro rfl
  revert h
  decide

/-- The text in which the table is named: after the modifiers and `INTO`. -/
def afterModifiers (text : Bytes) : Bytes :=
  let word := (firstWord text).1
  if isKeyword "INTO" word then (firstWord text).2
  else if _hmodifier : isModifier word then afterModifiers (firstWord text).2
  else text
termination_by text.length
decreasing_by
  have hlength := length_firstWord text
  have hpos := List.length_pos_iff.mpr (ne_nil_of_isModifier _hmodifier)
  simp only [word] at hpos
  omega

def isNameOctet (b : UInt8) : Bool :=
  Ascii.isAlphanumeric b || b == Ascii.underscore || b == 0x24

/-- The identifier that a text begins with, and what follows it. A quoted identifier ends at the
next backtick. -/
def identifier? : Bytes → Option (Bytes × Bytes)
  | [] => none
  | b :: rest =>
    if b = Ascii.backtick then
      match rest.dropWhile (· != Ascii.backtick) with
      | [] => none
      | _ :: after => some (rest.takeWhile (· != Ascii.backtick), after)
    else if isNameOctet b then
      some (b :: rest.takeWhile isNameOctet, rest.dropWhile isNameOctet)
    else none

theorem length_of_identifier? {text name after : Bytes}
    (h : identifier? text = some (name, after)) : after.length < text.length := by
  unfold identifier? at h
  split at h
  · simp at h
  · next b rest =>
    split at h
    · have hdrop := (List.dropWhile_sublist (l := rest) (· != Ascii.backtick)).length_le
      split at h
      · simp at h
      · next hrest =>
        simp only [Option.some.injEq, Prod.mk.injEq] at h
        rw [hrest] at hdrop
        simp only [List.length_cons] at hdrop ⊢
        rw [← h.2]
        omega
    · have hdrop := (List.dropWhile_sublist (l := rest) isNameOctet).length_le
      split at h
      · simp only [Option.some.injEq, Prod.mk.injEq] at h
        rw [← h.2, List.length_cons]
        omega
      · simp at h

/-- The last of the identifiers that dots join at the front of a text. -/
def qualifiedName? (text : Bytes) : Option Bytes :=
  match _hname : identifier? text with
  | none => none
  | some (name, []) => some name
  | some (name, b :: rest) => if b = Ascii.dot then qualifiedName? rest else some name
termination_by text.length
decreasing_by
  have := length_of_identifier? _hname
  simp only [List.length_cons] at this
  omega

/-- The table that a line writes, if the line writes rows and the name is readable. -/
def table? (line : Bytes) : Option String :=
  if isInsert line then do
    let name ← qualifiedName? (Bytes.trimStart (afterModifiers (firstWord line).2))
    Utf8.decode name
  else none

end DumpMask.Statement
