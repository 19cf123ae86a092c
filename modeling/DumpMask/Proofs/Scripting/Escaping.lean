import DumpMask.Proofs.Literal.Bodies
import DumpMask.Proofs.Scripting.Text

/-!
# Escaping and its inverse

Main statement: string bodies are the sequences of tokens and nothing else is read, the fault of any
other text is the first place where no token begins, and a script that escapes a text gets it back.

The functions of a script take and give texts, while escaping works on octets. Escaping changes
ASCII octets into ASCII octets and no others, so what it gives is the encoding of a text again.
-/

namespace DumpMask.Scripting

open Literal (Token)
open Utf8 (isValid)

/-! ### Escaped text -/

theorem exists_encode_escape (text : String) :
    ∃ line, Utf8.encode line = Literal.escape (Utf8.encode text) :=
  Utf8.isValid_iff_exists_encode.mp (Literal.isValid_escape (Utf8.isValid_encode text))

theorem Module.unescape_of_escape (module : Module) (text : String) :
    ∃ line, (module.call .escape [.text text]).2 = .ok (.text line) ∧
      (module.call .unescape [.text line]).2 = .ok (.text text) := by
  obtain ⟨line, hline⟩ := exists_encode_escape text
  have hvalue : Literal.unescape (Utf8.encode line) = .ok (Utf8.encode text) := by
    rw [hline]
    exact Literal.unescapeFrom_escape 0 _
  refine ⟨line, ?_, ?_⟩
  · calc (module.call .escape [.text text]).2
        = escape [.text text] := rfl
      _ = .ok (.text line) := by rw [escape_of_text, ← hline, Utf8.decode_encode]
  · calc (module.call .unescape [.text line]).2
        = unescape [.text line] := rfl
      _ = .ok (.text text) := by
        rw [unescape_of_text, hvalue]
        dsimp only
        rw [Utf8.decode_encode]

/-! ### What is read and what is not -/

/-- **String bodies.** A body is read exactly when it is a sequence of tokens, as what the tokens
stand for, and the fault of any other text is at the end of the longest part that is read. What is
read can be cut off in front, escaping is undone, and text stays text. -/
theorem unescape_reads_tokens :
    (∀ body value, Literal.unescape body = .ok value ↔
      ∃ tokens : List Token, body = tokens.flatMap Token.text ∧
        value = tokens.flatMap Token.meaning) ∧
    (∀ body fault, Literal.unescape body = .error fault ↔
      ∃ offset, Literal.StopsAt body offset fault) ∧
    (∀ left value, Literal.unescape left = .ok value → ∀ right,
      Literal.unescape (left ++ right) =
        (value ++ ·) <$> (Literal.unescape right).mapError (Literal.Fault.shift left.length)) ∧
    (∀ value, Literal.unescape (Literal.escape value) = .ok value) ∧
    (∀ body value, isValid body → Literal.unescape body = .ok value → isValid value) ∧
    ∀ (module : Module) (text : String), ∃ line,
      (module.call .escape [.text text]).2 = .ok (.text line) ∧
        (module.call .unescape [.text line]).2 = .ok (.text text) :=
  ⟨fun _ _ => Literal.unescapeFrom_eq_ok_iff, fun _ _ => Literal.unescape_eq_error_iff,
    fun _ _ => Literal.unescape_append, Literal.unescapeFrom_escape 0,
    fun _ _ hbody hread => (Literal.edits_of_unescapeFrom hread).isValid hbody,
    Module.unescape_of_escape⟩

/-- The octets `é''\%` and then a code that stands for nothing. -/
theorem unescape_reads_tokens_unknown_code :
    let left := Utf8.encode "é''\\%"
    let right := ascii "\\q"
    Literal.unescape left = .ok (Utf8.encode "é'\\%") ∧ isValid (Utf8.encode "é'\\%") ∧
      Literal.unescape (left ++ right) = .error (.unknownEscape 0x71 6) ∧
      ∃ offset, Literal.StopsAt (left ++ right) offset (.unknownEscape 0x71 6) := by
  intro left right
  have hleft : Literal.unescape left = .ok (Utf8.encode "é'\\%") :=
    eq_ok_of_toOption (by decide +kernel)
  obtain ⟨-, hstops, happend, -, hvalid, -⟩ := unescape_reads_tokens
  have hfault : Literal.unescape (left ++ right) = .error (.unknownEscape 0x71 6) := by
    rw [happend left _ hleft right]
    rfl
  exact ⟨hleft, hvalid left _ (Utf8.isValid_encode _) hleft, hfault, (hstops _ _).mp hfault⟩

end DumpMask.Scripting
