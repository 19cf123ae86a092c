import DumpMask.Proofs.Trimming
import DumpMask.Schema.Identifier

/-!
# Reading back quoted names

Dropping the quotes of a name and undoubling its backticks gives back the name that was quoted, with
any blank characters around the quotes.
-/

namespace DumpMask

theorem Text.trimBlanks_append {lead trail : List Char} (hlead : ∀ c ∈ lead, isBlank c = true)
    (htrail : ∀ c ∈ trail, isBlank c = true) {first last : Char} (hfirst : isBlank first = false)
    (hlast : isBlank last = false) (inner : List Char) :
    trimBlanks (lead ++ (first :: (inner ++ [last]) ++ trail)) = first :: (inner ++ [last]) := by
  have htrail' : ∀ c ∈ trail.reverse, isBlank c = true :=
    fun c hc => htrail c (List.mem_reverse.mp hc)
  have hfront : (lead ++ (first :: (inner ++ [last]) ++ trail)).dropWhile isBlank =
      first :: (inner ++ [last]) ++ trail := by
    apply dropWhile_run hlead
    rintro c ⟨⟩
    exact hfirst
  have hback : (first :: (inner ++ [last]) ++ trail).reverse.dropWhile isBlank =
      last :: (first :: inner).reverse := by
    rw [List.reverse_append, ← List.cons_append, List.reverse_append]
    apply dropWhile_run htrail'
    rintro c ⟨⟩
    exact hlast
  rw [trimBlanks, hfront, hback, List.reverse_cons, List.reverse_reverse, List.cons_append]

namespace Identifier

def double (chars : List Char) : List Char :=
  chars.flatMap fun c => if c = '\x60' then ['\x60', '\x60'] else [c]

theorem quote_toList (name : String) :
    (quote name).toList = '\x60' :: (double name.toList ++ ['\x60']) :=
  String.toList_ofList

theorem undouble_cons_of_ne {c : Char} (hc : c ≠ '\x60') (rest : List Char) :
    undouble (c :: rest) = c :: undouble rest := by
  cases rest with
  | nil => rfl
  | cons d rest => rw [undouble, if_neg (fun h => hc h.1)]

theorem undouble_double (chars : List Char) : undouble (double chars) = chars := by
  induction chars with
  | nil => rfl
  | cons c rest ih =>
    rw [double, List.flatMap_cons, ← double]
    by_cases hc : c = '\x60'
    · subst hc
      rw [if_pos rfl, List.cons_append, List.cons_append, undouble, if_pos ⟨rfl, rfl⟩,
        List.nil_append, ih]
    · rw [if_neg hc, List.cons_append, List.nil_append, undouble_cons_of_ne hc, ih]

theorem unquoted?_quote (inner : List Char) :
    unquoted? ('\x60' :: (inner ++ ['\x60'])) = some inner := by
  rw [unquoted?, if_pos ⟨rfl, List.getLast?_concat⟩, List.dropLast_concat]

theorem normalize_quote_between_blanks {lead trail : List Char}
    (hlead : ∀ c ∈ lead, Text.isBlank c = true) (htrail : ∀ c ∈ trail, Text.isBlank c = true)
    (name : String) :
    normalize (String.ofList (lead ++ ((quote name).toList ++ trail))) = name := by
  have hblank : Text.isBlank '\x60' = false := by decide
  have htrim := Text.trimBlanks_append hlead htrail hblank hblank (double name.toList)
  rw [normalize, String.toList_ofList, quote_toList, htrim, unquoted?_quote, Option.getD_some,
    undouble_double, String.ofList_toList]

theorem normalize_quote (name : String) : normalize (quote name) = name := by
  have h : normalize (String.ofList ([] ++ ((quote name).toList ++ []))) = name :=
    normalize_quote_between_blanks (by simp) (by simp) name
  rwa [List.nil_append, List.append_nil, String.ofList_toList] at h

/-- A name as a document may spell it: between backticks, with blanks around them. -/
structure QuotedName where
  lead : List Char
  name : String
  trail : List Char
  lead_blank : ∀ c ∈ lead, Text.isBlank c = true
  trail_blank : ∀ c ∈ trail, Text.isBlank c = true

def QuotedName.spelling (quoted : QuotedName) : String :=
  String.ofList (quoted.lead ++ ((quote quoted.name).toList ++ quoted.trail))

theorem normalize_spelling (quoted : QuotedName) : normalize quoted.spelling = quoted.name :=
  normalize_quote_between_blanks quoted.lead_blank quoted.trail_blank quoted.name

end Identifier

end DumpMask
