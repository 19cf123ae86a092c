import DumpMask.Proofs.Json.Exact
import DumpMask.Proofs.Json.Numbers
import DumpMask.Proofs.Json.Rewritten
import DumpMask.Proofs.Transform.JsonFields

/-!
# What masking makes of the numbers of a JSON document

Masking changes strings only, but the document is read and written anew, and each number of it goes
through the numbers that the reader keeps. Main statement: the numerals stay where they are, those
that are integers of 64 bits or have few digits denote the same number as before, and whatever needs
more digits than are ever written does not.
-/

namespace DumpMask.Transform

open Json (Position Token Numeral)

variable {transform : Transform} {threshold : Threshold} {rules : List (Json.Path × Transform)}
  {doc doc' : Json}

theorem keepsNumbers_maskLeaf (transform : Transform) (threshold : Threshold) :
    Json.KeepsNumbers (maskLeaf transform threshold) := by
  intro node node' h position
  cases maskLeaf_eq_ok_iff.mp h <;> rfl

theorem numbersAt_of_maskDocument (h : maskDocument rules threshold doc = .ok doc')
    (position : Position) : doc'.numbersAt position = doc.numbersAt position := by
  induction rules generalizing doc with
  | nil =>
    cases h
    rfl
  | cons rule rest ih =>
    obtain ⟨middle, hfirst, hrest⟩ := maskDocument_cons_eq_ok_iff.mp h
    have hkept := Json.keepsNumbers_modify (keepsNumbers_maskLeaf rule.2 threshold) hfirst position
    rw [ih hrest, hkept]

/-! ### Numerals -/

/-- What becomes of a numeral when its document is read and written anew. -/
structure Rewrites (old new : Numeral) : Prop where
  /-- The number that the reader keeps is written. -/
  shown : ∃ number, old.number? = some number ∧ new.value = number.shown
  eq_of_integer : old.integer?.isSome → new.value = old.value
  eq_of_isShort : old.IsShort → new.value = old.value
  /-- Seventeen digits are written at most. -/
  digits_of_eq : old.integer? = none → new.value = old.value →
    ∃ (digits : Nat) (exponent : Int), digits < 10 ^ 17 ∧ |old.value| = digits * 10 ^ exponent

theorem number?_of_integer {numeral : Numeral} {value : Int} (h : numeral.integer? = some value) :
    numeral.number? = some (.integer value) := by
  rw [Numeral.number?, h]

theorem float_of_number? {numeral : Numeral} {number : Json.Number}
    (hinteger : numeral.integer? = none) (h : numeral.number? = some number) :
    ∃ x, numeral.float? = some x ∧ number = .float x := by
  rw [Numeral.number?, hinteger] at h
  obtain ⟨x, hx, rfl⟩ := Option.map_eq_some_iff.mp h
  exact ⟨x, hx, rfl⟩

theorem abs_shown (x : Binary64) : |(Json.Number.float x).shown| = (Decimal.shortest x).value := by
  have hnonneg : 0 ≤ (Decimal.shortest x).value := by
    rw [Decimal.value]
    positivity
  rw [Json.Number.shown]
  split
  · rw [abs_neg, abs_of_nonneg hnonneg]
  · exact abs_of_nonneg hnonneg

theorem rewrites_of_number {old new : Numeral} {number : Json.Number}
    (hread : old.number? = some number) (hshown : new.value = number.shown) : Rewrites old new := by
  have hinteger : ∀ {value}, old.integer? = some value → new.value = old.value := by
    intro value h
    rw [number?_of_integer h] at hread
    cases hread
    rw [hshown, Numeral.value_of_integer? h]
    rfl
  refine ⟨⟨number, hread, hshown⟩, ?_, ?_, ?_⟩
  · intro h
    obtain ⟨value, hvalue⟩ := Option.isSome_iff_exists.mp h
    exact hinteger hvalue
  · intro hshort
    cases h : old.integer? with
    | some value => exact hinteger h
    | none =>
      obtain ⟨x, hx, rfl⟩ := float_of_number? h hread
      rw [hshown, Numeral.shown_of_isShort hshort hx]
  · intro h hkept
    obtain ⟨x, -, rfl⟩ := float_of_number? h hread
    obtain ⟨digits, exponent, hdigits, hvalue⟩ := Decimal.exists_digits_of_shortest x
    refine ⟨digits, exponent, hdigits, ?_⟩
    rw [← hkept, hshown, abs_shown, hvalue]

/-- A numeral and the one at its position after masking. -/
def RewritesAt (old new : Token) : Prop :=
  new.1 = old.1 ∧ Rewrites old.2 new.2

theorem forall₂_rewritesAt {before after : List Token} {numbers : List (Position × Json.Number)}
    (hread : List.Forall₂ Json.IsRead before numbers)
    (hshown : List.Forall₂ Json.IsShown after numbers) : List.Forall₂ RewritesAt before after := by
  induction hread generalizing after with
  | nil =>
    cases hshown
    exact .nil
  | cons hfirst hrest ih =>
    cases hshown with
    | cons hfirst' hrest' =>
      exact .cons ⟨hfirst'.1.trans hfirst.1.symm, rewrites_of_number hfirst.2 hfirst'.2⟩ (ih hrest')

theorem exists_read_of_apply {value out : Bytes} {length : LengthClass}
    (h : (jsonFields rules threshold).apply value length = .ok out) :
    ∃ doc, Json.read value = some doc := by
  cases hread : Json.read value with
  | none =>
    rw [jsonFields, ofFn] at h
    dsimp only at h
    rw [hread] at h
    cases h
  | some doc => exact ⟨doc, rfl⟩

/-- **Masking rewrites the numerals of a document in place.** Of a text that is accepted and repeats
no name: the numerals of the result stand where those of the text do, in the same order; an integer
of 64 bits and a numeral of at most fifteen digits denote the same number as before; and of the
others, whatever has more than seventeen digits does not. -/
theorem jsonFields_rewrites_numerals {value out : Bytes} {length : LengthClass}
    (happly : (jsonFields rules threshold).apply value length = .ok out)
    (hnames : ∀ doc, Json.readWith .all value = some doc → doc.NamesDistinct) :
    ∃ before after, Json.tokens? value = some before ∧ Json.tokens? out = some after ∧
      List.Forall₂ RewritesAt before after := by
  obtain ⟨doc, hread⟩ := exists_read_of_apply happly
  rw [jsonFields_apply hread] at happly
  obtain ⟨doc', hmask, rfl⟩ := map_eq_ok_iff.mp happly
  obtain ⟨written, hwritten, hmerge⟩ := Option.map_eq_some_iff.mp hread
  rw [Json.mergeNames_of_namesDistinct (hnames written hwritten)] at hmerge
  subst hmerge
  obtain ⟨before, hbefore, hread'⟩ := Json.exists_tokens_of_readWith hwritten
  obtain ⟨after, hafter, hshown⟩ := Json.exists_tokens_of_print doc'
  rw [numbersAt_of_maskDocument hmask] at hshown
  exact ⟨before, after, hbefore, hafter, forall₂_rewritesAt hread' hshown⟩

theorem namesDistinct_of_all_test {value : Bytes}
    (h : (Json.readWith .all value).all Json.hasDistinctNames) :
    ∀ doc, Json.readWith .all value = some doc → doc.NamesDistinct := by
  intro doc hread
  rw [hread] at h
  exact Json.namesDistinct_of_test doc h

/-- A price that loses a zero beside a name that is masked. -/
theorem jsonFields_rewrites_numerals_price :
    let name : Json.Path × Transform := ([.key "name"], .nullOut)
    let value := ascii "\x7b\"price\":19.90,\"name\":\"x\"\x7d"
    let out := ascii "\x7b\"price\":19.9,\"name\":null\x7d"
    ∃ old new, Json.tokens? value = some [([.member "price"], old)] ∧
      Json.tokens? out = some [([.member "price"], new)] ∧
      (jsonFields [name] ⟨32⟩).apply value .short = .ok out ∧
      old.IsShort ∧ new.value = old.value := by
  intro name value out
  have happly : (jsonFields [name] ⟨32⟩).apply value .short = .ok out :=
    eq_ok_of_toOption (by decide +kernel)
  have hold : Json.tokens? value = some [([.member "price"],
      ⟨false, ascii "19", some (ascii "90"), none⟩)] := by
    decide +kernel
  have hnew : Json.tokens? out = some [([.member "price"],
      ⟨false, ascii "19", some (ascii "9"), none⟩)] := by
    decide +kernel
  obtain ⟨before, after, hbefore, hafter, hrewrites⟩ :=
    jsonFields_rewrites_numerals happly (namesDistinct_of_all_test (by decide +kernel))
  rw [hold] at hbefore
  rw [hnew] at hafter
  cases hbefore
  cases hafter
  obtain ⟨⟨-, hprice⟩, -⟩ := List.forall₂_cons.mp hrewrites
  have hshort : Numeral.IsShort ⟨false, ascii "19", some (ascii "90"), none⟩ :=
    ⟨by decide, by decide, by decide⟩
  exact ⟨_, _, hold, hnew, happly, hshort, hprice.eq_of_isShort hshort⟩

/-- An integer that does not fit 64 bits is written as another one. -/
theorem jsonFields_changes_long_integer :
    let name : Json.Path × Transform := ([.key "name"], .nullOut)
    let value := ascii "\x7b\"id\":123456789012345678901,\"name\":\"x\"\x7d"
    let out := ascii "\x7b\"id\":1.2345678901234567e+20,\"name\":null\x7d"
    ∃ old new, Json.tokens? value = some [([.member "id"], old)] ∧
      Json.tokens? out = some [([.member "id"], new)] ∧
      (jsonFields [name] ⟨32⟩).apply value .short = .ok out ∧
      (∀ doc, Json.readWith .all value = some doc → doc.NamesDistinct) ∧
      new.value ≠ old.value := by
  intro name value out
  have hold : Json.tokens? value = some [([.member "id"],
      ⟨false, ascii "123456789012345678901", none, none⟩)] := by
    decide +kernel
  have hnew : Json.tokens? out = some [([.member "id"],
      ⟨false, ascii "1", some (ascii "2345678901234567"), some (false, ascii "20")⟩)] := by
    decide +kernel
  refine ⟨_, _, hold, hnew, eq_ok_of_toOption (by decide +kernel),
    namesDistinct_of_all_test (by decide +kernel), ?_⟩
  decide +kernel

end DumpMask.Transform
