import DumpMask.Proofs.Json.Numeral
import DumpMask.Proofs.Json.Positions
import Mathlib.Data.List.Forall2

/-!
# The numerals of a text

The numerals of a JSON text, each with the position where it stands, are collected by the steps of
the reader, but as they are written and without a limit of depth. Main statement: where the reader
reads a document, its numbers are those of the numerals, position by position.
-/

namespace DumpMask.Json

/-- A numeral and the position where it stands. -/
abbrev Token := Position × Numeral

variable {α : Type}

/-! ### Lists of elements -/

/-- What follows an element: a comma and more elements, or the closing mark. -/
def continueWith (close : UInt8) (more : Bytes → Option (List α × Bytes)) (first : List α)
    (text : Bytes) : Option (List α × Bytes) :=
  match skipBlanks text with
  | [] => none
  | b :: rest =>
    if b = Ascii.comma then (more rest).map fun (others, rest) => (first ++ others, rest)
    else if b = close then some (first, rest)
    else none

/-- What follows an opening mark: the closing mark, or elements. -/
def openWith (close : UInt8) (elements : Bytes → Option (List α × Bytes)) (text : Bytes) :
    Option (List α × Bytes) :=
  match skipBlanks text with
  | [] => none
  | b :: rest => if b = close then some ([], rest) else elements text

mutual

/-- The numerals of the value that a text begins with, after blanks, and the text after it. -/
def tokensOfValue (fuel : Nat) (position : Position) (text : Bytes) :
    Option (List Token × Bytes) :=
  match fuel with
  | 0 => none
  | fuel + 1 =>
    match skipBlanks text with
    | [] => none
    | b :: rest =>
      if b = Ascii.openBrace then openWith Ascii.closeBrace (tokensOfMembers fuel position) rest
      else if b = Ascii.openBracket then
        openWith Ascii.closeBracket (tokensOfItems fuel position 0) rest
      else if b = Ascii.doubleQuote then (readString true rest).map fun (_, rest) => ([], rest)
      else if b = 0x2D || Ascii.isDigit b then
        (Numeral.scan (b :: rest)).map fun (numeral, rest) => ([(position, numeral)], rest)
      else if b = 0x6E then (Bytes.stripStart? (ascii "null") (b :: rest)).map fun rest => ([], rest)
      else if b = 0x74 then (Bytes.stripStart? (ascii "true") (b :: rest)).map fun rest => ([], rest)
      else if b = 0x66 then (Bytes.stripStart? (ascii "false") (b :: rest)).map fun rest => ([], rest)
      else none

def tokensOfMembers (fuel : Nat) (position : Position) (text : Bytes) :
    Option (List Token × Bytes) :=
  match fuel with
  | 0 => none
  | fuel + 1 => do
    let (name, rest) ← readName true text
    let (tokens, rest) ← tokensOfValue fuel (position ++ [.member name]) rest
    continueWith Ascii.closeBrace (tokensOfMembers fuel position) tokens rest

def tokensOfItems (fuel : Nat) (position : Position) (index : Nat) (text : Bytes) :
    Option (List Token × Bytes) :=
  match fuel with
  | 0 => none
  | fuel + 1 => do
    let (tokens, rest) ← tokensOfValue fuel (position ++ [.item index]) text
    continueWith Ascii.closeBracket (tokensOfItems fuel position (index + 1)) tokens rest

end

/-- The numerals of a text that is one value with nothing but blanks around it. -/
def tokens? (text : Bytes) : Option (List Token) := do
  let (tokens, rest) ← tokensOfValue (2 * text.length + 2) [] text
  if (skipBlanks rest).isEmpty then some tokens else none

/-! ### The numbers of a document -/

mutual

/-- The numbers of a document that stands at a position, with the positions where they stand. -/
def numbersAt (position : Position) : Json → List (Position × Number)
  | .number value => [(position, value)]
  | .array items => numbersOfItems position 0 items
  | .object members => numbersOfMembers position members
  | _ => []

def numbersOfItems (position : Position) (index : Nat) : List Json → List (Position × Number)
  | [] => []
  | item :: rest =>
    item.numbersAt (position ++ [.item index]) ++ numbersOfItems position (index + 1) rest

def numbersOfMembers (position : Position) : List (String × Json) → List (Position × Number)
  | [] => []
  | (name, value) :: rest =>
    value.numbersAt (position ++ [.member name]) ++ numbersOfMembers position rest

end

/-! ### The steps of the reader -/

section Reader

variable {β : Type} {close : UInt8} {text rest : Bytes}

theorem readMembers_succ (fuel depth : Nat) (interest : Interest) (text : Bytes) :
    readMembers (fuel + 1) depth interest text =
      (readName (!interest.isIgnored) text).bind fun name =>
        (readValue fuel depth (interest.ofMember name.1) name.2).bind fun value =>
          continueWith Ascii.closeBrace (readMembers fuel depth interest)
            (if (interest.ofMember name.1).isIgnored then [] else [(name.1, value.1)]) value.2 := by
  rw [readMembers]
  refine congrArg (Option.bind _) (funext fun name => ?_)
  refine congrArg (Option.bind _) (funext fun value => ?_)
  obtain ⟨value, rest⟩ := value
  rw [continueWith]
  dsimp only
  generalize skipBlanks rest = following
  cases following with
  | nil => rfl
  | cons b rest =>
    dsimp only
    split
    · cases readMembers fuel depth interest rest <;> rfl
    · rfl

theorem readItems_all (fuel depth index : Nat) (text : Bytes) :
    readItems (fuel + 1) depth .all index text =
      (readValue fuel depth .all text).bind fun item =>
        continueWith Ascii.closeBracket (readItems fuel depth .all (index + 1)) [item.1]
          item.2 := by
  rw [readItems]
  refine congrArg (Option.bind _) (funext fun item => ?_)
  obtain ⟨item, rest⟩ := item
  rw [continueWith]
  dsimp only
  generalize skipBlanks rest = following
  cases following with
  | nil => rfl
  | cons b rest =>
    dsimp only
    split
    · cases readItems fuel depth .all (index + 1) rest <;> rfl
    · rfl

/-- The elements of a container make it up. -/
theorem openWith_map (close : UInt8) (elements : Bytes → Option (List α × Bytes)) (wrap : List α → β)
    (text : Bytes) :
    (openWith close elements text).map (Prod.map wrap id) =
      match skipBlanks text with
      | [] => none
      | b :: rest =>
        if b = close then some (wrap [], rest)
        else (elements text).bind fun read => some (wrap read.1, read.2) := by
  rw [openWith]
  generalize skipBlanks text = following
  cases following with
  | nil => rfl
  | cons b rest =>
    dsimp only
    split
    · rfl
    · cases elements text <;> rfl

/-- What the reader may read from a text without blanks in front. -/
inductive ReadsValue (fuel : Nat) : Bytes → Json → Bytes → Prop where
  | object {depth : Nat} {text rest : Bytes} {members : List (String × Json)}
    (h : openWith Ascii.closeBrace (readMembers fuel depth .all) text = some (members, rest)) :
    ReadsValue fuel (Ascii.openBrace :: text) (.object members) rest
  | array {depth : Nat} {text rest : Bytes} {items : List Json}
    (h : openWith Ascii.closeBracket (readItems fuel depth .all 0) text = some (items, rest)) :
    ReadsValue fuel (Ascii.openBracket :: text) (.array items) rest
  | string {text rest : Bytes} {value : String} (h : readString true text = some (value, rest)) :
    ReadsValue fuel (Ascii.doubleQuote :: text) (.string value) rest
  | number {b : UInt8} {text rest : Bytes} {numeral : Numeral} {value : Number}
    (hb : (b == 0x2D || Ascii.isDigit b) = true)
    (hscan : Numeral.scan (b :: text) = some (numeral, rest))
    (hvalue : numeral.number? = some value) : ReadsValue fuel (b :: text) (.number value) rest
  | null {rest : Bytes} : ReadsValue fuel (ascii "null" ++ rest) .null rest
  | true {rest : Bytes} : ReadsValue fuel (ascii "true" ++ rest) (.bool Bool.true) rest
  | false {rest : Bytes} : ReadsValue fuel (ascii "false" ++ rest) (.bool Bool.false) rest

theorem readsValue_of_readValue {fuel depth : Nat} {doc : Json}
    (h : readValue (fuel + 1) depth .all text = some (doc, rest)) :
    ReadsValue fuel (skipBlanks text) doc rest := by
  rw [readValue] at h
  generalize skipBlanks text = following at h
  cases following with
  | nil => cases h
  | cons b after =>
  have hword : ∀ {word value}, readWord word value (b :: after) = some (doc, rest) →
      b :: after = ascii word ++ rest ∧ doc = value := by
    intro word value hread
    obtain ⟨after', hstrip, hpair⟩ := Option.map_eq_some_iff.mp hread
    cases hpair
    exact ⟨Bytes.stripStart?_eq_some_iff.mp hstrip, rfl⟩
  dsimp only at h
  split at h
  · next hb =>
    subst hb
    obtain ⟨inner, -, h⟩ := Option.bind_eq_some_iff.mp h
    obtain ⟨⟨members, _⟩, helements, hpair⟩ :=
      Option.map_eq_some_iff.mp ((openWith_map _ _ Json.object _).trans h)
    cases hpair
    exact .object helements
  split at h
  · next hb =>
    subst hb
    obtain ⟨inner, -, h⟩ := Option.bind_eq_some_iff.mp h
    obtain ⟨⟨items, _⟩, helements, hpair⟩ :=
      Option.map_eq_some_iff.mp ((openWith_map _ _ Json.array _).trans h)
    cases hpair
    exact .array helements
  split at h
  · next hb =>
    subst hb
    obtain ⟨⟨value, _⟩, hstring, hpair⟩ := Option.bind_eq_some_iff.mp h
    cases hpair
    exact .string hstring
  split at h
  · next hb =>
    obtain ⟨⟨numeral, _⟩, hscan, h⟩ := Option.bind_eq_some_iff.mp h
    obtain ⟨value, hvalue, hpair⟩ := Option.bind_eq_some_iff.mp h
    cases hpair
    exact .number hb hscan hvalue
  split at h
  · obtain ⟨htext, rfl⟩ := hword h
    rw [htext]
    exact .null
  split at h
  · obtain ⟨htext, rfl⟩ := hword h
    rw [htext]
    exact .true
  split at h
  · obtain ⟨htext, rfl⟩ := hword h
    rw [htext]
    exact .false
  · cases h

end Reader

/-! ### The steps of the collection -/

section Steps

variable {fuel : Nat} {position : Position} {text rest : Bytes} {b : UInt8}

theorem tokensOfValue_object (h : skipBlanks text = Ascii.openBrace :: rest) :
    tokensOfValue (fuel + 1) position text =
      openWith Ascii.closeBrace (tokensOfMembers fuel position) rest := by
  rw [tokensOfValue, h]
  rfl

theorem tokensOfValue_array (h : skipBlanks text = Ascii.openBracket :: rest) :
    tokensOfValue (fuel + 1) position text =
      openWith Ascii.closeBracket (tokensOfItems fuel position 0) rest := by
  rw [tokensOfValue, h]
  rfl

theorem tokensOfValue_string (h : skipBlanks text = Ascii.doubleQuote :: rest) :
    tokensOfValue (fuel + 1) position text =
      (readString true rest).map fun (_, rest) => ([], rest) := by
  rw [tokensOfValue, h]
  rfl

theorem tokensOfValue_numeral (h : skipBlanks text = b :: rest)
    (hb : (b == 0x2D || Ascii.isDigit b) = true) :
    tokensOfValue (fuel + 1) position text =
      (Numeral.scan (b :: rest)).map fun (numeral, rest) => ([(position, numeral)], rest) := by
  have hbrace : b ≠ Ascii.openBrace := by
    rintro rfl
    cases hb
  have hbracket : b ≠ Ascii.openBracket := by
    rintro rfl
    cases hb
  have hquote : b ≠ Ascii.doubleQuote := by
    rintro rfl
    cases hb
  rw [tokensOfValue, h]
  dsimp only
  rw [if_neg hbrace, if_neg hbracket, if_neg hquote]
  exact if_pos hb

/-- The words that are values. -/
inductive IsWord : String → Prop where
  | null : IsWord "null"
  | true : IsWord "true"
  | false : IsWord "false"

theorem tokensOfValue_word {word : String} (hword : IsWord word)
    (h : skipBlanks text = ascii word ++ rest) :
    tokensOfValue (fuel + 1) position text = some ([], rest) := by
  have hstrip : Bytes.stripStart? (ascii word) (ascii word ++ rest) = some rest :=
    Bytes.stripStart?_eq_some_iff.mpr rfl
  have hmap := congrArg (Option.map fun rest => (([] : List Token), rest)) hstrip
  rw [tokensOfValue, h]
  cases hword <;> exact hmap

end Steps

/-! ### Numerals and numbers -/

/-- The number stands where the numeral does and is what the numeral is read as. -/
def IsRead (token : Token) (number : Position × Number) : Prop :=
  token.1 = number.1 ∧ token.2.number? = some number.2

variable {β : Type} {close : UInt8} {text rest : Bytes}

/-- What holds of the elements of two lists that are read alike holds of the lists. -/
theorem exists_continueWith {more : Bytes → Option (List α × Bytes)}
    {more' : Bytes → Option (List β × Bytes)} {first all : List α} {first' : List β}
    (AllRead RestRead : List β → List α → Prop)
    (hmore : ∀ {text others rest}, more text = some (others, rest) →
      ∃ others', more' text = some (others', rest) ∧ RestRead others' others)
    (hlast : AllRead first' first)
    (happend : ∀ {others' others}, RestRead others' others →
      AllRead (first' ++ others') (first ++ others))
    (h : continueWith close more first text = some (all, rest)) :
    ∃ all', continueWith close more' first' text = some (all', rest) ∧ AllRead all' all := by
  rw [continueWith] at h ⊢
  generalize skipBlanks text = following at h
  cases following with
  | nil => cases h
  | cons b after =>
    dsimp only at h ⊢
    split at h
    · next hcomma =>
      obtain ⟨⟨others, _⟩, hothers, hpair⟩ := Option.map_eq_some_iff.mp h
      cases hpair
      obtain ⟨others', hothers', hread⟩ := hmore hothers
      rw [if_pos hcomma, hothers']
      exact ⟨_, rfl, happend hread⟩
    split at h
    · next hcomma hclose =>
      cases h
      rw [if_neg hcomma, if_pos hclose]
      exact ⟨_, rfl, hlast⟩
    · cases h

theorem exists_openWith {elements : Bytes → Option (List α × Bytes)}
    {elements' : Bytes → Option (List β × Bytes)} {all : List α}
    (AllRead : List β → List α → Prop)
    (helements : ∀ {text all rest}, elements text = some (all, rest) →
      ∃ all', elements' text = some (all', rest) ∧ AllRead all' all)
    (hnil : AllRead [] []) (h : openWith close elements text = some (all, rest)) :
    ∃ all', openWith close elements' text = some (all', rest) ∧ AllRead all' all := by
  rw [openWith] at h ⊢
  generalize skipBlanks text = following at h
  cases following with
  | nil => cases h
  | cons b after =>
    dsimp only at h ⊢
    split at h
    · next hclose =>
      cases h
      rw [if_pos hclose]
      exact ⟨[], rfl, hnil⟩
    · next hclose =>
      rw [if_neg hclose]
      exact helements h

/-- The numerals of a list of elements, from an index on, and the numbers of the elements. -/
def ItemsRead (position : Position) (index : Nat) (tokens : List Token) (items : List Json) : Prop :=
  List.Forall₂ IsRead tokens (numbersOfItems position index items)

def MembersRead (position : Position) (tokens : List Token) (members : List (String × Json)) :
    Prop :=
  List.Forall₂ IsRead tokens (numbersOfMembers position members)

/-- With this much fuel, the numerals that are collected are those of the numbers that are read. -/
structure CollectsNumbers (fuel : Nat) : Prop where
  value : ∀ {depth text doc rest} (position : Position),
    readValue fuel depth .all text = some (doc, rest) →
    ∃ tokens, tokensOfValue fuel position text = some (tokens, rest) ∧
      List.Forall₂ IsRead tokens (doc.numbersAt position)
  members : ∀ {depth text members rest} (position : Position),
    readMembers fuel depth .all text = some (members, rest) →
    ∃ tokens, tokensOfMembers fuel position text = some (tokens, rest) ∧
      MembersRead position tokens members
  items : ∀ {depth text items rest} (position : Position) (index : Nat),
    readItems fuel depth .all index text = some (items, rest) →
    ∃ tokens, tokensOfItems fuel position index text = some (tokens, rest) ∧
      ItemsRead position index tokens items

section Step

variable {fuel depth : Nat} {position : Position} (hfuel : CollectsNumbers fuel)
include hfuel

theorem exists_tokensOfValue {doc : Json}
    (h : readValue (fuel + 1) depth .all text = some (doc, rest)) :
    ∃ tokens, tokensOfValue (fuel + 1) position text = some (tokens, rest) ∧
      List.Forall₂ IsRead tokens (doc.numbersAt position) := by
  have hread := readsValue_of_readValue h
  generalize hblanks : skipBlanks text = following at hread
  cases hread with
  | object helements =>
    rw [tokensOfValue_object hblanks]
    exact exists_openWith (MembersRead position) (hfuel.members position) .nil helements
  | array helements =>
    rw [tokensOfValue_array hblanks]
    exact exists_openWith (ItemsRead position 0) (hfuel.items position 0) .nil helements
  | string hstring =>
    rw [tokensOfValue_string hblanks, hstring]
    exact ⟨[], rfl, .nil⟩
  | number hb hscan hvalue =>
    rw [tokensOfValue_numeral hblanks hb, hscan]
    exact ⟨_, rfl, .cons ⟨rfl, hvalue⟩ .nil⟩
  | null => exact ⟨[], tokensOfValue_word .null hblanks, .nil⟩
  | true => exact ⟨[], tokensOfValue_word .true hblanks, .nil⟩
  | false => exact ⟨[], tokensOfValue_word .false hblanks, .nil⟩

theorem exists_tokensOfMembers {members : List (String × Json)}
    (h : readMembers (fuel + 1) depth .all text = some (members, rest)) :
    ∃ tokens, tokensOfMembers (fuel + 1) position text = some (tokens, rest) ∧
      MembersRead position tokens members := by
  rw [readMembers_succ] at h
  obtain ⟨⟨name, _⟩, (hname : readName true text = _), h⟩ := Option.bind_eq_some_iff.mp h
  obtain ⟨⟨value, _⟩, hvalue, h⟩ := Option.bind_eq_some_iff.mp h
  obtain ⟨tokens, htokens, hread⟩ := hfuel.value (position ++ [.member name]) hvalue
  have hlast : MembersRead position tokens [(name, value)] := by
    rw [MembersRead, numbersOfMembers, numbersOfMembers, List.append_nil]
    exact hread
  have hall := exists_continueWith (MembersRead position) (MembersRead position)
    (hfuel.members position) hlast (fun hothers => List.rel_append hread hothers) h
  rw [tokensOfMembers, hname]
  dsimp only [bind, Option.bind]
  rw [htokens]
  exact hall

theorem exists_tokensOfItems {index : Nat} {items : List Json}
    (h : readItems (fuel + 1) depth .all index text = some (items, rest)) :
    ∃ tokens, tokensOfItems (fuel + 1) position index text = some (tokens, rest) ∧
      ItemsRead position index tokens items := by
  rw [readItems_all] at h
  obtain ⟨⟨item, _⟩, hitem, h⟩ := Option.bind_eq_some_iff.mp h
  obtain ⟨tokens, htokens, hread⟩ := hfuel.value (position ++ [.item index]) hitem
  have hlast : ItemsRead position index tokens [item] := by
    rw [ItemsRead, numbersOfItems, numbersOfItems, List.append_nil]
    exact hread
  have hall := exists_continueWith (ItemsRead position index) (ItemsRead position (index + 1))
    (hfuel.items position (index + 1)) hlast (fun hothers => List.rel_append hread hothers) h
  rw [tokensOfItems, htokens]
  exact hall

end Step

theorem collectsNumbers (fuel : Nat) : CollectsNumbers fuel := by
  induction fuel with
  | zero =>
    refine ⟨fun _ h => ?_, fun _ h => ?_, fun _ _ h => ?_⟩
    · rw [readValue] at h
      cases h
    · rw [readMembers] at h
      cases h
    · rw [readItems] at h
      cases h
  | succ fuel ih =>
    exact ⟨fun _ => exists_tokensOfValue ih, fun _ => exists_tokensOfMembers ih,
      fun _ _ => exists_tokensOfItems ih⟩

/-- **The numbers of a document are those of the numerals of its text**, position by position. -/
theorem exists_tokens_of_readWith {doc : Json} (h : readWith .all text = some doc) :
    ∃ tokens, tokens? text = some tokens ∧ List.Forall₂ IsRead tokens (doc.numbersAt []) := by
  obtain ⟨⟨value, rest⟩, hvalue, h⟩ := Option.bind_eq_some_iff.mp h
  obtain ⟨hblanks, hdoc⟩ := Option.ite_none_right_eq_some.mp h
  cases hdoc
  obtain ⟨tokens, htokens, hread⟩ := (collectsNumbers _).value [] hvalue
  refine ⟨tokens, ?_, hread⟩
  rw [tokens?, htokens]
  exact if_pos hblanks

example : (tokens? (ascii "[1, \x7b\"a\": -2.50e3\x7d]")).map
      (·.map fun token => (token.1, token.2.text)) =
    some [([.item 0], ascii "1"), ([.item 1, .member "a"], ascii "-2.50e+3")] := by
  decide +kernel

end DumpMask.Json
