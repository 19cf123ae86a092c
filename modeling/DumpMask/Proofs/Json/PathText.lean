import DumpMask.Json.Path
import DumpMask.Proofs.Results

/-!
# The written form of paths

A path is an item and continuations, perhaps behind a dot: an item is a key or a bracket, and a
continuation is a bracket, or a dot and an item. The reader goes through the text character by
character and has no grammar of its own; it keeps the key that it has begun and whether a bracket
has just been closed. An item ends exactly where one of the two holds and not the other, and this is
what a continuation may follow.

Main statement: the texts that are read are those of the grammar, with the segments that they spell,
and a path that has a written form is read back from it.
-/

namespace DumpMask.Json.Path

/-! ### The grammar -/

def IsWordChar (c : Char) : Prop :=
  ('A' ≤ c ∧ c ≤ 'Z') ∨ ('a' ≤ c ∧ c ≤ 'z') ∨ ('0' ≤ c ∧ c ≤ '9') ∨ c = '_'

def IsWord (word : List Char) : Prop :=
  word ≠ [] ∧ ∀ c ∈ word, IsWordChar c

inductive IsBracket : List Char → Segment → Prop
  | each : IsBracket ['[', ']'] .each
  | index {sign digits : List Char} (hsign : sign = [] ∨ sign = ['+']) (hne : digits ≠ [])
      (hdigits : ∀ c ∈ digits, '0' ≤ c ∧ c ≤ '9')
      (hbound : Nat.ofDigitChars 10 digits 0 < UInt64.size) :
      IsBracket ('[' :: (sign ++ digits ++ [']'])) (.index (Nat.ofDigitChars 10 digits 0))

inductive IsItem : List Char → Segment → Prop
  | key {word : List Char} (h : IsWord word) : IsItem word (.key (String.ofList word))
  | bracket {text : List Char} {segment : Segment} (h : IsBracket text segment) :
      IsItem text segment

inductive IsContinuation : List Char → Segment → Prop
  | dot {text : List Char} {segment : Segment} (h : IsItem text segment) :
      IsContinuation ('.' :: text) segment
  | bracket {text : List Char} {segment : Segment} (h : IsBracket text segment) :
      IsContinuation text segment

inductive Continues : List Char → Path → Prop
  | nil : Continues [] []
  | cons {text rest : List Char} {segment : Segment} {path : Path}
      (h : IsContinuation text segment) (hrest : Continues rest path) :
      Continues (text ++ rest) (segment :: path)

inductive IsItems : List Char → Path → Prop
  | mk {text rest : List Char} {segment : Segment} {path : Path} (h : IsItem text segment)
      (hrest : Continues rest path) : IsItems (text ++ rest) (segment :: path)

inductive IsPath : List Char → Path → Prop
  | plain {text : List Char} {path : Path} (h : IsItems text path) : IsPath text path
  | dotted {text : List Char} {path : Path} (h : IsItems text path) : IsPath ('.' :: text) path

variable {text rest : List Char} {segment : Segment} {path : Path}

/-! ### Characters and brackets -/

theorem isDigit_iff {c : Char} : c.isDigit = true ↔ '0' ≤ c ∧ c ≤ '9' :=
  Bool.and_eq_true_iff.trans (and_congr decide_eq_true_iff decide_eq_true_iff)

theorem isKeyChar_iff {c : Char} : isKeyChar c = true ↔ IsWordChar c := by
  have hupper : c.isUpper = true ↔ 'A' ≤ c ∧ c ≤ 'Z' := decide_eq_true_iff
  have hlower : c.isLower = true ↔ 'a' ≤ c ∧ c ≤ 'z' :=
    Bool.and_eq_true_iff.trans (and_congr decide_eq_true_iff decide_eq_true_iff)
  have halpha : c.isAlpha = true ↔ c.isUpper = true ∨ c.isLower = true := Bool.or_eq_true_iff
  have halphanum : c.isAlphanum = true ↔ c.isAlpha = true ∨ c.isDigit = true :=
    Bool.or_eq_true_iff
  rw [isKeyChar, Bool.or_eq_true, halphanum, halpha, hupper, hlower, isDigit_iff, beq_iff_eq,
    IsWordChar, or_assoc, or_assoc]

/-- The digits behind the sign, if there is one. -/
def unsigned (inside : List Char) : List Char :=
  if inside.head? = some '+' then inside.tail else inside

theorem exists_sign (inside : List Char) :
    ∃ sign, (sign = [] ∨ sign = ['+']) ∧ inside = sign ++ unsigned inside := by
  unfold unsigned
  split
  · next hplus =>
    obtain ⟨digits, rfl⟩ := List.head?_eq_some_iff.mp hplus
    exact ⟨['+'], .inr rfl, rfl⟩
  · exact ⟨[], .inl rfl, rfl⟩

theorem unsigned_append {sign digits : List Char} (hsign : sign = [] ∨ sign = ['+'])
    (hdigits : ∀ c ∈ digits, '0' ≤ c ∧ c ≤ '9') : unsigned (sign ++ digits) = digits := by
  rcases hsign with rfl | rfl
  · rw [List.nil_append, unsigned, if_neg]
    intro hplus
    exact absurd (hdigits '+' (List.mem_of_mem_head? hplus)) (by decide)
  · rfl

theorem position?_eq_some_iff {inside : List Char} {n : Nat} :
    position? inside = some n ↔
      unsigned inside ≠ [] ∧ (∀ c ∈ unsigned inside, '0' ≤ c ∧ c ≤ '9') ∧
        Nat.ofDigitChars 10 (unsigned inside) 0 < UInt64.size ∧
        n = Nat.ofDigitChars 10 (unsigned inside) 0 := by
  have hunfold : position? inside =
      if (unsigned inside).isEmpty || !(unsigned inside).all Char.isDigit then none
      else if Nat.ofDigitChars 10 (unsigned inside) 0 < UInt64.size then
        some (Nat.ofDigitChars 10 (unsigned inside) 0)
      else none := rfl
  have hall : (unsigned inside).all Char.isDigit = true ↔
      ∀ c ∈ unsigned inside, '0' ≤ c ∧ c ≤ '9' := by
    rw [List.all_eq_true]
    exact forall₂_congr fun c _ => isDigit_iff
  rw [hunfold, Option.ite_none_left_eq_some, Option.ite_none_right_eq_some, Bool.or_eq_true,
    Bool.not_eq_true', List.isEmpty_iff, not_or, Bool.not_eq_false, hall, Option.some.injEq,
    @eq_comm _ _ n, and_assoc]

/-- What may stand between brackets, in terms of the reader. -/
theorem isBracket_iff :
    IsBracket text segment ↔
      ∃ inside, text = '[' :: (inside ++ [']']) ∧ ']' ∉ inside ∧ bracket? inside = .ok segment := by
  constructor
  · intro h
    cases h with
    | each => exact ⟨[], rfl, by simp, rfl⟩
    | @index sign digits hsign hne hdigits hbound =>
      refine ⟨sign ++ digits, rfl, ?_, ?_⟩
      · intro hmem
        rcases List.mem_append.mp hmem with hmem | hmem
        · rcases hsign with rfl | rfl <;> simp at hmem
        · exact absurd (hdigits _ hmem) (by decide)
      · have hposition :
            position? (sign ++ digits) = some (Nat.ofDigitChars 10 digits 0) := by
          rw [position?_eq_some_iff, unsigned_append hsign hdigits]
          exact ⟨hne, hdigits, hbound, rfl⟩
        have hempty : (sign ++ digits).isEmpty = false := by simp [hne]
        simp [bracket?, hempty, hposition]
  · rintro ⟨inside, rfl, -, hread⟩
    unfold bracket? at hread
    split at hread
    · next hempty =>
      cases hread
      rw [List.isEmpty_iff.mp hempty]
      exact .each
    · split at hread
      · next n hposition =>
        cases hread
        obtain ⟨hne, hdigits, hbound, rfl⟩ := position?_eq_some_iff.mp hposition
        obtain ⟨sign, hsign, hinside⟩ := exists_sign inside
        rw [hinside, unsigned_append hsign hdigits]
        exact .index hsign hne hdigits hbound
      · cases hread

/-! ### Every text of the grammar is read -/

theorem parseFrom_word {word : List Char} (hword : ∀ c ∈ word, IsWordChar c)
    (key rest : List Char) :
    parseFrom key false (word ++ rest) = parseFrom (key ++ word) false rest := by
  induction word generalizing key with
  | nil => rw [List.append_nil, List.nil_append]
  | cons c word ih =>
    have hc := isKeyChar_iff.mpr (hword c (List.mem_cons_self ..))
    have hrest := ih (fun c hc => hword c (List.mem_cons_of_mem _ hc)) (key ++ [c])
    rw [List.cons_append, parseFrom, if_pos hc, if_neg Bool.false_ne_true, hrest,
      List.append_assoc, List.singleton_append]

theorem parseFrom_dot (key rest : List Char) :
    parseFrom key key.isEmpty ('.' :: rest) =
      (keySegment key ++ ·) <$> parseFrom [] false rest := by
  have hdot : isKeyChar '.' = false := by decide
  rw [parseFrom, hdot, if_neg Bool.false_ne_true, if_pos rfl, if_neg]
  cases key <;> simp

theorem parseFrom_bracket (h : IsBracket text segment) (key : List Char) (closed : Bool)
    (rest : List Char) :
    parseFrom key closed (text ++ rest) =
      (keySegment key ++ segment :: ·) <$> parseFrom [] true rest := by
  obtain ⟨inside, rfl, hclose, hread⟩ := isBracket_iff.mp h
  have hopen : isKeyChar '[' = false ∧ '[' ≠ '.' := by decide
  have hinside : ∀ c ∈ inside, decide (c ≠ ']') = true := by
    intro c hc
    exact decide_eq_true fun heq => hclose (heq ▸ hc)
  have htext : (inside ++ [']'] ++ rest) = inside ++ ']' :: rest := by simp
  have hdrop : (inside ++ ']' :: rest).dropWhile (· ≠ ']') = ']' :: rest := by
    rw [List.dropWhile_append_of_pos hinside]
    rfl
  have htake : (inside ++ ']' :: rest).takeWhile (· ≠ ']') = inside := by
    rw [List.takeWhile_append_of_pos hinside]
    simp
  rw [List.cons_append, htext, parseFrom, hopen.1, if_neg Bool.false_ne_true, if_neg hopen.2,
    if_pos rfl, htake, hread]
  split
  · next hnil =>
    rw [hdrop] at hnil
    cases hnil
  · next c after hcons =>
    rw [hdrop] at hcons
    cases hcons
    rfl

theorem parseFrom_item (h : IsItem text segment)
    (hrest : ∀ key : List Char, parseFrom key key.isEmpty rest = .ok (keySegment key ++ path)) :
    parseFrom [] false (text ++ rest) = .ok (segment :: path) := by
  cases h with
  | key hword =>
    have hempty : text.isEmpty = false := by simpa using hword.1
    have htext := hrest text
    rw [hempty, keySegment, hempty] at htext
    rw [parseFrom_word hword.2]
    exact htext
  | bracket hbracket =>
    have hclosed : parseFrom [] true rest = .ok path := hrest []
    rw [parseFrom_bracket hbracket, hclosed]
    rfl

theorem parseFrom_of_continues (h : Continues text path) (key : List Char) :
    parseFrom key key.isEmpty text = .ok (keySegment key ++ path) := by
  induction h generalizing key with
  | nil =>
    rw [parseFrom, if_neg, List.append_nil]
    cases key <;> simp
  | @cons text rest segment path hcontinuation _ ih =>
    cases hcontinuation with
    | dot hitem =>
      rw [List.cons_append, parseFrom_dot, parseFrom_item hitem ih]
      rfl
    | bracket hbracket =>
      have hclosed : parseFrom [] true rest = .ok path := ih []
      rw [parseFrom_bracket hbracket, hclosed]
      rfl

theorem parseFrom_of_isItems (h : IsItems text path) : parseFrom [] false text = .ok path := by
  cases h with
  | mk hitem hrest => exact parseFrom_item hitem (parseFrom_of_continues hrest)

/-! ### Nothing else is read -/

/-- What a text is if it is read to its end: after a bracket it continues a path, and otherwise it
is the rest of the item that `key` begins, and what continues the path behind it. -/
def ReadsTo (key : List Char) : Bool → List Char → Path → Prop
  | true, text, path => Continues text path
  | false, text, path => IsItems (key ++ text) path

theorem readsTo_of_continues {key : List Char} {closed : Bool}
    (hkey : ∀ c ∈ key, IsWordChar c) (hclosed : closed = true → key = [])
    (hend : ¬ (key.isEmpty && !closed) = true) (h : Continues text path) :
    ReadsTo key closed text (keySegment key ++ path) := by
  cases closed with
  | true =>
    rw [hclosed rfl]
    exact h
  | false =>
    have hne : key ≠ [] := by simpa using hend
    have hsegment : keySegment key = [.key (String.ofList key)] := by simp [keySegment, hne]
    rw [hsegment]
    exact .mk (.key ⟨hne, hkey⟩) h

theorem exists_bracket_of_dropWhile {c : Char} {after : List Char}
    (hdrop : rest.dropWhile (· ≠ ']') = c :: after)
    (hread : bracket? (rest.takeWhile (· ≠ ']')) = .ok segment) :
    ∃ text, IsBracket text segment ∧ '[' :: rest = text ++ after := by
  have hrest := List.takeWhile_append_dropWhile (p := (· ≠ ']')) (l := rest)
  obtain rfl : c = ']' := by
    have hhead := List.head?_dropWhile_not (· ≠ ']') rest
    rw [hdrop] at hhead
    simpa using hhead
  have hclose : ']' ∉ rest.takeWhile (· ≠ ']') := by
    intro hmem
    have hne := List.all_eq_true.mp List.all_takeWhile _ hmem
    simp at hne
  refine ⟨'[' :: (rest.takeWhile (· ≠ ']') ++ [']']), isBracket_iff.mpr ⟨_, rfl, hclose, hread⟩, ?_⟩
  rw [List.cons_append, List.append_assoc, List.singleton_append, ← hdrop, hrest]

theorem readsTo_of_parseFrom {key text : List Char} {closed : Bool} {path : Path}
    (hkey : ∀ c ∈ key, IsWordChar c) (hclosed : closed = true → key = [])
    (h : parseFrom key closed text = .ok path) : ReadsTo key closed text path := by
  have hnone : ∀ c ∈ ([] : List Char), IsWordChar c := List.forall_mem_nil _
  -- what is left after the faults: the end of the text, a character of a key, a dot and a bracket
  fun_induction parseFrom key closed text generalizing path with
  | case1 | case3 | case5 | case7 | case8 | case10 => cases h
  | case2 key closed hend =>
    cases h
    have hread := readsTo_of_continues hkey hclosed hend .nil
    rwa [List.append_nil] at hread
  | case4 key closed c rest hc hopen ih =>
    obtain rfl : closed = false := by simpa using hopen
    have hword : ∀ d ∈ key ++ [c], IsWordChar d := by
      intro d hd
      rcases List.mem_append.mp hd with hd | hd
      · exact hkey d hd
      · exact isKeyChar_iff.mp (List.mem_singleton.mp hd ▸ hc)
    have hread : IsItems (key ++ [c] ++ rest) path := ih hword Bool.noConfusion h
    rw [List.append_assoc, List.singleton_append] at hread
    exact hread
  | case6 key closed rest hend _ ih =>
    obtain ⟨others, hothers, rfl⟩ := map_eq_ok_iff.mp h
    have hitems : IsItems rest others := ih hnone Bool.noConfusion hothers
    cases hitems with
    | mk hitem hrest =>
      exact readsTo_of_continues hkey hclosed hend (.cons (.dot hitem) hrest)
  | case9 key closed rest c after hdrop segment hread _ _ ih =>
    obtain ⟨others, hothers, rfl⟩ := map_eq_ok_iff.mp h
    obtain ⟨bracket, hbracket, htext⟩ := exists_bracket_of_dropWhile hdrop hread
    have hrest : Continues after others := ih hnone (fun _ => rfl) hothers
    rw [htext]
    -- only at the start of an item is a bracket an item by itself
    by_cases hend : (key.isEmpty && !closed) = true
    · obtain ⟨rfl, rfl⟩ : key = [] ∧ closed = false := by simpa using hend
      have hitems : IsItems (bracket ++ after) (segment :: others) :=
        .mk (.bracket hbracket) hrest
      exact hitems
    · exact readsTo_of_continues hkey hclosed hend (.cons (.bracket hbracket) hrest)

theorem IsItems.head?_ne_dot (h : IsItems text path) : text.head? ≠ some '.' := by
  have hdot : ¬ IsWordChar '.' := fun hword => absurd (isKeyChar_iff.mpr hword) (by decide)
  cases h with
  | mk hitem hrest =>
    cases hitem with
    | key hword =>
      obtain ⟨c, word, rfl⟩ := List.exists_cons_of_ne_nil hword.1
      rintro ⟨rfl⟩
      exact hdot (hword.2 '.' (List.mem_cons_self ..))
    | bracket hbracket =>
      obtain ⟨inside, rfl, -⟩ := isBracket_iff.mp hbracket
      rintro ⟨⟩

theorem parse_eq_ok_iff {text : String} : parse text = .ok path ↔ IsPath text.toList path := by
  have hitems {chars : List Char} {path : Path} :
      parseFrom [] false chars = .ok path ↔ IsItems chars path :=
    ⟨readsTo_of_parseFrom (List.forall_mem_nil _) Bool.noConfusion, parseFrom_of_isItems⟩
  unfold parse
  split
  · next chars htext =>
    rw [hitems, htext]
    constructor
    · exact .dotted
    · intro h
      cases h with
      | plain h => exact absurd rfl h.head?_ne_dot
      | dotted h => exact h
  · next hdot =>
    rw [hitems]
    generalize text.toList = chars at hdot
    constructor
    · exact .plain
    · intro h
      cases h with
      | plain h => exact h
      | dotted h => exact absurd rfl (hdot _)

/-! ### Written paths -/

/-- The segments that have a written form. -/
def IsWritable : Segment → Prop
  | .key name => IsWord name.toList
  | .each => True
  | .index position => position < UInt64.size

instance (word : List Char) : Decidable (IsWord word) :=
  decidable_of_iff (word ≠ [] ∧ word.all isKeyChar = true) (by
    rw [IsWord, List.all_eq_true]
    exact and_congr_right fun _ => forall₂_congr fun _ _ => isKeyChar_iff)

instance : DecidablePred IsWritable
  | .key name => inferInstanceAs (Decidable (IsWord name.toList))
  | .each => inferInstanceAs (Decidable True)
  | .index position => Nat.decLt position UInt64.size

theorem isBracket_index {n : Nat} (h : n < UInt64.size) :
    IsBracket ('[' :: ((toString n).toList ++ [']'])) (.index n) := by
  have htext : (toString n).toList = Nat.toDigits 10 n := Nat.toList_repr
  have hvalue : Nat.ofDigitChars 10 (Nat.toDigits 10 n) 0 = n :=
    Nat.ofDigitChars_toDigits (by decide) (by decide)
  have hbracket : IsBracket ('[' :: ([] ++ Nat.toDigits 10 n ++ [']']))
      (.index (Nat.ofDigitChars 10 (Nat.toDigits 10 n) 0)) := by
    refine .index (.inl rfl) Nat.toDigits_ne_nil ?_ (by rwa [hvalue])
    intro c hc
    exact isDigit_iff.mp (Nat.isDigit_of_mem_toDigits (by decide) (by decide) hc)
  rw [hvalue] at hbracket
  rw [htext]
  exact hbracket

theorem isItem_renderSegment (h : IsWritable segment) :
    IsItem (renderSegment true segment) segment := by
  cases segment with
  | key name =>
    have hkey : IsItem name.toList (.key (String.ofList name.toList)) := .key h
    rw [String.ofList_toList] at hkey
    exact hkey
  | each => exact .bracket .each
  | index n => exact .bracket (isBracket_index h)

theorem isContinuation_renderSegment (h : IsWritable segment) :
    IsContinuation (renderSegment false segment) segment := by
  cases segment with
  | key name => exact .dot (isItem_renderSegment h)
  | each => exact .bracket .each
  | index n => exact .bracket (isBracket_index h)

theorem continues_renderFrom (h : ∀ segment ∈ path, IsWritable segment) :
    Continues (renderFrom false path) path := by
  induction path with
  | nil => exact .nil
  | cons segment path ih =>
    exact .cons (isContinuation_renderSegment (h segment (List.mem_cons_self ..)))
      (ih fun other hmem => h other (List.mem_cons_of_mem _ hmem))

theorem isPath_render (hne : path ≠ []) (h : ∀ segment ∈ path, IsWritable segment) :
    IsPath (render path).toList path := by
  obtain ⟨segment, path, rfl⟩ := List.exists_cons_of_ne_nil hne
  rw [render, String.toList_ofList]
  exact .plain (.mk (isItem_renderSegment (h segment (List.mem_cons_self ..)))
    (continues_renderFrom fun other hmem => h other (List.mem_cons_of_mem _ hmem)))

/-- **Paths.** A text is read exactly when it follows the grammar, as the segments that it spells,
and a path whose segments can be written is read back from its written form. -/
theorem parse_reads_grammar :
    (∀ text path, parse text = .ok path ↔ IsPath text.toList path) ∧
      ∀ path, path ≠ [] → (∀ segment ∈ path, IsWritable segment) →
        parse (render path) = .ok path :=
  ⟨fun _ _ => parse_eq_ok_iff, fun _ hne h => parse_eq_ok_iff.mpr (isPath_render hne h)⟩

theorem parse_reads_grammar_brackets :
    let path : Path := [.key "a_1", .each, .index 18446744073709551615, .key "B"]
    parse ".a.[+007]" = .ok [.key "a", .index 7] ∧
      IsPath ".a.[+007]".toList [.key "a", .index 7] ∧
      render path = "a_1[][18446744073709551615].B" ∧ parse (render path) = .ok path := by
  intro path
  have hsign : parse ".a.[+007]" = .ok [.key "a", .index 7] := eq_ok_of_toOption (by decide +kernel)
  refine ⟨hsign, (parse_reads_grammar.1 _ _).mp hsign, by decide +kernel, ?_⟩
  exact parse_reads_grammar.2 path (List.cons_ne_nil _ _) (by decide +kernel)

end DumpMask.Json.Path
