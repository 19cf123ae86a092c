import DumpMask.Proofs.Literal.Readings
import DumpMask.Proofs.Text.Validity

/-!
# String bodies token by token

A string body is read from left to right, one token at a time: an octet that stands for itself, a
doubled quote, or a backslash and a code. No token is the beginning of another, so the tokens of a
body are found without looking back, and where no token begins the reader stops for good. What is
read before that place is the longest part of the body that can be read.
-/

namespace DumpMask.Literal

/-! ### Tokens -/

/-- The codes behind a backslash and what they stand for. Pattern escapes keep their backslash. -/
def escapeTable : List (UInt8 × Bytes) :=
  [(0x30, [0x00]), (Ascii.quote, [Ascii.quote]), (Ascii.doubleQuote, [Ascii.doubleQuote]),
    (0x62, [0x08]), (0x6E, [Ascii.newline]), (0x72, [Ascii.carriageReturn]), (0x74, [0x09]),
    (0x5A, [Ascii.substitute]), (Ascii.backslash, [Ascii.backslash]),
    (0x25, [Ascii.backslash, 0x25]), (Ascii.underscore, [Ascii.backslash, Ascii.underscore])]

theorem escapeMeaning?_eq_some_iff {code : UInt8} {meaning : Bytes} :
    escapeMeaning? code = some meaning ↔ (code, meaning) ∈ escapeTable := by
  have hcodes : ∀ code, ∀ meaning ∈ escapeMeaning? code, (code, meaning) ∈ escapeTable :=
    Bytes.forall_octet (by decide +kernel)
  have hentries : ∀ entry ∈ escapeTable, escapeMeaning? entry.1 = some entry.2 := by decide
  exact ⟨hcodes code meaning, hentries (code, meaning)⟩

theorem escapeMeaning?_eq_none_iff {code : UInt8} :
    escapeMeaning? code = none ↔ code ∉ escapeTable.map Prod.fst := by
  simp only [Option.eq_none_iff_forall_ne_some, ne_eq, escapeMeaning?_eq_some_iff, List.mem_map,
    Prod.exists, exists_and_right, exists_eq_right, not_exists]

inductive Token where
  | plain (b : UInt8) (hquote : b ≠ Ascii.quote) (hbackslash : b ≠ Ascii.backslash)
  | doubled
  | escaped (code : UInt8) (meaning : Bytes) (hmeaning : (code, meaning) ∈ escapeTable)

def Token.text : Token → Bytes
  | .plain b _ _ => [b]
  | .doubled => [Ascii.quote, Ascii.quote]
  | .escaped code _ _ => [Ascii.backslash, code]

def Token.meaning : Token → Bytes
  | .plain b _ _ => [b]
  | .doubled => [Ascii.quote]
  | .escaped _ meaning _ => meaning

theorem unescapeFrom_token_append (token : Token) (offset : Nat) (rest : Bytes) :
    unescapeFrom offset (token.text ++ rest) =
      (token.meaning ++ ·) <$> unescapeFrom (offset + token.text.length) rest := by
  cases token with
  | plain b hquote hbackslash => exact unescapeFrom_cons_plain hquote hbackslash offset rest
  | doubled => rfl
  | escaped code meaning hmeaning =>
    have hbackslash := unescapeFrom_backslash offset code rest
    rw [escapeMeaning?_eq_some_iff.mpr hmeaning] at hbackslash
    exact hbackslash

theorem unescapeFrom_tokens_append (tokens : List Token) (offset : Nat) (rest : Bytes) :
    unescapeFrom offset (tokens.flatMap Token.text ++ rest) =
      (tokens.flatMap Token.meaning ++ ·) <$>
        unescapeFrom (offset + (tokens.flatMap Token.text).length) rest := by
  induction tokens generalizing offset with
  | nil => exact (id_map _).symm
  | cons token tokens ih =>
    rw [List.flatMap_cons, List.append_assoc, unescapeFrom_token_append, ih, List.length_append,
      ← Nat.add_assoc, List.flatMap_cons, ← comp_map]
    exact congrArg (· <$> _) (funext fun value => (List.append_assoc ..).symm)

/-! ### Where no token begins -/

/-- The fault of a text in which no token begins; the text stands at `offset`. -/
inductive FaultAt (offset : Nat) : Bytes → Fault → Prop
  | unescapedQuote {rest : Bytes} (hnext : rest.head? ≠ some Ascii.quote) :
      FaultAt offset (Ascii.quote :: rest) (.unescapedQuote offset)
  | truncatedEscape : FaultAt offset [Ascii.backslash] (.truncatedEscape offset)
  | unknownEscape {code : UInt8} {rest : Bytes} (hcode : code ∉ escapeTable.map Prod.fst) :
      FaultAt offset (Ascii.backslash :: code :: rest) (.unknownEscape code offset)

theorem FaultAt.unescapeFrom {offset : Nat} {rest : Bytes} {fault : Fault}
    (h : FaultAt offset rest fault) : unescapeFrom offset rest = .error fault := by
  cases h with
  | @unescapedQuote rest hnext =>
    rw [unescapeFrom.eq_def]
    cases rest with
    | nil => rfl
    | cons c rest =>
      have hc : c ≠ Ascii.quote := fun heq => hnext (congrArg some heq)
      simp [hc]
  | truncatedEscape => rfl
  | unknownEscape hcode =>
    rw [unescapeFrom_backslash, escapeMeaning?_eq_none_iff.mpr hcode]

/-- A shorter text does not help. -/
theorem FaultAt.exists_of_prefix {offset : Nat} {rest part : Bytes} {fault : Fault}
    (h : FaultAt offset rest fault) (hpart : part <+: rest) (hne : part ≠ []) :
    ∃ fault', FaultAt offset part fault' := by
  obtain ⟨b, part, rfl⟩ := List.exists_cons_of_ne_nil hne
  cases h with
  | @unescapedQuote rest hnext =>
    obtain ⟨rfl, more, rfl⟩ := List.cons_prefix_cons.mp hpart
    refine ⟨_, .unescapedQuote fun hhead => hnext ?_⟩
    rw [List.head?_append, hhead]
    rfl
  | truncatedEscape =>
    obtain ⟨rfl, htail⟩ := List.cons_prefix_cons.mp hpart
    rw [List.prefix_nil.mp htail]
    exact ⟨_, .truncatedEscape⟩
  | @unknownEscape code rest hcode =>
    obtain ⟨rfl, htail⟩ := List.cons_prefix_cons.mp hpart
    cases part with
    | nil => exact ⟨_, .truncatedEscape⟩
    | cons c part =>
      obtain ⟨rfl, -⟩ := List.cons_prefix_cons.mp htail
      exact ⟨_, .unknownEscape hcode⟩

/-- A body is tokens up to its end, or up to a place where no token begins. -/
def HasTokens (body : Bytes) : Prop :=
  ∃ (tokens : List Token) (rest : Bytes), body = tokens.flatMap Token.text ++ rest ∧
    (rest = [] ∨ ∀ offset, ∃ fault, FaultAt offset rest fault)

theorem HasTokens.cons {body : Bytes} (token : Token) (h : HasTokens body) :
    HasTokens (token.text ++ body) := by
  obtain ⟨tokens, rest, rfl, hrest⟩ := h
  exact ⟨token :: tokens, rest, by rw [List.flatMap_cons, List.append_assoc], hrest⟩

theorem hasTokens_of_faultAt {body : Bytes} (h : ∀ offset, ∃ fault, FaultAt offset body fault) :
    HasTokens body :=
  ⟨[], body, rfl, .inr h⟩

theorem hasTokens (body : Bytes) : HasTokens body := by
  -- the cases of the reader: one for each kind of token, the others are where it fails
  fun_induction unescapeFrom 0 body with
  | case1 => exact ⟨[], [], rfl, .inl rfl⟩
  | case2 => exact hasTokens_of_faultAt fun _ => ⟨_, .unescapedQuote (by simp)⟩
  | case3 offset rest ih => exact ih.cons .doubled
  | case4 offset c rest hc =>
    exact hasTokens_of_faultAt fun _ => ⟨_, .unescapedQuote (by simpa using hc)⟩
  | case5 => exact hasTokens_of_faultAt fun _ => ⟨_, .truncatedEscape⟩
  | case6 offset code rest meaning hmeaning _ ih =>
    exact ih.cons (.escaped code meaning (escapeMeaning?_eq_some_iff.mp hmeaning))
  | case7 offset code rest hmeaning =>
    exact hasTokens_of_faultAt fun _ =>
      ⟨_, .unknownEscape (escapeMeaning?_eq_none_iff.mp hmeaning)⟩
  | case8 offset b rest hquote hbackslash ih => exact ih.cons (.plain b hquote hbackslash)

/-! ### Bodies that are read, and bodies that are not -/

theorem unescapeFrom_tokens (tokens : List Token) (offset : Nat) :
    unescapeFrom offset (tokens.flatMap Token.text) = .ok (tokens.flatMap Token.meaning) := by
  have happend := unescapeFrom_tokens_append tokens offset []
  rw [List.append_nil] at happend
  rw [happend, unescapeFrom]
  exact congrArg Except.ok (List.append_nil _)

theorem unescapeFrom_tokens_fault {tokens : List Token} {offset : Nat} {rest : Bytes}
    {fault : Fault} (h : FaultAt (offset + (tokens.flatMap Token.text).length) rest fault) :
    unescapeFrom offset (tokens.flatMap Token.text ++ rest) = .error fault := by
  rw [unescapeFrom_tokens_append, h.unescapeFrom]
  rfl

theorem unescape_tokens_fault {tokens : List Token} {rest : Bytes} {fault : Fault}
    (h : FaultAt (tokens.flatMap Token.text).length rest fault) :
    unescape (tokens.flatMap Token.text ++ rest) = .error fault :=
  unescapeFrom_tokens_fault (by rwa [Nat.zero_add])

theorem unescapeFrom_eq_ok_iff {offset : Nat} {body value : Bytes} :
    unescapeFrom offset body = .ok value ↔
      ∃ tokens : List Token, body = tokens.flatMap Token.text ∧
        value = tokens.flatMap Token.meaning := by
  constructor
  · intro h
    obtain ⟨tokens, rest, rfl, rfl | hfault⟩ := hasTokens body
    · rw [List.append_nil, unescapeFrom_tokens] at h
      exact ⟨tokens, List.append_nil _, (Except.ok.inj h).symm⟩
    · obtain ⟨fault, hfault⟩ := hfault (offset + (tokens.flatMap Token.text).length)
      rw [unescapeFrom_tokens_fault hfault] at h
      cases h
  · rintro ⟨tokens, rfl, rfl⟩
    exact unescapeFrom_tokens tokens offset

/-- A body is read up to `offset` and no further. -/
structure StopsAt (body : Bytes) (offset : Nat) (fault : Fault) : Prop where
  le_length : offset ≤ body.length
  read : ∃ value, unescape (body.take offset) = .ok value
  longest : ∀ length ≤ body.length, ∀ value,
    unescape (body.take length) = .ok value → length ≤ offset
  fault : FaultAt offset (body.drop offset) fault

/-- The octets behind a place where the reader stops do not let it go on. -/
theorem length_le_of_faultAt {tokens : List Token} {rest part value : Bytes} {fault : Fault}
    (hfault : FaultAt (tokens.flatMap Token.text).length rest fault)
    (hpart : part <+: tokens.flatMap Token.text ++ rest) (hread : unescape part = .ok value) :
    part.length ≤ (tokens.flatMap Token.text).length := by
  apply Nat.le_of_not_lt
  intro hlonger
  obtain ⟨more, rfl⟩ : tokens.flatMap Token.text <+: part :=
    List.prefix_of_prefix_length_le (List.prefix_append _ _) hpart (by omega)
  have hmore : more ≠ [] := by
    rintro rfl
    simp at hlonger
  obtain ⟨fault', hfault'⟩ :=
    hfault.exists_of_prefix ((List.prefix_append_right_inj _).mp hpart) hmore
  rw [unescape_tokens_fault hfault'] at hread
  cases hread

theorem unescape_eq_error_iff {body : Bytes} {fault : Fault} :
    unescape body = .error fault ↔ ∃ offset, StopsAt body offset fault := by
  constructor
  · intro h
    obtain ⟨tokens, rest, rfl, rfl | hfaults⟩ := hasTokens body
    · rw [List.append_nil, unescape, unescapeFrom_tokens] at h
      cases h
    · obtain ⟨found, hfault⟩ := hfaults (tokens.flatMap Token.text).length
      rw [unescape_tokens_fault hfault] at h
      cases h
      refine ⟨(tokens.flatMap Token.text).length, ?_, ?_, ?_, ?_⟩
      · rw [List.length_append]
        exact Nat.le_add_right ..
      · rw [List.take_left]
        exact ⟨_, unescapeFrom_tokens tokens 0⟩
      · intro length hlength value hread
        have hle := length_le_of_faultAt hfault (List.take_prefix length _) hread
        rwa [List.length_take, Nat.min_eq_left hlength] at hle
      · rw [List.drop_left]
        exact hfault
  · rintro ⟨offset, hstops⟩
    obtain ⟨value, hread⟩ := hstops.read
    obtain ⟨tokens, htokens, -⟩ := unescapeFrom_eq_ok_iff.mp hread
    have hlength : (tokens.flatMap Token.text).length = offset := by
      rw [← htokens, List.length_take, Nat.min_eq_left hstops.le_length]
    rw [← List.take_append_drop offset body, htokens]
    exact unescape_tokens_fault (hlength ▸ hstops.fault)

/-! ### Bodies in two parts -/

/-- The fault, if the text that it is in stands `length` octets further on. -/
def Fault.shift (length : Nat) : Fault → Fault
  | .truncatedEscape offset => .truncatedEscape (length + offset)
  | .unknownEscape code offset => .unknownEscape code (length + offset)
  | .unescapedQuote offset => .unescapedQuote (length + offset)
  | fault => fault

theorem FaultAt.shift {offset : Nat} {rest : Bytes} {fault : Fault} (h : FaultAt offset rest fault)
    (length : Nat) : FaultAt (length + offset) rest (fault.shift length) := by
  cases h with
  | unescapedQuote hnext => exact .unescapedQuote hnext
  | truncatedEscape => exact .truncatedEscape
  | unknownEscape hcode => exact .unknownEscape hcode

theorem unescapeFrom_eq_mapError (length : Nat) (body : Bytes) :
    unescapeFrom length body = (unescape body).mapError (Fault.shift length) := by
  obtain ⟨tokens, rest, rfl, rfl | hfaults⟩ := hasTokens body
  · rw [List.append_nil, unescape, unescapeFrom_tokens, unescapeFrom_tokens]
    rfl
  · obtain ⟨fault, hfault⟩ := hfaults (0 + (tokens.flatMap Token.text).length)
    have hshifted := hfault.shift length
    rw [Nat.zero_add] at hshifted
    rw [unescape, unescapeFrom_tokens_fault hfault, unescapeFrom_tokens_fault hshifted]
    rfl

theorem unescape_append {left value : Bytes} (h : unescape left = .ok value) (right : Bytes) :
    unescape (left ++ right) =
      (value ++ ·) <$> (unescape right).mapError (Fault.shift left.length) := by
  obtain ⟨tokens, rfl, rfl⟩ := unescapeFrom_eq_ok_iff.mp h
  rw [unescape, unescapeFrom_tokens_append, Nat.zero_add, unescapeFrom_eq_mapError]

end DumpMask.Literal
