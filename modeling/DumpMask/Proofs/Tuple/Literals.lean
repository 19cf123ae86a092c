import DumpMask.Proofs.Trimming
import DumpMask.Tuple

/-!
# Where a literal of a tuple ends

A scan finds the end of a literal without judging it. The texts that it cuts out are strings, which
end at their closing quote, and bare texts, which hold neither a comma nor a closing parenthesis.
Main statement: what is cut out depends on the literal alone, and not on what follows the comma or
the parenthesis behind it.
-/

namespace DumpMask.Tuple

/-! ### Strings -/

/-- The text between the quotes of a string: every quote in it is escaped or doubled. -/
inductive StringBody : Bytes → Prop
  | nil : StringBody []
  | escaped (b : UInt8) {rest : Bytes} : StringBody rest → StringBody (Ascii.backslash :: b :: rest)
  | doubled {rest : Bytes} : StringBody rest → StringBody (Ascii.quote :: Ascii.quote :: rest)
  | plain {b : UInt8} {rest : Bytes} (hbackslash : b ≠ Ascii.backslash) (hquote : b ≠ Ascii.quote) :
      StringBody rest → StringBody (b :: rest)

theorem StringBody.append {left right : Bytes} (hleft : StringBody left)
    (hright : StringBody right) : StringBody (left ++ right) := by
  induction hleft with
  | nil => exact hright
  | escaped b _ ih => exact .escaped b ih
  | doubled _ ih => exact .doubled ih
  | plain hbackslash hquote _ ih => exact .plain hbackslash hquote ih

theorem closeString_of_stringBody {inner after : Bytes} (hinner : StringBody inner)
    (hafter : after.head? ≠ some Ascii.quote) :
    closeString (inner ++ Ascii.quote :: after) = some (inner ++ [Ascii.quote], after) := by
  induction hinner with
  | nil =>
    rw [List.nil_append, closeString.eq_def]
    cases after with
    | nil => rfl
    | cons c rest =>
      have hc : c ≠ Ascii.quote := fun heq => hafter (congrArg some heq)
      have hq : Ascii.quote ≠ Ascii.backslash := by decide
      simp [hc, hq]
  | escaped b _ ih =>
    rw [List.cons_append, List.cons_append, closeString.eq_def]
    simp [ih]
  | doubled _ ih =>
    rw [List.cons_append, List.cons_append, closeString.eq_def]
    simp [ih]
  | plain hbackslash hquote _ ih =>
    rw [List.cons_append, closeString.eq_def]
    simp [hbackslash, hquote, ih]

theorem stringBody_of_closeString {text body after : Bytes}
    (h : closeString text = some (body, after)) :
    ∃ inner, StringBody inner ∧ body = inner ++ [Ascii.quote] ∧
      after.head? ≠ some Ascii.quote := by
  fun_induction closeString text generalizing body after with
  | case1 => cases h
  | case2 => cases h
  | case3 c rest ih =>
    obtain ⟨⟨body', after'⟩, hclose, heq⟩ := Option.map_eq_some_iff.mp h
    obtain ⟨inner, hinner, rfl, hafter⟩ := ih hclose
    cases heq
    exact ⟨Ascii.backslash :: c :: inner, .escaped c hinner, rfl, hafter⟩
  | case4 =>
    cases h
    exact ⟨[], .nil, rfl, by simp⟩
  | case5 rest _ ih =>
    obtain ⟨⟨body', after'⟩, hclose, heq⟩ := Option.map_eq_some_iff.mp h
    obtain ⟨inner, hinner, rfl, hafter⟩ := ih hclose
    cases heq
    exact ⟨Ascii.quote :: Ascii.quote :: inner, .doubled hinner, rfl, hafter⟩
  | case6 c rest hc =>
    cases h
    exact ⟨[], .nil, rfl, by simpa using hc⟩
  | case7 b rest hbackslash hquote ih =>
    obtain ⟨⟨body', after'⟩, hclose, heq⟩ := Option.map_eq_some_iff.mp h
    obtain ⟨inner, hinner, rfl, hafter⟩ := ih hclose
    cases heq
    exact ⟨b :: inner, .plain hbackslash hquote hinner, rfl, hafter⟩

/-! ### How a string begins -/

/-- What may stand before the opening quote of a string. -/
def IsIntroducer (before : Bytes) : Prop :=
  before = [] ∨ ∃ blanks, Bytes.AllBlank blanks ∧ before = Literal.binaryIntroducer ++ blanks

def StartsString (text : Bytes) : Prop :=
  ∃ before rest, IsIntroducer before ∧ text = before ++ Ascii.quote :: rest

theorem StartsString.append {text : Bytes} (h : StartsString text) (more : Bytes) :
    StartsString (text ++ more) := by
  obtain ⟨before, rest, hbefore, rfl⟩ := h
  exact ⟨before, rest ++ more, hbefore, by simp⟩

theorem eq_comma_or_closeParen {b : UInt8} (h : endsBareLiteral b = true) :
    b = Ascii.comma ∨ b = Ascii.closeParen := by
  simpa [endsBareLiteral] using h

theorem endsBareLiteral_of_isBlank {b : UInt8} (h : Ascii.isBlank b = true) :
    endsBareLiteral b = false := by
  cases hends : endsBareLiteral b with
  | false => rfl
  | true =>
    rcases eq_comma_or_closeParen hends with rfl | rfl <;> exact absurd h (by decide)

theorem IsIntroducer.not_endsBareLiteral {before : Bytes} (h : IsIntroducer before) :
    ∀ b ∈ before, endsBareLiteral b = false := by
  intro b hb
  rcases h with rfl | ⟨blanks, hblanks, rfl⟩
  · cases hb
  · rcases List.mem_append.mp hb with hb | hb
    · have hall : Literal.binaryIntroducer.all (!endsBareLiteral ·) = true := by decide
      simpa using List.all_eq_true.mp hall b hb
    · exact endsBareLiteral_of_isBlank (hblanks b hb)

theorem stringStart?_eq_some_iff {text before string : Bytes} :
    stringStart? text = some (before, string) ↔
      IsIntroducer before ∧ string.head? = some Ascii.quote ∧ text = before ++ string := by
  constructor
  · intro h
    obtain ⟨htext, hhead⟩ := stringStart?_append h
    refine ⟨?_, hhead, htext.symm⟩
    unfold stringStart? at h
    split at h
    · cases h
      exact Or.inl rfl
    · split at h
      · cases h
      · next rest hrest =>
        dsimp only at h
        split at h
        · cases h
          exact Or.inr ⟨_, Bytes.allBlank_takeWhile rest, rfl⟩
        · cases h
  · rintro ⟨rfl | ⟨blanks, hblanks, rfl⟩, hhead, rfl⟩
    · simp [stringStart?, hhead]
    · cases string with
      | nil => cases hhead
      | cons q rest =>
        obtain rfl : q = Ascii.quote := Option.some.inj hhead
        have hq : Bytes.NoLeadingBlank (Ascii.quote :: rest) :=
          Bytes.noLeadingBlank_cons_iff.mpr (by decide)
        have hstrip : Bytes.stripStart? Literal.binaryIntroducer
            (Literal.binaryIntroducer ++ blanks ++ Ascii.quote :: rest) =
              some (blanks ++ Ascii.quote :: rest) :=
          Bytes.stripStart?_eq_some_iff.mpr (by simp)
        have hfirst : (Literal.binaryIntroducer ++ blanks ++ Ascii.quote :: rest).head? ≠
            some Ascii.quote := by
          rw [List.append_assoc]
          have hhead : ∀ more : Bytes, (Literal.binaryIntroducer ++ more).head? =
              some Ascii.underscore := fun _ => rfl
          rw [hhead]
          decide
        rw [stringStart?, if_neg hfirst, hstrip]
        simp only [Bytes.takeWhile_append hblanks hq, Bytes.dropWhile_append hblanks hq]
        rfl

theorem stringStart?_eq_none_iff {text : Bytes} :
    stringStart? text = none ↔ ¬ StartsString text := by
  constructor
  · rintro hnone ⟨before, rest, hbefore, htext⟩
    have hsome := stringStart?_eq_some_iff.mpr ⟨hbefore, List.head?_cons, htext⟩
    rw [hnone] at hsome
    cases hsome
  · intro hstarts
    cases hstart : stringStart? text with
    | none => rfl
    | some start =>
      obtain ⟨before, string⟩ := start
      obtain ⟨hbefore, hhead, htext⟩ := stringStart?_eq_some_iff.mp hstart
      cases string with
      | nil => cases hhead
      | cons q rest =>
        cases hhead
        exact absurd ⟨before, rest, hbefore, htext⟩ hstarts

/-! ### Literals as a scan sees them -/

/-- A complete string, with its introducer if it has one. -/
def IsString (text : Bytes) : Prop :=
  ∃ before inner, IsIntroducer before ∧ StringBody inner ∧
    text = before ++ Ascii.quote :: (inner ++ [Ascii.quote])

def IsBareText (text : Bytes) : Prop :=
  ¬ StartsString text ∧ ∀ b ∈ text, endsBareLiteral b = false

def IsToken (text : Bytes) : Prop := IsString text ∨ IsBareText text

theorem IsString.noTrailingBlank {text : Bytes} (h : IsString text) :
    Bytes.NoTrailingBlank text := by
  obtain ⟨before, inner, _, _, rfl⟩ := h
  have hconcat : before ++ Ascii.quote :: (inner ++ [Ascii.quote]) =
      (before ++ Ascii.quote :: inner) ++ [Ascii.quote] := by simp
  rw [hconcat]
  exact Bytes.noTrailingBlank_concat_iff.mpr (by decide)

section Delimited

variable {literal gap rest : Bytes} {d : UInt8}

/-- A quote comes only after the delimiter. -/
theorem delimiter_mem_of_quote {mid string : Bytes} (hgap : Bytes.AllBlank gap)
    (hd : endsBareLiteral d = true) (h : gap ++ d :: rest = mid ++ Ascii.quote :: string) :
    d ∈ mid := by
  have hquote : Ascii.isBlank Ascii.quote = false := by decide
  have hne : Ascii.quote ≠ d := by
    rintro rfl
    exact absurd hd (by decide)
  rcases List.append_eq_append_iff.mp h with ⟨more, hmid, heq⟩ | ⟨more, hmid, heq⟩
  · cases more with
    | nil => exact absurd (List.head_eq_of_cons_eq heq).symm hne
    | cons c more =>
      rw [hmid, List.head_eq_of_cons_eq heq]
      exact List.mem_append_right gap (List.mem_cons_self ..)
  · cases more with
    | nil => exact absurd (List.head_eq_of_cons_eq heq) hne
    | cons c more =>
      have hblank := hgap c (by rw [hmid]; exact List.mem_append_right mid (List.mem_cons_self ..))
      rw [← List.head_eq_of_cons_eq heq, hquote] at hblank
      cases hblank

theorem head?_ne_quote (hgap : Bytes.AllBlank gap) (hd : endsBareLiteral d = true) :
    (gap ++ d :: rest).head? ≠ some Ascii.quote := by
  intro hhead
  obtain ⟨string, hstring⟩ := List.head?_eq_some_iff.mp hhead
  rw [← List.nil_append (Ascii.quote :: string)] at hstring
  cases delimiter_mem_of_quote hgap hd hstring

/-- The gap and the delimiter behind a literal do not make a string of it. -/
theorem startsString_append_iff (hgap : Bytes.AllBlank gap) (hd : endsBareLiteral d = true) :
    StartsString (literal ++ (gap ++ d :: rest)) ↔ StartsString literal := by
  constructor
  · rintro ⟨before, string, hbefore, heq⟩
    rcases List.append_eq_append_iff.mp heq with ⟨mid, hmid, hrest⟩ | ⟨mid, hmid, hrest⟩
    · have hmem : d ∈ before := by
        rw [hmid]
        exact List.mem_append_right literal (delimiter_mem_of_quote hgap hd hrest)
      rw [hbefore.not_endsBareLiteral d hmem] at hd
      cases hd
    · cases mid with
      | nil => exact absurd (congrArg List.head? hrest).symm (head?_ne_quote hgap hd)
      | cons c mid =>
        obtain rfl := List.head_eq_of_cons_eq hrest
        exact ⟨before, mid, hbefore, hmid⟩
  · intro h
    exact h.append _

theorem scanLiteral_of_isToken (htoken : IsToken literal) (hgap : Bytes.AllBlank gap)
    (hd : endsBareLiteral d = true) :
    ∃ blanks after, scanLiteral (literal ++ (gap ++ d :: rest)) = .ok (literal ++ blanks, after) ∧
      Bytes.AllBlank blanks ∧ blanks ++ after = gap ++ d :: rest := by
  rcases htoken with ⟨before, inner, hbefore, hinner, rfl⟩ | ⟨hstarts, hplain⟩
  · refine ⟨[], gap ++ d :: rest, ?_, Bytes.allBlank_nil, rfl⟩
    have hstart : stringStart? (before ++ Ascii.quote :: (inner ++ [Ascii.quote]) ++
        (gap ++ d :: rest)) =
          some (before, Ascii.quote :: (inner ++ Ascii.quote :: (gap ++ d :: rest))) :=
      stringStart?_eq_some_iff.mpr ⟨hbefore, List.head?_cons, by simp⟩
    rw [scanLiteral, hstart]
    dsimp only
    rw [List.tail_cons, closeString_of_stringBody hinner (head?_ne_quote hgap hd)]
    simp
  · refine ⟨gap, d :: rest, ?_, hgap, rfl⟩
    have hstart : stringStart? (literal ++ (gap ++ d :: rest)) = none :=
      stringStart?_eq_none_iff.mpr (mt (startsString_append_iff hgap hd).mp hstarts)
    have hbare : ∀ b ∈ literal ++ gap, (!endsBareLiteral b) = true := by
      intro b hb
      rcases List.mem_append.mp hb with hb | hb
      · simp [hplain b hb]
      · simp [endsBareLiteral_of_isBlank (hgap b hb)]
    rw [scanLiteral, hstart]
    dsimp only
    rw [← List.append_assoc, List.takeWhile_append_of_pos hbare, List.dropWhile_append_of_pos hbare]
    simp [hd]

end Delimited

theorem isToken_of_scanLiteral {text literal blanks after : Bytes}
    (h : scanLiteral text = .ok (literal ++ blanks, after))
    (hliteral : Bytes.NoTrailingBlank literal) (hblanks : Bytes.AllBlank blanks) :
    IsToken literal := by
  have htext := scanLiteral_append h
  unfold scanLiteral at h
  split at h
  · next before string hstart =>
    obtain ⟨hbefore, hhead, -⟩ := stringStart?_eq_some_iff.mp hstart
    split at h
    · next body rest hclose =>
      obtain ⟨inner, hinner, rfl, -⟩ := stringBody_of_closeString hclose
      simp only [Except.ok.injEq, Prod.mk.injEq] at h
      have hstring : IsString (literal ++ blanks) := ⟨before, inner, hbefore, hinner, h.1.symm⟩
      have hsplit := Bytes.splitTrailing_append_of_noTrailingBlank hliteral hblanks
      have hwhole := Bytes.splitTrailing_append_of_noTrailingBlank hstring.noTrailingBlank
        Bytes.allBlank_nil
      rw [List.append_nil, hsplit] at hwhole
      have hself : literal = literal ++ blanks := congrArg Prod.fst hwhole
      rw [← hself] at hstring
      exact Or.inl hstring
    · cases h
  · next hstart =>
    simp only [Except.ok.injEq, Prod.mk.injEq] at h
    refine Or.inr ⟨?_, ?_⟩
    · intro hstarts
      rw [stringStart?_eq_none_iff, ← htext, List.append_assoc] at hstart
      exact hstart (hstarts.append _)
    · intro b hb
      have hall : (literal ++ blanks).all (!endsBareLiteral ·) = true := by
        rw [← h.1]
        exact List.all_takeWhile
      simpa using List.all_eq_true.mp hall b (List.mem_append_left blanks hb)

end DumpMask.Tuple
