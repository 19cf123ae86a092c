import DumpMask.Proofs.Results
import DumpMask.Proofs.Tuple.Literals

/-!
# The shape of a tuple

A scan accepts a text exactly when it begins with a tuple: an opening parenthesis, literals with a
comma between any two of them, a closing parenthesis, and blanks anywhere around the literals. The
layout that a scan gives is determined by the text of the tuple, so a tuple is cut the same way
wherever it stands.
-/

namespace DumpMask.Tuple

/-- A literal and the blanks between it and the delimiter behind it. Blanks around an empty literal
count as blanks in front of it. -/
structure IsCell (literal gap : Bytes) : Prop where
  token : IsToken literal
  trimmed : Bytes.IsTrimmed literal
  blank : Bytes.AllBlank gap
  tight : literal = [] → gap = []

/-- The literals of a tuple up to its closing parenthesis. The text in front of the first is
`lead`. -/
inductive HasLiterals : Bytes → Layout → Prop
  | last {lead literal gap : Bytes} (hcell : IsCell literal gap) :
      HasLiterals lead ⟨[⟨lead, literal⟩], gap ++ [Ascii.closeParen]⟩
  | more {lead literal gap gap' : Bytes} {layout : Layout} (hcell : IsCell literal gap)
      (hblank : Bytes.AllBlank gap') (hrest : HasLiterals (gap ++ Ascii.comma :: gap') layout) :
      HasLiterals lead (layout.cons ⟨lead, literal⟩)

inductive IsTuple : Layout → Prop
  | empty {gap : Bytes} (hgap : Bytes.AllBlank gap) :
      IsTuple ⟨[], Ascii.openParen :: (gap ++ [Ascii.closeParen])⟩
  | literals {gap : Bytes} {layout : Layout} (hgap : Bytes.AllBlank gap)
      (hlits : HasLiterals (Ascii.openParen :: gap) layout) (hne : layout.contents ≠ [[]]) :
      IsTuple layout

theorem not_isBlank_of_endsBareLiteral {d : UInt8} (hd : endsBareLiteral d = true) :
    Ascii.isBlank d = false := by
  cases hblank : Ascii.isBlank d with
  | false => rfl
  | true =>
    rw [endsBareLiteral_of_isBlank hblank] at hd
    cases hd

/-! ### One literal -/

section Cell

variable {literal gap text : Bytes} {d : UInt8}

theorem IsCell.noLeadingBlank (hcell : IsCell literal gap) (hd : endsBareLiteral d = true)
    (rest : Bytes) : Bytes.NoLeadingBlank (literal ++ (gap ++ d :: rest)) := by
  by_cases hempty : literal = []
  · rw [hcell.tight hempty, hempty]
    exact Bytes.noLeadingBlank_cons_iff.mpr (not_isBlank_of_endsBareLiteral hd)
  · exact hcell.trimmed.leading.append_of_ne_nil hempty _

theorem IsCell.scan (hcell : IsCell literal gap) (hd : endsBareLiteral d = true) (rest : Bytes) :
    ∃ raw after, scanLiteral (literal ++ (gap ++ d :: rest)) = .ok (raw, after) ∧
      (Bytes.splitTrailing raw).1 = literal ∧
      after.dropWhile Ascii.isBlank = d :: rest ∧
      (Bytes.splitTrailing raw).2 ++ after.takeWhile Ascii.isBlank = gap := by
  obtain ⟨blanks, after, hscan, hblanks, heq⟩ := scanLiteral_of_isToken hcell.token hcell.blank hd
  have hdelim : Bytes.NoLeadingBlank (d :: rest) :=
    Bytes.noLeadingBlank_cons_iff.mpr (not_isBlank_of_endsBareLiteral hd)
  have hsplit := Bytes.splitTrailing_append_of_noTrailingBlank hcell.trimmed.trailing hblanks
  refine ⟨literal ++ blanks, after, hscan, by rw [hsplit], ?_, ?_⟩
  · rw [← List.dropWhile_append_of_pos hblanks, heq, Bytes.dropWhile_append hcell.blank hdelim]
  · rw [hsplit, ← List.takeWhile_append_of_pos hblanks, heq,
      Bytes.takeWhile_append hcell.blank hdelim]

theorem isCell_of_scanLiteral {raw after rest : Bytes} (hscan : scanLiteral text = .ok (raw, after))
    (htext : Bytes.NoLeadingBlank text) (hrest : after.dropWhile Ascii.isBlank = d :: rest) :
    IsCell (Bytes.splitTrailing raw).1
        ((Bytes.splitTrailing raw).2 ++ after.takeWhile Ascii.isBlank) ∧
      text = (Bytes.splitTrailing raw).1 ++
        ((Bytes.splitTrailing raw).2 ++ after.takeWhile Ascii.isBlank ++ d :: rest) := by
  have hraw := Bytes.splitTrailing_append raw
  have hafter := List.takeWhile_append_dropWhile (p := Ascii.isBlank) (l := after)
  have hlast := Bytes.noTrailingBlank_splitTrailing raw
  have hblanks := Bytes.allBlank_splitTrailing raw
  generalize (Bytes.splitTrailing raw).1 = literal at *
  generalize (Bytes.splitTrailing raw).2 = blanks at *
  have hgap : Bytes.AllBlank (blanks ++ after.takeWhile Ascii.isBlank) :=
    Bytes.allBlank_append_iff.mpr ⟨hblanks, Bytes.allBlank_takeWhile after⟩
  have hwhole : text = literal ++ (blanks ++ after.takeWhile Ascii.isBlank ++ d :: rest) := by
    rw [← scanLiteral_append hscan, ← hraw, ← hrest, List.append_assoc, List.append_assoc, hafter]
  rw [← hraw] at hscan
  refine ⟨⟨isToken_of_scanLiteral hscan hlast hblanks, ⟨?_, hlast⟩, hgap, ?_⟩, hwhole⟩
  · intro b hb
    apply htext
    rw [hwhole]
    simp [Option.mem_def.mp hb]
  · intro hempty
    rw [hempty, List.nil_append] at hwhole
    cases hmid : blanks ++ after.takeWhile Ascii.isBlank with
    | nil => rfl
    | cons c more =>
      rw [hmid] at hwhole hgap
      have hc := htext c (by rw [hwhole]; rfl)
      rw [hgap c (List.mem_cons_self ..)] at hc
      cases hc

end Cell

/-! ### The literals of a tuple -/

theorem scanLiterals_of_scanLiteral {text raw after rest : Bytes} {d : UInt8}
    (hscan : scanLiteral text = .ok (raw, after))
    (hdrop : after.dropWhile Ascii.isBlank = d :: rest) (lead : Bytes) :
    scanLiterals lead text =
      let literal := (Bytes.splitTrailing raw).1
      let gap := (Bytes.splitTrailing raw).2 ++ after.takeWhile Ascii.isBlank
      if d = Ascii.comma then
        (fun (layout, rest) => (layout.cons ⟨lead, literal⟩, rest)) <$>
          scanLiterals (gap ++ d :: rest.takeWhile Ascii.isBlank) (rest.dropWhile Ascii.isBlank)
      else if d = Ascii.closeParen then .ok (⟨[⟨lead, literal⟩], gap ++ [d]⟩, rest)
      else .error ⟨.missingDelimiter, rest.length + 1⟩ := by
  rw [scanLiterals]
  split
  · next stop heq =>
    rw [hscan] at heq
    cases heq
  · next raw' after' heq =>
    obtain ⟨rfl, rfl⟩ : raw = raw' ∧ after = after' := by
      rw [hscan] at heq
      simpa using heq
    dsimp only
    split
    · next hnil =>
      rw [hdrop] at hnil
      cases hnil
    · next b rest' hcons =>
      obtain ⟨rfl, rfl⟩ : d = b ∧ rest = rest' := by
        rw [hdrop] at hcons
        simpa using hcons
      rfl

theorem scanLiterals_last {literal gap : Bytes} (hcell : IsCell literal gap) (lead rest : Bytes) :
    scanLiterals lead (literal ++ (gap ++ Ascii.closeParen :: rest)) =
      .ok (⟨[⟨lead, literal⟩], gap ++ [Ascii.closeParen]⟩, rest) := by
  have hd : endsBareLiteral Ascii.closeParen = true := by decide
  have hne : Ascii.closeParen ≠ Ascii.comma := by decide
  obtain ⟨raw, after, hscan, hliteral, hdrop, hgap⟩ := hcell.scan hd rest
  rw [scanLiterals_of_scanLiteral hscan hdrop]
  dsimp only
  rw [if_neg hne, if_pos rfl, hliteral, hgap]

theorem scanLiterals_more {literal gap gap' text : Bytes} (hcell : IsCell literal gap)
    (hblank : Bytes.AllBlank gap') (htext : Bytes.NoLeadingBlank text) (lead : Bytes) :
    scanLiterals lead (literal ++ (gap ++ Ascii.comma :: (gap' ++ text))) =
      (fun (layout, rest) => (layout.cons ⟨lead, literal⟩, rest)) <$>
        scanLiterals (gap ++ Ascii.comma :: gap') text := by
  have hd : endsBareLiteral Ascii.comma = true := by decide
  obtain ⟨raw, after, hscan, hliteral, hdrop, hgap⟩ := hcell.scan hd (gap' ++ text)
  rw [scanLiterals_of_scanLiteral hscan hdrop]
  dsimp only
  rw [if_pos rfl, hliteral, hgap, Bytes.takeWhile_append hblank htext,
    Bytes.dropWhile_append hblank htext]

theorem HasLiterals.exists_text {lead : Bytes} {layout : Layout} (h : HasLiterals lead layout) :
    ∃ text, layout.text = lead ++ text ∧ text ≠ [] ∧ Bytes.NoLeadingBlank text := by
  have hd : endsBareLiteral Ascii.closeParen = true ∧ endsBareLiteral Ascii.comma = true := by
    decide
  induction h with
  | @last lead literal gap hcell =>
    refine ⟨literal ++ (gap ++ [Ascii.closeParen]), ?_, by simp, hcell.noLeadingBlank hd.1 []⟩
    simp [Layout.text, Layout.Slot.text]
  | @more lead literal gap gap' layout hcell hblank hrest ih =>
    obtain ⟨text, htext, -, -⟩ := ih
    refine ⟨literal ++ (gap ++ Ascii.comma :: (gap' ++ text)), ?_, by simp,
      hcell.noLeadingBlank hd.2 _⟩
    rw [Layout.text_cons, htext]
    simp

theorem scanLiterals_of_hasLiterals {lead text rest : Bytes} {layout : Layout}
    (h : HasLiterals lead layout) (htext : lead ++ text = layout.text ++ rest) :
    scanLiterals lead text = .ok (layout, rest) := by
  induction h generalizing text with
  | @last lead literal gap hcell =>
    obtain rfl : text = literal ++ (gap ++ Ascii.closeParen :: rest) := by
      apply (List.append_right_inj lead).mp
      rw [htext]
      simp [Layout.text, Layout.Slot.text]
    exact scanLiterals_last hcell lead rest
  | @more lead literal gap gap' layout hcell hblank hrest ih =>
    obtain ⟨inner, hinner, hne, hleading⟩ := hrest.exists_text
    obtain rfl : text = literal ++ (gap ++ Ascii.comma :: (gap' ++ (inner ++ rest))) := by
      apply (List.append_right_inj lead).mp
      rw [htext, Layout.text_cons, hinner]
      simp
    have hstep :
        scanLiterals (gap ++ Ascii.comma :: gap') (inner ++ rest) = .ok (layout, rest) := by
      apply ih
      rw [hinner]
      simp
    rw [scanLiterals_more hcell hblank (hleading.append_of_ne_nil hne rest), hstep]
    rfl

theorem hasLiterals_of_scanLiterals {lead text rest : Bytes} {layout : Layout}
    (h : scanLiterals lead text = .ok (layout, rest)) (htext : Bytes.NoLeadingBlank text) :
    HasLiterals lead layout := by
  fun_induction scanLiterals lead text generalizing layout rest with
  | case1 => cases h
  | case2 => cases h
  | case5 => cases h
  | case3 lead text raw after hscan literal blanks hsplit behind hbehind ih =>
    obtain ⟨hcell, -⟩ := isCell_of_scanLiteral hscan htext hbehind
    rw [hsplit] at hcell
    obtain ⟨⟨layout', rest'⟩, hrest, heq⟩ := map_eq_ok_iff.mp h
    cases heq
    exact .more hcell (Bytes.allBlank_takeWhile behind)
      (ih hrest (Bytes.noLeadingBlank_dropWhile behind))
  | case4 lead text raw after hscan literal blanks hsplit behind hbehind =>
    obtain ⟨hcell, -⟩ := isCell_of_scanLiteral hscan htext hbehind
    rw [hsplit] at hcell
    cases h
    exact .last hcell

/-! ### A whole tuple -/

theorem scan_openParen {gap text : Bytes} (hgap : Bytes.AllBlank gap)
    (htext : Bytes.NoLeadingBlank text) :
    scan (Ascii.openParen :: (gap ++ text)) =
      match text with
      | [] => scanLiterals (Ascii.openParen :: gap) []
      | c :: after =>
        if c = Ascii.closeParen then .ok (⟨[], Ascii.openParen :: gap ++ [c]⟩, after)
        else scanLiterals (Ascii.openParen :: gap) (c :: after) := by
  rw [scan, if_pos rfl]
  simp only [Bytes.takeWhile_append hgap htext, Bytes.dropWhile_append hgap htext]
  cases text <;> rfl

/-- Only an empty literal with nothing else makes a parenthesis close the tuple at once. -/
theorem HasLiterals.head?_ne_closeParen {lead text : Bytes} {layout : Layout}
    (h : HasLiterals lead layout) (htext : layout.text = lead ++ text)
    (hne : layout.contents ≠ [[]]) : text.head? ≠ some Ascii.closeParen := by
  have hliteral : ∀ {literal gap : Bytes} {d : UInt8} {rest : Bytes}, IsCell literal gap →
      (literal = [] → d = Ascii.comma) →
      (literal ++ (gap ++ d :: rest)).head? ≠ some Ascii.closeParen := by
    intro literal gap d rest hcell hcomma hhead
    cases literal with
    | nil =>
      rw [hcell.tight rfl, hcomma rfl] at hhead
      cases hhead
    | cons c more =>
      cases hhead
      rcases hcell.token with ⟨before, inner, hbefore, -, heq⟩ | ⟨-, hplain⟩
      · cases before with
        | nil => cases List.head_eq_of_cons_eq heq
        | cons c' before =>
          have hc := hbefore.not_endsBareLiteral c' (List.mem_cons_self ..)
          rw [← List.head_eq_of_cons_eq heq] at hc
          cases hc
      · cases hplain _ (List.mem_cons_self ..)
  cases h with
  | @last _ literal gap hcell =>
    obtain rfl : literal ++ (gap ++ [Ascii.closeParen]) = text := by
      apply (List.append_right_inj lead).mp
      rw [← htext]
      simp [Layout.text, Layout.Slot.text]
    refine hliteral hcell fun hempty => absurd ?_ hne
    rw [hempty]
    rfl
  | @more _ literal gap gap' layout hcell hblank hrest =>
    obtain ⟨inner, hinner, -, -⟩ := hrest.exists_text
    obtain rfl : literal ++ (gap ++ Ascii.comma :: (gap' ++ inner)) = text := by
      apply (List.append_right_inj lead).mp
      rw [← htext, Layout.text_cons, hinner]
      simp
    exact hliteral hcell fun _ => rfl

theorem HasLiterals.contents_ne_nil {lead : Bytes} {layout : Layout} (h : HasLiterals lead layout) :
    layout.contents ≠ [] := by
  cases h with
  | last hcell => simp [Layout.contents]
  | more hcell hblank hrest => simp [Layout.contents, Layout.cons]

theorem HasLiterals.text_of_contents {lead : Bytes} {layout : Layout} (h : HasLiterals lead layout)
    (hcontents : layout.contents = [[]]) : layout.text = lead ++ [Ascii.closeParen] := by
  cases h with
  | @last _ literal gap hcell =>
    obtain rfl : literal = [] := by simpa [Layout.contents] using hcontents
    simp [Layout.text, Layout.Slot.text, hcell.tight rfl]
  | @more _ literal gap gap' layout hcell hblank hrest =>
    have hnil : layout.contents = [] := by
      simp only [Layout.contents, Layout.cons, List.map_cons, List.cons.injEq] at hcontents
      exact hcontents.2
    exact absurd hnil hrest.contents_ne_nil

/-- A scan accepts exactly the texts that begin with a tuple. -/
theorem scan_eq_ok_iff {text rest : Bytes} {layout : Layout} :
    scan text = .ok (layout, rest) ↔ IsTuple layout ∧ layout.text ++ rest = text := by
  constructor
  · intro h
    refine ⟨?_, scan_append h⟩
    cases text with
    | nil => cases h
    | cons b behind =>
      by_cases hb : b = Ascii.openParen
      · subst hb
        have hgap := Bytes.allBlank_takeWhile behind
        have hleading := Bytes.noLeadingBlank_dropWhile behind
        have hbehind := List.takeWhile_append_dropWhile (p := Ascii.isBlank) (l := behind)
        generalize behind.takeWhile Ascii.isBlank = gap at *
        generalize behind.dropWhile Ascii.isBlank = text at *
        rw [← hbehind, scan_openParen hgap hleading] at h
        cases text with
        | nil =>
          have hlength := length_of_scanLiterals h
          cases hlength
        | cons c after =>
          dsimp only at h
          split at h
          · next hc =>
            cases h
            rw [hc]
            exact .empty hgap
          · next hc =>
            have hlits := hasLiterals_of_scanLiterals h hleading
            refine .literals hgap hlits fun hcontents => hc ?_
            have htext := scanLiterals_append h
            rw [hlits.text_of_contents hcontents, List.append_assoc] at htext
            exact (List.head_eq_of_cons_eq ((List.append_right_inj _).mp htext)).symm
      · rw [scan, if_neg hb] at h
        cases h
  · rintro ⟨htuple, rfl⟩
    cases htuple with
    | @empty gap hgap =>
      have hclose : Bytes.NoLeadingBlank (Ascii.closeParen :: rest) :=
        Bytes.noLeadingBlank_cons_iff.mpr (by decide)
      have htext : (Layout.text ⟨[], Ascii.openParen :: (gap ++ [Ascii.closeParen])⟩) ++ rest =
          Ascii.openParen :: (gap ++ Ascii.closeParen :: rest) := by simp [Layout.text]
      rw [htext, scan_openParen hgap hclose]
      rfl
    | @literals gap layout hgap hlits hne =>
      obtain ⟨text, htext, hempty, hleading⟩ := hlits.exists_text
      have hhead := hlits.head?_ne_closeParen htext hne
      rw [htext, List.cons_append, List.cons_append, List.append_assoc,
        scan_openParen hgap (hleading.append_of_ne_nil hempty rest)]
      cases text with
      | nil => exact absurd rfl hempty
      | cons c after =>
        have hc : c ≠ Ascii.closeParen := fun heq => hhead (congrArg some heq)
        dsimp only [List.cons_append]
        rw [if_neg hc]
        apply scanLiterals_of_hasLiterals hlits
        rw [htext, List.append_assoc]
        rfl

theorem IsTuple.exists_text {tuple : Layout} (h : IsTuple tuple) :
    ∃ text, tuple.text = Ascii.openParen :: text := by
  cases h with
  | @empty gap hgap => exact ⟨gap ++ [Ascii.closeParen], rfl⟩
  | @literals gap tuple hgap hlits hne =>
    obtain ⟨text, htext, -, -⟩ := hlits.exists_text
    exact ⟨gap ++ text, htext⟩

theorem IsTuple.noLeadingBlank {tuple : Layout} (h : IsTuple tuple) (rest : Bytes) :
    Bytes.NoLeadingBlank (tuple.text ++ rest) := by
  obtain ⟨text, htext⟩ := h.exists_text
  rw [htext]
  exact Bytes.noLeadingBlank_cons_iff.mpr (by decide)

/-- A row is accepted exactly when it is a tuple with blanks around it. -/
theorem split_eq_ok_iff {row : Bytes} {layout : Layout} :
    split row = .ok layout ↔
      ∃ blanks tuple rest, Bytes.AllBlank blanks ∧ IsTuple tuple ∧ Bytes.AllBlank rest ∧
        layout = (tuple.prepend blanks).append rest ∧ layout.text = row := by
  constructor
  · intro h
    have hrow := List.takeWhile_append_dropWhile (p := Ascii.isBlank) (l := row)
    unfold split at h
    dsimp only at h
    split at h
    · cases h
    · next tuple rest hscan =>
      obtain ⟨htuple, htext⟩ := scan_eq_ok_iff.mp hscan
      split at h
      · next hrest =>
        cases h
        refine ⟨_, tuple, rest, Bytes.allBlank_takeWhile row, htuple,
          List.all_eq_true.mp hrest, rfl, ?_⟩
        rw [Layout.text_append, Layout.text_prepend, List.append_assoc, htext, hrow]
      · cases h
  · rintro ⟨blanks, tuple, rest, hblanks, htuple, hrest, rfl, rfl⟩
    have hleading := htuple.noLeadingBlank rest
    rw [Layout.text_append, Layout.text_prepend, List.append_assoc, split]
    simp only [Bytes.takeWhile_append hblanks hleading, Bytes.dropWhile_append hblanks hleading,
      scan_eq_ok_iff.mpr ⟨htuple, rfl⟩, List.all_eq_true.mpr hrest, if_true]

theorem text_of_split {row : Bytes} {layout : Layout} (h : split row = .ok layout) :
    layout.text = row := by
  obtain ⟨_, _, _, _, _, _, _, htext⟩ := split_eq_ok_iff.mp h
  exact htext

/-- A tuple with nothing around it is a row by itself. -/
theorem split_of_isTuple {tuple : Layout} (h : IsTuple tuple) : split tuple.text = .ok tuple := by
  refine split_eq_ok_iff.mpr ⟨[], tuple, [], Bytes.allBlank_nil, h, Bytes.allBlank_nil, ?_, rfl⟩
  rw [Layout.prepend_nil, Layout.append_nil]

/-! ### The literals of an accepted row -/

theorem HasLiterals.isToken {lead : Bytes} {layout : Layout} (h : HasLiterals lead layout) :
    ∀ literal ∈ layout.contents, IsToken literal ∧ Bytes.IsTrimmed literal := by
  induction h with
  | last hcell =>
    intro literal hmem
    obtain rfl := List.mem_singleton.mp hmem
    exact ⟨hcell.token, hcell.trimmed⟩
  | more hcell hblank hrest ih =>
    intro literal hmem
    rcases List.mem_cons.mp hmem with rfl | hmem
    · exact ⟨hcell.token, hcell.trimmed⟩
    · exact ih literal hmem

theorem isToken_of_split {row : Bytes} {layout : Layout} (h : split row = .ok layout) :
    ∀ literal ∈ layout.contents, IsToken literal ∧ Bytes.IsTrimmed literal := by
  obtain ⟨blanks, tuple, rest, -, htuple, -, rfl, -⟩ := split_eq_ok_iff.mp h
  rw [Layout.contents_append, Layout.contents_prepend]
  cases htuple with
  | empty hgap =>
    intro literal hmem
    cases hmem
  | literals hgap hlits hne => exact hlits.isToken

/-! ### Other literals in the same places -/

theorem HasLiterals.fill {lead : Bytes} {layout : Layout} (h : HasLiterals lead layout)
    {contents : List Bytes} (hlength : contents.length = layout.slots.length)
    (htokens : ∀ literal ∈ contents, IsToken literal ∧ Bytes.IsTrimmed literal ∧ literal ≠ []) :
    HasLiterals lead (layout.fill contents) := by
  have hcell : ∀ {old new gap : Bytes}, IsCell old gap → new ∈ contents → IsCell new gap := by
    intro old new gap hold hnew
    obtain ⟨htoken, htrimmed, hne⟩ := htokens new hnew
    exact ⟨htoken, htrimmed, hold.blank, fun hempty => absurd hempty hne⟩
  induction h generalizing contents with
  | last hold =>
    obtain ⟨literal, rfl⟩ := List.length_eq_one_iff.mp hlength
    exact .last (hcell hold (List.mem_cons_self ..))
  | more hold hblank hrest ih =>
    cases contents with
    | nil => cases hlength
    | cons literal others =>
      rw [Layout.fill_cons]
      refine .more (hcell hold (List.mem_cons_self ..)) hblank (ih (Nat.succ.inj hlength) ?_ ?_)
      · exact fun literal hmem => htokens literal (List.mem_cons_of_mem _ hmem)
      · exact fun hold hmem => hcell hold (List.mem_cons_of_mem _ hmem)

theorem IsTuple.fill {tuple : Layout} (h : IsTuple tuple) {contents : List Bytes}
    (hlength : contents.length = tuple.slots.length)
    (htokens : ∀ literal ∈ contents, IsToken literal ∧ Bytes.IsTrimmed literal ∧ literal ≠ []) :
    IsTuple (tuple.fill contents) := by
  cases h with
  | empty hgap => exact .empty hgap
  | literals hgap hlits hne =>
    refine .literals hgap (hlits.fill hlength htokens) ?_
    rw [Layout.contents_fill _ _ hlength]
    rintro rfl
    exact (htokens [] (List.mem_cons_self ..)).2.2 rfl

/-- Complete literals in the places of the old ones give a row that is cut in the same places. -/
theorem split_fill {row : Bytes} {layout : Layout} (h : split row = .ok layout)
    {contents : List Bytes} (hlength : contents.length = layout.slots.length)
    (htokens : ∀ literal ∈ contents, IsToken literal ∧ Bytes.IsTrimmed literal ∧ literal ≠ []) :
    split (layout.fill contents).text = .ok (layout.fill contents) := by
  obtain ⟨blanks, tuple, rest, hblanks, htuple, hrest, rfl, -⟩ := split_eq_ok_iff.mp h
  have hslots : contents.length = tuple.slots.length := by
    have hcontents : ((tuple.prepend blanks).append rest).slots.length = tuple.slots.length := by
      rw [← Layout.length_contents, Layout.contents_append, Layout.contents_prepend,
        Layout.length_contents]
    rw [hlength, hcontents]
  refine split_eq_ok_iff.mpr ⟨blanks, tuple.fill contents, rest, hblanks,
    htuple.fill hslots htokens, hrest, ?_, rfl⟩
  rw [Layout.fill_append, Layout.fill_prepend _ _ _ hslots]

/-! ### Why a scan stops -/

theorem reason_of_scanLiterals {lead text : Bytes} {stop : Stop}
    (h : scanLiterals lead text = .error stop) : stop.reason ≠ .missingValues := by
  fun_induction scanLiterals lead text with
  | case1 lead text found hscan =>
    cases h
    unfold scanLiteral at hscan
    split at hscan
    · split at hscan
      · cases hscan
      · cases hscan
        intro hreason
        cases hreason
    · cases hscan
  | case2 =>
    cases h
    intro hreason
    cases hreason
  | case3 lead text raw after hscan literal blanks hsplit rest hrest ih =>
    exact ih (map_eq_error_iff.mp h)
  | case4 => cases h
  | case5 =>
    cases h
    intro hreason
    cases hreason

theorem reason_of_scan {text : Bytes} {stop : Stop} (h : scan text = .error stop) :
    stop.reason ≠ .missingValues := by
  unfold scan at h
  split at h
  · cases h
    intro hreason
    cases hreason
  · split at h
    · dsimp only at h
      split at h
      · exact reason_of_scanLiterals h
      · split at h
        · cases h
        · exact reason_of_scanLiterals h
    · cases h
      intro hreason
      cases hreason

end DumpMask.Tuple
