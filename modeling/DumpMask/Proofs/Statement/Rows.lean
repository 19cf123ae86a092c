import DumpMask.Proofs.Statement.Keyword
import DumpMask.Proofs.Tuple.Shape

/-!
# The shape of a list of rows

A list of rows is cut out of a text exactly when the text begins with tuples that have a comma
between any two of them. A line is cut into its rows exactly when it writes rows and such a list
begins at the first cue.
-/

namespace DumpMask.Statement

def FollowedByComma (text : Bytes) : Prop :=
  (text.dropWhile Ascii.isBlank).head? = some Ascii.comma

instance (text : Bytes) : Decidable (FollowedByComma text) :=
  inferInstanceAs (Decidable (_ = _))

/-- Tuples up to the first that no comma follows. The text in front of the first is `lead`. -/
inductive HasRows : Bytes → Layout → Prop
  | last {lead tail : Bytes} {tuple : Layout} (htuple : Tuple.IsTuple tuple)
      (htail : ¬ FollowedByComma tail) : HasRows lead ⟨[⟨lead, tuple.text⟩], tail⟩
  | more {lead gap gap' : Bytes} {tuple rows : Layout} (htuple : Tuple.IsTuple tuple)
      (hgap : Bytes.AllBlank gap) (hgap' : Bytes.AllBlank gap')
      (hrest : HasRows (gap ++ Ascii.comma :: gap') rows) :
      HasRows lead (rows.cons ⟨lead, tuple.text⟩)

theorem cutRows_of_scan {lead text after : Bytes} {tuple : Layout}
    (hscan : Tuple.scan text = .ok (tuple, after)) :
    cutRows lead text =
      match after.dropWhile Ascii.isBlank with
      | [] => .ok ⟨[⟨lead, tuple.text⟩], after⟩
      | b :: rest =>
        if b = Ascii.comma then
          Layout.cons ⟨lead, tuple.text⟩ <$>
            cutRows (after.takeWhile Ascii.isBlank ++ b :: rest.takeWhile Ascii.isBlank)
              (rest.dropWhile Ascii.isBlank)
        else .ok ⟨[⟨lead, tuple.text⟩], after⟩ := by
  rw [cutRows]
  split
  · next stop heq =>
    rw [hscan] at heq
    cases heq
  · next tuple' after' heq =>
    rw [hscan] at heq
    cases heq
    cases after.dropWhile Ascii.isBlank <;> rfl

section Cut

variable {lead : Bytes} {tuple rows : Layout}

theorem cutRows_last {tail : Bytes} (htuple : Tuple.IsTuple tuple)
    (htail : ¬ FollowedByComma tail) :
    cutRows lead (tuple.text ++ tail) = .ok ⟨[⟨lead, tuple.text⟩], tail⟩ := by
  rw [cutRows_of_scan (Tuple.scan_eq_ok_iff.mpr ⟨htuple, rfl⟩)]
  rw [FollowedByComma] at htail
  split
  · rfl
  · next b rest hdrop =>
    rw [hdrop] at htail
    rw [if_neg]
    rintro rfl
    exact htail rfl

theorem cutRows_more {gap gap' text : Bytes} (htuple : Tuple.IsTuple tuple)
    (hgap : Bytes.AllBlank gap) (hgap' : Bytes.AllBlank gap') (htext : Bytes.NoLeadingBlank text) :
    cutRows lead (tuple.text ++ (gap ++ Ascii.comma :: (gap' ++ text))) =
      Layout.cons ⟨lead, tuple.text⟩ <$> cutRows (gap ++ Ascii.comma :: gap') text := by
  have hcomma : Bytes.NoLeadingBlank (Ascii.comma :: (gap' ++ text)) :=
    Bytes.noLeadingBlank_cons_iff.mpr (by decide)
  rw [cutRows_of_scan (Tuple.scan_eq_ok_iff.mpr ⟨htuple, rfl⟩),
    Bytes.dropWhile_append hgap hcomma, Bytes.takeWhile_append hgap hcomma]
  dsimp only
  rw [if_pos rfl, Bytes.takeWhile_append hgap' htext, Bytes.dropWhile_append hgap' htext]

/-- What is behind the text in front of the first tuple. -/
theorem HasRows.exists_text (h : HasRows lead rows) :
    ∃ text, rows.text = lead ++ Ascii.openParen :: text := by
  induction h with
  | @last lead tail tuple htuple htail =>
    obtain ⟨inner, hinner⟩ := htuple.exists_text
    refine ⟨inner ++ tail, ?_⟩
    rw [Layout.text_singleton, hinner]
    simp
  | @more lead gap gap' tuple rows htuple hgap hgap' hrest ih =>
    obtain ⟨inner, hinner⟩ := htuple.exists_text
    refine ⟨inner ++ rows.text, ?_⟩
    rw [Layout.text_cons, hinner]
    simp

theorem cutRows_eq_ok_iff {text : Bytes} :
    cutRows lead text = .ok rows ↔ HasRows lead rows ∧ rows.text = lead ++ text := by
  constructor
  · intro h
    refine ⟨?_, cutRows_text h⟩
    fun_induction cutRows lead text generalizing rows with
    | case1 => cases h
    | case2 lead text tuple after hscan hrest =>
      cases h
      refine .last (Tuple.scan_eq_ok_iff.mp hscan).1 ?_
      rw [FollowedByComma, hrest]
      intro hcomma
      cases hcomma
    | case3 lead text tuple after hscan rest hrest ih =>
      obtain ⟨inner, hinner, rfl⟩ := map_eq_ok_iff.mp h
      exact .more (Tuple.scan_eq_ok_iff.mp hscan).1 (Bytes.allBlank_takeWhile after)
        (Bytes.allBlank_takeWhile rest) (ih hinner)
    | case4 lead text tuple after hscan b rest hrest hb =>
      cases h
      refine .last (Tuple.scan_eq_ok_iff.mp hscan).1 ?_
      rw [FollowedByComma, hrest]
      intro hcomma
      exact hb (Option.some.inj hcomma)
  · rintro ⟨h, htext⟩
    induction h generalizing text with
    | @last lead tail tuple htuple htail =>
      obtain rfl : text = tuple.text ++ tail := by
        apply (List.append_right_inj lead).mp
        rw [← htext, Layout.text_singleton, List.append_assoc]
      exact cutRows_last htuple htail
    | @more lead gap gap' tuple rows htuple hgap hgap' hrest ih =>
      obtain ⟨inner, hinner⟩ := hrest.exists_text
      obtain rfl : text =
          tuple.text ++ (gap ++ Ascii.comma :: (gap' ++ Ascii.openParen :: inner)) := by
        apply (List.append_right_inj lead).mp
        rw [← htext, Layout.text_cons, hinner]
        simp
      have hparen : Bytes.NoLeadingBlank (Ascii.openParen :: inner) :=
        Bytes.noLeadingBlank_cons_iff.mpr (by decide)
      rw [cutRows_more htuple hgap hgap' hparen, ih hinner]
      rfl

theorem HasRows.exists_tuple (h : HasRows lead rows) {content : Bytes}
    (hmem : content ∈ rows.contents) : ∃ tuple, Tuple.IsTuple tuple ∧ content = tuple.text := by
  induction h with
  | @last lead tail tuple htuple htail => exact ⟨tuple, htuple, List.mem_singleton.mp hmem⟩
  | @more lead gap gap' tuple rows htuple hgap hgap' hrest ih =>
    rcases List.mem_cons.mp hmem with rfl | hmem
    · exact ⟨tuple, htuple, rfl⟩
    · exact ih hmem

/-- Other tuples in the places of the old ones give a list of rows again. -/
theorem HasRows.fill (h : HasRows lead rows) {contents : List Bytes}
    (hlength : contents.length = rows.slots.length)
    (htuples : ∀ content ∈ contents, ∃ tuple, Tuple.IsTuple tuple ∧ content = tuple.text) :
    HasRows lead (rows.fill contents) := by
  induction h generalizing contents with
  | @last lead tail tuple htuple htail =>
    obtain ⟨content, rfl⟩ := List.length_eq_one_iff.mp hlength
    obtain ⟨tuple', htuple', rfl⟩ := htuples content (List.mem_cons_self ..)
    exact .last htuple' htail
  | @more lead gap gap' tuple rows htuple hgap hgap' hrest ih =>
    cases contents with
    | nil => cases hlength
    | cons content others =>
      obtain ⟨tuple', htuple', rfl⟩ := htuples content (List.mem_cons_self ..)
      rw [Layout.fill_cons]
      refine .more htuple' hgap hgap' (ih (Nat.succ.inj hlength) ?_)
      exact fun content hmem => htuples content (List.mem_cons_of_mem _ hmem)

end Cut

/-! ### Texts that begin with rows -/

/-- A list of rows stands in front of the text: a comma behind a tuple leads to another tuple. -/
inductive BeginsWithRows : Bytes → Prop
  | last {blanks tail : Bytes} {tuple : Layout} (hblanks : Bytes.AllBlank blanks)
      (htuple : Tuple.IsTuple tuple) (htail : ¬ FollowedByComma tail) :
      BeginsWithRows (blanks ++ (tuple.text ++ tail))
  | more {blanks gap rest : Bytes} {tuple : Layout} (hblanks : Bytes.AllBlank blanks)
      (htuple : Tuple.IsTuple tuple) (hgap : Bytes.AllBlank gap) (hrest : BeginsWithRows rest) :
      BeginsWithRows (blanks ++ (tuple.text ++ (gap ++ Ascii.comma :: rest)))

theorem HasRows.exists_beginsWithRows {lead : Bytes} {rows : Layout} (h : HasRows lead rows) :
    ∃ rest, rows.text = lead ++ rest ∧
      ∀ blanks, Bytes.AllBlank blanks → BeginsWithRows (blanks ++ rest) := by
  induction h with
  | @last lead tail tuple htuple htail =>
    refine ⟨tuple.text ++ tail, ?_, fun _ hblanks => .last hblanks htuple htail⟩
    rw [Layout.text_singleton, List.append_assoc]
  | @more lead gap gap' tuple rows htuple hgap hgap' hrest ih =>
    obtain ⟨rest, htext, hbegins⟩ := ih
    refine ⟨tuple.text ++ (gap ++ Ascii.comma :: (gap' ++ rest)), ?_,
      fun _ hblanks => .more hblanks htuple hgap (hbegins gap' hgap')⟩
    rw [Layout.text_cons, htext]
    simp

/-- The rows may stand behind any other text in place of the blanks. -/
theorem BeginsWithRows.exists_hasRows {text : Bytes} (h : BeginsWithRows text) :
    ∃ blanks rest, Bytes.AllBlank blanks ∧ text = blanks ++ rest ∧
      ∀ lead, ∃ rows, HasRows lead rows ∧ rows.text = lead ++ rest := by
  induction h with
  | @last blanks tail tuple hblanks htuple htail =>
    refine ⟨blanks, tuple.text ++ tail, hblanks, rfl, fun lead => ⟨_, .last htuple htail, ?_⟩⟩
    rw [Layout.text_singleton, List.append_assoc]
  | @more blanks gap rest tuple hblanks htuple hgap hrest ih =>
    obtain ⟨gap', inner, hgap', rfl, hrows⟩ := ih
    refine ⟨blanks, _, hblanks, rfl, fun lead => ?_⟩
    obtain ⟨rows, hshape, htext⟩ := hrows (gap ++ Ascii.comma :: gap')
    refine ⟨_, .more htuple hgap hgap' hshape, ?_⟩
    rw [Layout.text_cons, htext]
    simp

theorem beginsWithRows_iff {text : Bytes} :
    BeginsWithRows text ↔
      ∃ rows lead, Bytes.AllBlank lead ∧ HasRows lead rows ∧ rows.text = text := by
  constructor
  · intro h
    obtain ⟨blanks, rest, hblanks, rfl, hrows⟩ := h.exists_hasRows
    obtain ⟨rows, hshape, htext⟩ := hrows blanks
    exact ⟨rows, blanks, hblanks, hshape, htext⟩
  · rintro ⟨rows, lead, hlead, hshape, rfl⟩
    obtain ⟨rest, htext, hbegins⟩ := hshape.exists_beginsWithRows
    rw [htext]
    exact hbegins lead hlead

/-! ### Lines -/

theorem ValuesList.extract_spans (list : ValuesList) :
    list.spans.map (fun span => list.text.extract span.1 span.2) = list.rows.contents :=
  Layout.extract_spansFrom list.head list.rows.slots list.rows.tail

theorem values?_ne_ok_none {line : Bytes} (hinsert : isInsert line = true) :
    values? line ≠ .ok none := by
  rw [values?, if_pos hinsert]
  intro h
  split at h
  · cases h
  · dsimp only at h
    split at h
    · cases h
    · cases h

theorem values?_eq_ok_some_iff {line : Bytes} {list : ValuesList} :
    values? line = .ok (some list) ↔
      isInsert line = true ∧ cutAfterValues? line = some (list.head, list.rows.text) ∧
        ∃ lead, Bytes.AllBlank lead ∧ HasRows lead list.rows := by
  constructor
  · intro h
    unfold values? at h
    split at h
    · next hinsert =>
      split at h
      · cases h
      · next head after hcut =>
        dsimp only at h
        split at h
        · next rows hrows =>
          cases h
          obtain ⟨hshape, htext⟩ := cutRows_eq_ok_iff.mp hrows
          rw [List.takeWhile_append_dropWhile] at htext
          exact ⟨hinsert, by rw [htext, hcut], _, Bytes.allBlank_takeWhile after, hshape⟩
        · cases h
    · cases h
  · rintro ⟨hinsert, hcut, lead, hlead, hshape⟩
    obtain ⟨inner, hinner⟩ := hshape.exists_text
    have hparen : Bytes.NoLeadingBlank (Ascii.openParen :: inner) :=
      Bytes.noLeadingBlank_cons_iff.mpr (by decide)
    have hrows := cutRows_eq_ok_iff.mpr ⟨hshape, hinner⟩
    rw [values?, if_pos hinsert, hcut]
    dsimp only
    rw [hinner, Bytes.takeWhile_append hlead hparen, Bytes.dropWhile_append hlead hparen, hrows]

theorem reason_of_cutRows {lead text : Bytes} {stop : Tuple.Stop}
    (h : cutRows lead text = .error stop) : stop.reason ≠ .missingValues := by
  fun_induction cutRows lead text with
  | case1 lead text found hscan =>
    cases h
    exact Tuple.reason_of_scan hscan
  | case2 => cases h
  | case3 lead text tuple after hscan rest hrest ih => exact ih (map_eq_error_iff.mp h)
  | case4 => cases h

/-- The keyword is reported as missing only where it is not found. -/
theorem values?_eq_missing_iff {line : Bytes} (hinsert : isInsert line = true) :
    values? line = .error ⟨0, .missingValues⟩ ↔ cutAfterValues? line = none := by
  rw [values?, if_pos hinsert]
  cases hcut : cutAfterValues? line with
  | none => simp
  | some cut =>
    dsimp only
    constructor
    · intro h
      split at h
      · cases h
      · next stop hstop =>
        have hreason := congrArg MalformedRow.reason (Except.error.inj h)
        exact absurd hreason (reason_of_cutRows hstop)
    · intro h
      cases h

/-- The first word of a line ends where the first tuple begins, at the latest. -/
theorem isInsert_append_openParen (front rest : Bytes) :
    isInsert (front ++ Ascii.openParen :: rest) = isInsert front := by
  have hblank : (front ++ Ascii.openParen :: rest).dropWhile Ascii.isBlank =
      front.dropWhile Ascii.isBlank ++ Ascii.openParen :: rest := by
    rw [List.dropWhile_append]
    split
    · next hempty =>
      rw [List.isEmpty_iff.mp hempty]
      rfl
    · rfl
  have hword : ∀ front : Bytes, (front ++ Ascii.openParen :: rest).takeWhile isWordOctet =
      front.takeWhile isWordOctet := by
    intro front
    induction front with
    | nil => rfl
    | cons b others ih => simp [List.takeWhile_cons, ih]
  have hfirst : (firstWord (front ++ Ascii.openParen :: rest)).1 = (firstWord front).1 := by
    rw [firstWord, firstWord, Bytes.trimStart, Bytes.trimStart, hblank, hword]
  rw [isInsert, isInsert, hfirst]

end DumpMask.Statement
