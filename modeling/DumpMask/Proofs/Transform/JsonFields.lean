import DumpMask.Proofs.Json.Modify
import DumpMask.Rules.Reader
import DumpMask.Transform.JsonFields

/-!
# What masking makes of a JSON document

Rules are applied one after the other, and each sees what the ones before it made of the document.
None of them changes the outline, so the strings that a rule reaches can be told from the document
alone. Main statement: a string becomes what the rules that select it make of it, in their order,
and all else stays; masking fails only where one of these steps does; and rules that share no string
may be applied in any order.
-/

namespace DumpMask.Transform

open Json (Position)

variable {transform : Transform} {transforms : List Transform} {threshold : Threshold}
  {rules : List (Json.Path × Transform)} {doc doc' leaf leaf' : Json} {position : Position}

/-! ### One string -/

def HoldsText (leaf : Json) : Prop :=
  ∃ text, text ≠ "" ∧ leaf = .string text

/-- What a transform makes of a scalar. -/
inductive MasksLeaf (transform : Transform) (threshold : Threshold) : Json → Json → Prop where
  | kept {leaf : Json} (hleaf : ¬ HoldsText leaf) : MasksLeaf transform threshold leaf leaf
  | nulled {text : String} (htext : text ≠ "") (hquoting : transform.quoting = .null) :
    MasksLeaf transform threshold (.string text) .null
  | replaced {text text' : String} {masked : Bytes} (htext : text ≠ "")
    (hquoting : transform.quoting ≠ .null)
    (happly : transform.apply (Utf8.encode text) (threshold.classify (Utf8.encode text)) =
      .ok masked)
    (hmasked : Utf8.decode masked = some text') :
    MasksLeaf transform threshold (.string text) (.string text')

/-- The transform fails on a string, or its result is no text. -/
structure FailsLeaf (transform : Transform) (threshold : Threshold) (text : String) : Prop where
  nonempty : text ≠ ""
  quoting : transform.quoting ≠ .null
  result : ∀ masked,
    transform.apply (Utf8.encode text) (threshold.classify (Utf8.encode text)) = .ok masked →
      Utf8.decode masked = none

theorem maskLeaf_of_not_holdsText (h : ¬ HoldsText leaf) :
    maskLeaf transform threshold leaf = .ok leaf := by
  cases leaf with
  | string text =>
    by_cases htext : text = ""
    · rw [maskLeaf, if_pos (String.isEmpty_iff.mpr htext)]
    · exact absurd ⟨text, htext, rfl⟩ h
  | _ => rfl

theorem maskLeaf_of_null {text : String} (htext : text ≠ "")
    (hquoting : transform.quoting = .null) :
    maskLeaf transform threshold (.string text) = .ok .null := by
  rw [maskLeaf, if_neg (mt String.isEmpty_iff.mp htext), if_pos hquoting]

/-- The string of a result, if it is text. -/
def textResult (masked : Bytes) : Except TransformError Json :=
  match Utf8.decode masked with
  | some text => .ok (.string text)
  | none => .error .replacementNotText

theorem textResult_eq_ok_iff {masked : Bytes} :
    textResult masked = .ok leaf ↔
      ∃ text, Utf8.decode masked = some text ∧ leaf = .string text := by
  rw [textResult]
  cases Utf8.decode masked <;> simp [eq_comm]

theorem maskLeaf_of_ne_null {text : String} (htext : text ≠ "")
    (hquoting : transform.quoting ≠ .null) :
    maskLeaf transform threshold (.string text) =
      transform.apply (Utf8.encode text) (threshold.classify (Utf8.encode text)) >>=
        textResult := by
  rw [maskLeaf, if_neg (mt String.isEmpty_iff.mp htext), if_neg hquoting]
  rfl

theorem maskLeaf_eq_ok_iff :
    maskLeaf transform threshold leaf = .ok leaf' ↔ MasksLeaf transform threshold leaf leaf' := by
  constructor
  · intro h
    by_cases hleaf : HoldsText leaf
    · obtain ⟨text, htext, rfl⟩ := hleaf
      by_cases hquoting : transform.quoting = .null
      · rw [maskLeaf_of_null htext hquoting] at h
        cases h
        exact .nulled htext hquoting
      · rw [maskLeaf_of_ne_null htext hquoting] at h
        obtain ⟨masked, happly, hresult⟩ := bind_eq_ok_iff.mp h
        obtain ⟨text', hmasked, rfl⟩ := textResult_eq_ok_iff.mp hresult
        exact .replaced htext hquoting happly hmasked
    · rw [maskLeaf_of_not_holdsText hleaf] at h
      cases h
      exact .kept hleaf
  · intro h
    cases h with
    | kept hleaf => exact maskLeaf_of_not_holdsText hleaf
    | nulled htext hquoting => exact maskLeaf_of_null htext hquoting
    | replaced htext hquoting happly hmasked =>
      rw [maskLeaf_of_ne_null htext hquoting, bind_eq_ok_iff]
      exact ⟨_, happly, textResult_eq_ok_iff.mpr ⟨_, hmasked, rfl⟩⟩

theorem exists_failsLeaf {error : TransformError}
    (h : maskLeaf transform threshold leaf = .error error) :
    ∃ text, leaf = .string text ∧ FailsLeaf transform threshold text := by
  by_cases hleaf : HoldsText leaf
  · obtain ⟨text, htext, rfl⟩ := hleaf
    by_cases hquoting : transform.quoting = .null
    · rw [maskLeaf_of_null htext hquoting] at h
      cases h
    · refine ⟨text, rfl, htext, hquoting, ?_⟩
      intro masked happly
      rw [maskLeaf_of_ne_null htext hquoting, happly] at h
      apply Option.eq_none_iff_forall_ne_some.mpr
      intro text' hmasked
      have hok : textResult masked = .ok (.string text') :=
        textResult_eq_ok_iff.mpr ⟨text', hmasked, rfl⟩
      cases hok.symm.trans h
  · rw [maskLeaf_of_not_holdsText hleaf] at h
    cases h

theorem MasksLeaf.not_failsLeaf {text : String}
    (h : MasksLeaf transform threshold (.string text) leaf') :
    ¬ FailsLeaf transform threshold text := by
  intro hfails
  cases h with
  | kept hleaf => exact hleaf ⟨text, hfails.nonempty, rfl⟩
  | nulled htext hquoting => exact hfails.quoting hquoting
  | replaced htext hquoting happly hmasked =>
    rw [hfails.result _ happly] at hmasked
    cases hmasked

theorem MasksLeaf.unique {other : Json} (h : MasksLeaf transform threshold leaf leaf')
    (hother : MasksLeaf transform threshold leaf other) : leaf' = other := by
  rw [← maskLeaf_eq_ok_iff] at h hother
  exact Except.ok.inj (h.symm.trans hother)

theorem MasksLeaf.isScalar (h : MasksLeaf transform threshold leaf leaf') (hleaf : leaf.isScalar) :
    leaf'.isScalar := by
  cases h with
  | kept => exact hleaf
  | nulled | replaced => rfl

theorem keepsShape_maskLeaf (transform : Transform) (threshold : Threshold) :
    Json.KeepsShape (maskLeaf transform threshold) where
  scalar hleaf h := (maskLeaf_eq_ok_iff.mp h).isScalar hleaf
  container {node} hnode := by
    apply maskLeaf_of_not_holdsText
    rintro ⟨text, -, rfl⟩
    cases hnode

/-! ### One string, several transforms -/

/-- What transforms make of a scalar, one after the other. -/
inductive MasksThrough (threshold : Threshold) : List Transform → Json → Json → Prop where
  | nil {leaf : Json} : MasksThrough threshold [] leaf leaf
  | cons {transform : Transform} {rest : List Transform} {leaf middle leaf' : Json}
    (hfirst : MasksLeaf transform threshold leaf middle)
    (hrest : MasksThrough threshold rest middle leaf') :
    MasksThrough threshold (transform :: rest) leaf leaf'

/-- One of the transforms fails on what the ones before it made of a scalar. -/
inductive FailsThrough (threshold : Threshold) : List Transform → Json → Prop where
  | here {transform : Transform} {rest : List Transform} {text : String}
    (h : FailsLeaf transform threshold text) :
    FailsThrough threshold (transform :: rest) (.string text)
  | later {transform : Transform} {rest : List Transform} {leaf middle : Json}
    (hfirst : MasksLeaf transform threshold leaf middle)
    (hrest : FailsThrough threshold rest middle) :
    FailsThrough threshold (transform :: rest) leaf

theorem MasksThrough.eq_of_not_holdsText (h : MasksThrough threshold transforms leaf leaf')
    (hleaf : ¬ HoldsText leaf) : leaf' = leaf := by
  induction h with
  | nil => rfl
  | cons hfirst hrest ih =>
    have hmiddle := hfirst.unique (.kept hleaf)
    subst hmiddle
    exact ih hleaf

theorem MasksThrough.unique {other : Json} (h : MasksThrough threshold transforms leaf leaf')
    (hother : MasksThrough threshold transforms leaf other) : leaf' = other := by
  induction h with
  | nil =>
    cases hother
    rfl
  | cons hfirst hrest ih =>
    cases hother with
    | cons hfirst' hrest' =>
      rw [← hfirst.unique hfirst'] at hrest'
      exact ih hrest'

theorem MasksThrough.not_failsThrough (h : MasksThrough threshold transforms leaf leaf') :
    ¬ FailsThrough threshold transforms leaf := by
  induction h with
  | nil => exact nofun
  | cons hfirst hrest ih =>
    intro hfails
    cases hfails with
    | here h => exact hfirst.not_failsLeaf h
    | later hfirst' hrest' =>
      rw [← hfirst.unique hfirst'] at hrest'
      exact ih hrest'

theorem FailsThrough.exists_string (h : FailsThrough threshold transforms leaf) :
    ∃ text, leaf = .string text := by
  induction h with
  | @here transform rest text h => exact ⟨text, rfl⟩
  | later hfirst hrest ih =>
    obtain ⟨text, rfl⟩ := ih
    cases hfirst with
    | kept => exact ⟨text, rfl⟩
    | @replaced text => exact ⟨text, rfl⟩

/-! ### Documents -/

/-- The transforms of the rules that select a position, in the order of the rules. -/
def selecting (rules : List (Json.Path × Transform)) (position : Position) : List Transform :=
  (rules.filter (·.1.selects position)).map Prod.snd

theorem maskDocument_cons_eq_ok_iff {rule : Json.Path × Transform} :
    maskDocument (rule :: rules) threshold doc = .ok doc' ↔
      ∃ middle, Json.modify (maskLeaf rule.2 threshold) rule.1 doc = .ok middle ∧
        maskDocument rules threshold middle = .ok doc' := by
  rw [maskDocument, List.foldlM_cons]
  exact bind_eq_ok_iff

theorem outline_of_maskDocument (h : maskDocument rules threshold doc = .ok doc') :
    doc'.outline = doc.outline := by
  induction rules generalizing doc with
  | nil =>
    cases h
    rfl
  | cons rule rest ih =>
    obtain ⟨middle, hfirst, hrest⟩ := maskDocument_cons_eq_ok_iff.mp h
    rw [ih hrest, Json.outline_of_modify (keepsShape_maskLeaf rule.2 threshold) hfirst]

theorem selecting_cons (rule : Json.Path × Transform) (rules : List (Json.Path × Transform))
    (position : Position) :
    selecting (rule :: rules) position =
      if rule.1.selects position then rule.2 :: selecting rules position
      else selecting rules position := by
  rw [selecting, List.filter_cons]
  split <;> rfl

/-- A scalar becomes what the rules that select it make of it. -/
theorem exists_masksThrough (h : maskDocument rules threshold doc = .ok doc')
    (hleaf : leaf.isScalar) (hat : doc.at? position = some leaf) :
    ∃ leaf', doc'.at? position = some leaf' ∧
      MasksThrough threshold (selecting rules position) leaf leaf' := by
  induction rules generalizing doc leaf with
  | nil =>
    cases h
    exact ⟨leaf, hat, .nil⟩
  | cons rule rest ih =>
    obtain ⟨middle, hfirst, hrest⟩ := maskDocument_cons_eq_ok_iff.mp h
    obtain ⟨leaf', hat', hchanged⟩ :=
      Json.at?_of_modify (keepsShape_maskLeaf rule.2 threshold) hfirst hleaf hat
    rw [selecting_cons]
    split at hchanged
    · next hselects =>
      have hmasks := maskLeaf_eq_ok_iff.mp hchanged
      obtain ⟨last, hlast, hthrough⟩ := ih hrest (hmasks.isScalar hleaf) hat'
      rw [if_pos hselects]
      exact ⟨last, hlast, .cons hmasks hthrough⟩
    · next hselects =>
      subst hchanged
      rw [if_neg hselects]
      exact ih hrest hleaf hat'

/-- A failure is the failure of a transform on one string. -/
theorem exists_failsThrough {error : TransformError}
    (h : maskDocument rules threshold doc = .error error) :
    ∃ position text, doc.at? position = some (.string text) ∧
      FailsThrough threshold (selecting rules position) (.string text) := by
  induction rules generalizing doc with
  | nil => cases h
  | cons rule rest ih =>
    rw [maskDocument, List.foldlM_cons] at h
    obtain hfirst | ⟨middle, hfirst, hrest⟩ := bind_eq_error_iff.mp h
    · obtain ⟨position, selected, hselects, hat, herror⟩ :=
        Json.exists_selected_of_modify_eq_error hfirst
      obtain ⟨text, rfl, hfails⟩ := exists_failsLeaf herror
      refine ⟨position, text, hat, ?_⟩
      rw [selecting_cons, if_pos hselects]
      exact .here hfails
    · obtain ⟨position, text', hat', hfails⟩ := ih hrest
      have hshape := keepsShape_maskLeaf rule.2 threshold
      obtain ⟨leaf, hat, hleaf⟩ :=
        Json.exists_scalar_of_outline_eq (Json.outline_of_modify hshape hfirst) rfl hat'
      obtain ⟨leaf', hleaf', hchanged⟩ := Json.at?_of_modify hshape hfirst hleaf hat
      rw [hat'] at hleaf'
      cases hleaf'
      have hfails' : FailsThrough threshold (selecting (rule :: rest) position) leaf := by
        rw [selecting_cons]
        split at hchanged
        · next hselects =>
          rw [if_pos hselects]
          exact .later (maskLeaf_eq_ok_iff.mp hchanged) hfails
        · next hselects =>
          rw [if_neg hselects, ← hchanged]
          exact hfails
      obtain ⟨text, rfl⟩ := hfails'.exists_string
      exact ⟨position, text, hat, hfails'⟩

theorem maskDocument_fails_iff :
    (∃ error, maskDocument rules threshold doc = .error error) ↔
      ∃ position text, doc.at? position = some (.string text) ∧
        FailsThrough threshold (selecting rules position) (.string text) := by
  constructor
  · rintro ⟨error, h⟩
    exact exists_failsThrough h
  · rintro ⟨position, text, hat, hfails⟩
    cases h : maskDocument rules threshold doc with
    | error error => exact ⟨error, rfl⟩
    | ok doc' =>
      obtain ⟨leaf', -, hthrough⟩ := exists_masksThrough h rfl hat
      exact absurd hfails hthrough.not_failsThrough

/-! ### The order of the rules -/

/-- Only the transforms that a string meets, and their order, decide what masking gives. -/
theorem maskDocument_of_selecting_eq {rules' : List (Json.Path × Transform)}
    (hdoc : doc.NamesDistinct)
    (hselecting : ∀ position text, doc.at? position = some (.string text) →
      selecting rules position = selecting rules' position)
    (h : maskDocument rules threshold doc = .ok doc') :
    maskDocument rules' threshold doc = .ok doc' := by
  cases h' : maskDocument rules' threshold doc with
  | error error =>
    obtain ⟨position, text, hat, hfails⟩ := exists_failsThrough h'
    obtain ⟨leaf', -, hthrough⟩ := exists_masksThrough h rfl hat
    rw [hselecting position text hat] at hthrough
    exact absurd hfails hthrough.not_failsThrough
  | ok other =>
    have houtline := outline_of_maskDocument h
    have houtline' := outline_of_maskDocument h'
    refine congrArg Except.ok (Json.eq_of_outline_eq hdoc houtline' houtline ?_)
    intro position last hlast hat'
    obtain ⟨leaf, hat, hleaf⟩ := Json.exists_scalar_of_outline_eq houtline' hlast hat'
    obtain ⟨leaf₁, hat₁, hthrough₁⟩ := exists_masksThrough h hleaf hat
    obtain ⟨leaf₂, hat₂, hthrough₂⟩ := exists_masksThrough h' hleaf hat
    rw [hat'] at hat₂
    cases hat₂
    have heq : leaf₁ = last := by
      by_cases htext : HoldsText leaf
      · obtain ⟨text, -, rfl⟩ := htext
        rw [← hselecting position text hat] at hthrough₂
        exact hthrough₁.unique hthrough₂
      · rw [hthrough₁.eq_of_not_holdsText htext, hthrough₂.eq_of_not_holdsText htext]
    rw [hat₁, heq]

/-- Two paths select a string of the document in common. -/
def SelectCommon (doc : Json) (first second : Json.Path × Transform) : Prop :=
  ∃ position text, doc.at? position = some (.string text) ∧
    first.1.selects position ∧ second.1.selects position

theorem selecting_append (left right : List (Json.Path × Transform)) (position : Position) :
    selecting (left ++ right) position = selecting left position ++ selecting right position := by
  rw [selecting, List.filter_append, List.map_append]
  rfl

/-- At most one of such rules selects the string, so their order is of no account. -/
theorem selecting_perm {rules' : List (Json.Path × Transform)} {text : String}
    (hperm : rules.Perm rules')
    (hapart : rules.Pairwise fun first second => ¬ SelectCommon doc first second)
    (hat : doc.at? position = some (.string text)) :
    selecting rules position = selecting rules' position := by
  have hfilter := hperm.filter (·.1.selects position)
  have hpairwise := hapart.filter (·.1.selects position)
  refine congrArg (List.map Prod.snd) ?_
  match hselected : rules.filter (·.1.selects position) with
  | [] =>
    rw [hselected] at hfilter
    exact hselected.trans hfilter.nil_eq
  | [rule] =>
    rw [hselected] at hfilter
    exact hselected.trans (List.singleton_perm.mp hfilter)
  | first :: second :: rest =>
    have hselects : ∀ rule ∈ rules.filter (·.1.selects position), rule.1.selects position :=
      fun rule hrule => (List.mem_filter.mp hrule).2
    rw [hselected] at hpairwise hselects
    have hfirst := hselects first (List.mem_cons_self ..)
    have hsecond := hselects second (List.mem_cons_of_mem _ (List.mem_cons_self ..))
    have hnot := (List.pairwise_cons.mp hpairwise).1 second (List.mem_cons_self ..)
    exact absurd ⟨position, text, hat, hfirst, hsecond⟩ hnot

theorem maskDocument_of_perm {before middle middle' after : List (Json.Path × Transform)}
    (hdoc : doc.NamesDistinct) (hperm : middle.Perm middle')
    (hapart : middle.Pairwise fun first second => ¬ SelectCommon doc first second)
    (h : maskDocument (before ++ middle ++ after) threshold doc = .ok doc') :
    maskDocument (before ++ middle' ++ after) threshold doc = .ok doc' := by
  refine maskDocument_of_selecting_eq hdoc ?_ h
  intro position text hat
  rw [selecting_append, selecting_append, selecting_append, selecting_append,
    selecting_perm hperm hapart hat]

theorem jsonFields_apply {value : Bytes} (hread : Json.read value = some doc)
    (length : LengthClass) :
    (jsonFields rules threshold).apply value length =
      Json.print <$> maskDocument rules threshold doc := by
  rw [jsonFields, ofFn]
  dsimp only
  rw [hread]

/-- **Selected strings are masked, and nothing else.** Of a document that was read: its outline, its
other scalars and its empty strings stay; a string becomes what the rules that select it make of it;
masking fails exactly where one of these steps fails on a string; and among other rules, those that
share no string of the document may be reordered. -/
theorem jsonFields_masks_selected (rules : List (Json.Path × Transform)) (threshold : Threshold)
    {value : Bytes} {doc : Json} (hread : Json.read value = some doc) :
    (∀ length, (jsonFields rules threshold).apply value length =
      Json.print <$> maskDocument rules threshold doc) ∧
    (∀ doc', maskDocument rules threshold doc = .ok doc' →
      doc'.outline = doc.outline ∧
      (∀ position leaf, leaf.isScalar → ¬ HoldsText leaf → doc.at? position = some leaf →
        doc'.at? position = some leaf) ∧
      (∀ position text, text ≠ "" → doc.at? position = some (.string text) →
        ∃ leaf, doc'.at? position = some leaf ∧
          MasksThrough threshold (selecting rules position) (.string text) leaf)) ∧
    ((∃ error, maskDocument rules threshold doc = .error error) ↔
      ∃ position text, doc.at? position = some (.string text) ∧
        FailsThrough threshold (selecting rules position) (.string text)) ∧
    (∀ before middle middle' after doc', rules = before ++ middle ++ after →
      middle.Perm middle' →
      middle.Pairwise (fun first second => ¬ SelectCommon doc first second) →
      (maskDocument rules threshold doc = .ok doc' ↔
        maskDocument (before ++ middle' ++ after) threshold doc = .ok doc')) := by
  have hdoc := Json.namesDistinct_of_read hread
  refine ⟨jsonFields_apply hread, ?_, maskDocument_fails_iff, ?_⟩
  · intro doc' h
    refine ⟨outline_of_maskDocument h, ?_, ?_⟩
    · intro position leaf hleaf htext hat
      obtain ⟨leaf', hat', hthrough⟩ := exists_masksThrough h hleaf hat
      rw [hat', hthrough.eq_of_not_holdsText htext]
    · intro position text _ hat
      exact exists_masksThrough h rfl hat
  · rintro before middle middle' after doc' rfl hperm hapart
    constructor
    · exact maskDocument_of_perm hdoc hperm hapart
    · refine maskDocument_of_perm hdoc hperm.symm ?_
      refine (List.Perm.pairwise_iff ?_ hperm).mp hapart
      rintro first second hnot ⟨position, text, hat, hfirst, hsecond⟩
      exact hnot ⟨position, text, hat, hsecond, hfirst⟩

/-- A string that two rules select, and a rule that selects only a number. -/
theorem jsonFields_masks_selected_tags :
    let short : Json.Path × Transform := ([.key "tags", .each], .substring 2)
    let dash : Json.Path × Transform := ([.key "tags", .index 0], .fixed (ascii "-") .asInput)
    let age : Json.Path × Transform := ([.key "age"], .nullOut)
    ∃ doc doc' leaf,
      Json.read (ascii "\x7b\"tags\":[\"ann\",\"bob\",\"\"],\"age\":7\x7d") = some doc ∧
      maskDocument [short, age, dash] ⟨2⟩ doc = .ok doc' ∧
      doc'.print = ascii "\x7b\"tags\":[\"-\",\"bo\",\"\"],\"age\":7\x7d" ∧
      doc'.at? [.member "tags", .item 0] = some leaf ∧
      MasksThrough ⟨2⟩ [short.2, dash.2] (.string "ann") leaf := by
  intro short dash age
  have hmask : ((Json.read (ascii "\x7b\"tags\":[\"ann\",\"bob\",\"\"],\"age\":7\x7d")).bind
      fun doc => (maskDocument [short, dash, age] ⟨2⟩ doc).toOption.bind fun doc' =>
        if (doc.at? [.member "tags", .item 0]).bind Json.text? = some "ann" then some doc'.print
        else none) = some (ascii "\x7b\"tags\":[\"-\",\"bo\",\"\"],\"age\":7\x7d") := by
    decide +kernel
  obtain ⟨doc, hread, hmask⟩ := Option.bind_eq_some_iff.mp hmask
  obtain ⟨doc', hok, hprint⟩ := Option.bind_eq_some_iff.mp hmask
  obtain ⟨hann, hprint⟩ := (Option.ite_none_right_eq_some).mp hprint
  obtain ⟨node, hat, htext⟩ := Option.bind_eq_some_iff.mp hann
  obtain rfl : node = .string "ann" := by
    cases node with
    | string text => exact congrArg Json.string (Option.some.inj htext)
    | _ => cases htext
  obtain ⟨-, hmasked, -, horder⟩ := jsonFields_masks_selected [short, dash, age] ⟨2⟩ hread
  obtain ⟨-, -, hstrings⟩ := hmasked doc' (eq_ok_of_toOption hok)
  have hapart : ¬ SelectCommon doc dash age := by
    rintro ⟨position, text, -, hdash, hage⟩
    cases position with
    | nil => cases hage
    | cons step rest => cases rest <;> simp [Json.Path.selects, dash, age] at hdash hage
  obtain ⟨leaf, hleaf, hthrough⟩ := hstrings _ "ann" (by decide) hat
  have hswapped := (horder [short] [dash, age] [age, dash] [] doc' rfl (.swap age dash [])
    (List.pairwise_pair.mpr hapart)).mp (eq_ok_of_toOption hok)
  exact ⟨doc, doc', leaf, hread, hswapped, Option.some.inj hprint, hleaf, hthrough⟩

end DumpMask.Transform
