import DumpMask.Proofs.Transform.JsonFields
import DumpMask.Proofs.Transform.Text

/-!
# How transforms fail

A rule without documents gives a result for every value. A rule that masks documents fails on a value
that holds none, and so does a rule inside it on a string; the same error is passed on from any
depth. The other error of a string, a result that is no text, never comes up, because the transforms
of rules keep text.
-/

namespace DumpMask

namespace Transform

/-- There is a result for every value. -/
def IsTotal (transform : Transform) : Prop :=
  ∀ value length, ∃ masked, transform.apply value length = .ok masked

/-- The one thing that can be wrong with a value is that it holds no JSON document. -/
def FailsAsNotJson (transform : Transform) : Prop :=
  ∀ {value length error}, transform.apply value length = .error error → error = .notJson

theorem IsTotal.failsAsNotJson {transform : Transform} (h : transform.IsTotal) :
    transform.FailsAsNotJson := by
  intro value length error herror
  obtain ⟨masked, hmasked⟩ := h value length
  rw [hmasked] at herror
  cases herror

/-! ### Parts -/

section Separated

variable {separator : UInt8} {inner : Transform} {threshold : Threshold}

theorem exists_part_of_separated_eq_error {value : Bytes} {length : LengthClass}
    {error : TransformError} (h : (separated separator inner threshold).apply value length =
      .error error) : ∃ part, inner.apply part (threshold.classify part) = .error error := by
  obtain hparts | ⟨parts, -, hjoined⟩ := bind_eq_error_iff.mp h
  · obtain ⟨part, -, hpart⟩ := exists_of_mapM_eq_error hparts
    split at hpart
    · cases hpart
    · exact ⟨part, hpart⟩
  · cases hjoined

theorem isTotal_separated (h : inner.IsTotal) : (separated separator inner threshold).IsTotal := by
  intro value length
  cases happly : (separated separator inner threshold).apply value length with
  | ok masked => exact ⟨masked, rfl⟩
  | error error =>
    obtain ⟨part, hpart⟩ := exists_part_of_separated_eq_error happly
    obtain ⟨masked, hmasked⟩ := h part (threshold.classify part)
    rw [hmasked] at hpart
    cases hpart

end Separated

/-! ### Documents -/

section Documents

variable {threshold : Threshold} {error : TransformError}

/-- A string fails only as its value does: what a transform makes of text is text. -/
theorem notJson_of_maskLeaf {transform : Transform} {leaf : Json} (hkeeps : transform.KeepsText)
    (hfails : transform.FailsAsNotJson) (h : maskLeaf transform threshold leaf = .error error) :
    error = .notJson := by
  obtain ⟨text, rfl, hleaf⟩ := exists_failsLeaf h
  rw [maskLeaf_of_ne_null hleaf.nonempty hleaf.quoting] at h
  obtain happly | ⟨masked, happly, -⟩ := bind_eq_error_iff.mp h
  · exact hfails happly
  · have hmasked : (Utf8.decode masked).isSome :=
      hkeeps.text (Utf8.isValid_encode text) happly
    rw [hleaf.result masked happly] at hmasked
    cases hmasked

theorem notJson_of_maskDocument {rules : List (Json.Path × Transform)} {doc : Json}
    (hrules : ∀ rule ∈ rules, rule.2.KeepsText ∧ rule.2.FailsAsNotJson)
    (h : maskDocument rules threshold doc = .error error) : error = .notJson := by
  induction rules generalizing doc with
  | nil => cases h
  | cons rule rest ih =>
    obtain ⟨hrule, hrest⟩ := List.forall_mem_cons.mp hrules
    rw [maskDocument, List.foldlM_cons] at h
    obtain hfirst | ⟨middle, -, hothers⟩ := bind_eq_error_iff.mp h
    · obtain ⟨position, leaf, -, -, hleaf⟩ := Json.exists_selected_of_modify_eq_error hfirst
      exact notJson_of_maskLeaf hrule.1 hrule.2 hleaf
    · exact ih hrest hothers

theorem failsAsNotJson_jsonFields {rules : List (Json.Path × Transform)}
    (hrules : ∀ rule ∈ rules, rule.2.KeepsText ∧ rule.2.FailsAsNotJson) :
    (jsonFields rules threshold).FailsAsNotJson := by
  intro value length error h
  rw [jsonFields, ofFn] at h
  dsimp only at h
  split at h
  · cases h
    rfl
  · exact notJson_of_maskDocument hrules (map_eq_error_iff.mp h)

end Documents

end Transform

/-! ### Rules -/

namespace FieldRule

open Transform (IsTotal FailsAsNotJson)

variable {setting : Setting} {column : String} {rule : FieldRule} {base transform : Transform}

theorem isTotal_of_simple (h : simple setting rule = .ok transform) : transform.IsTotal := by
  unfold simple at h
  dsimp only at h
  split at h
  · obtain ⟨text, -, htransform⟩ := bind_eq_ok_iff.mp h
    cases htransform
    exact fun _ _ => ⟨_, rfl⟩
  · cases h
    exact fun _ _ => ⟨_, rfl⟩
  · cases h
    exact fun _ _ => ⟨_, rfl⟩
  · cases h
    exact fun _ _ => ⟨_, rfl⟩
  · obtain ⟨domain, -, htransform⟩ := bind_eq_ok_iff.mp h
    cases htransform
    exact fun _ _ => ⟨_, rfl⟩
  · obtain ⟨count, -, htransform⟩ := bind_eq_ok_iff.mp h
    cases htransform
    exact fun _ _ => ⟨_, rfl⟩
  · obtain ⟨marker, -, htransform⟩ := bind_eq_ok_iff.mp h
    cases htransform
    exact fun _ _ => ⟨_, rfl⟩
  · cases h

theorem isTotal_of_separate {mode : Mode} {separator : Option Char} {threshold : Threshold}
    (hbase : base.IsTotal) (h : separate mode separator threshold base = .ok transform) :
    transform.IsTotal := by
  unfold separate at h
  split at h
  · cases h
    exact hbase
  · split at h
    · cases h
    · split at h
      · cases h
        exact Transform.isTotal_separated hbase
      · cases h

/-- Documents are not cut into parts. -/
theorem eq_of_separate_json {separator : Option Char} {threshold : Threshold}
    (h : separate .json separator threshold base = .ok transform) : transform = base := by
  cases separator with
  | none => exact (Except.ok.inj h).symm
  | some c => cases h

theorem isTotal_of_build (hmode : rule.mode ≠ .json)
    (h : build setting column rule = .ok transform) : transform.IsTotal := by
  obtain ⟨rules, hjson, -, -⟩ | ⟨base, hbase, hrule⟩ := build_cases h
  · exact absurd hjson hmode
  · exact isTotal_of_separate (isTotal_of_simple hbase) hrule

mutual

/-- The error of a rule inside a document is that of the document. -/
theorem failsAsNotJson_of_build {setting : Setting} {column : String} :
    ∀ {rule : FieldRule} {transform : Transform}, build setting column rule = .ok transform →
      transform.FailsAsNotJson
  | ⟨mode, fixed, length, domain, separator, marker, paths, quoting⟩, transform, h => by
    obtain ⟨rules, -, hrules, hrule⟩ | ⟨base, hbase, hrule⟩ := build_cases h
    · rw [eq_of_separate_json hrule]
      exact Transform.failsAsNotJson_jsonFields (failsAsNotJson_of_buildPaths hrules)
    · exact (isTotal_of_separate (isTotal_of_simple hbase) hrule).failsAsNotJson

theorem failsAsNotJson_of_buildPaths {setting : Setting} {column : String} :
    ∀ {paths : List (String × FieldRule)} {rules : List (Json.Path × Transform)},
      buildPaths setting column paths = .ok rules →
        ∀ rule ∈ rules, rule.2.KeepsText ∧ rule.2.FailsAsNotJson
  | [], rules, h => by
    rw [buildPaths] at h
    cases h
    exact List.forall_mem_nil _
  | (text, rule) :: rest, rules, h => by
    rw [buildPaths] at h
    obtain ⟨path, -, h⟩ := bind_eq_ok_iff.mp h
    obtain ⟨transform, htransform, h⟩ := bind_eq_ok_iff.mp h
    obtain ⟨others, hothers, h⟩ := bind_eq_ok_iff.mp h
    cases h
    exact List.forall_mem_cons.mpr
      ⟨⟨keepsText_of_build htransform, failsAsNotJson_of_build htransform⟩,
        failsAsNotJson_of_buildPaths hothers⟩

end

end FieldRule

end DumpMask
