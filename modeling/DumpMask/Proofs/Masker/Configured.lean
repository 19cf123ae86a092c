import DumpMask.Masker.Configure
import DumpMask.Proofs.Assoc
import DumpMask.Proofs.Masker.Text
import DumpMask.Proofs.Transform.Failures

/-!
# Maskers of rules

A configured masker starts without rules, and each rule of the document adds a transform or drops a
table. So every transform that it has is that of a rule, and what holds of all rules holds of the
masker: it keeps text, and a value that it cannot mask is told by its column and its length alone.
-/

namespace DumpMask.Masker

variable {masker : Masker}

/-! ### Building up -/

section Steps

variable {motive : Masker → Prop} {setting : FieldRule.Setting}
  (hregister : ∀ {masker} table {column rule transform}, motive masker →
    FieldRule.build setting column rule = .ok transform →
      motive (masker.register ⟨table, column⟩ transform))
  (htruncate : ∀ {masker} table, motive masker → motive (masker.truncate table))
include hregister

theorem of_addColumns {table : String} {rules : List (String × FieldRule)} {out : Masker}
    (hmasker : motive masker) (h : addColumns setting table masker rules = .ok out) :
    motive out := by
  induction rules generalizing masker with
  | nil =>
    cases h
    exact hmasker
  | cons entry rest ih =>
    rw [addColumns] at h
    split at h
    · next transform hbuild => exact ih (hregister table hmasker hbuild) h
    · cases h

include htruncate

theorem of_addTables {tables : List (String × TableRule)} {out : Masker} (hmasker : motive masker)
    (h : addTables setting masker tables = .ok out) : motive out := by
  induction tables generalizing masker with
  | nil =>
    cases h
    exact hmasker
  | cons entry rest ih =>
    obtain ⟨table, rule⟩ := entry
    cases rule with
    | truncate =>
      rw [addTables] at h
      exact ih (htruncate table hmasker) h
    | columns rules =>
      rw [addTables] at h
      obtain ⟨middle, hcolumns, hrest⟩ := bind_eq_ok_iff.mp h
      exact ih (of_addColumns hregister hmasker hcolumns) hrest

end Steps

/-- What holds of a masker without rules, and stays true as rules are added, holds of every
configured masker. -/
theorem of_ofRules {motive : Masker → Prop} (hempty : ∀ threshold, motive (.empty threshold))
    (hregister : ∀ {masker} setting table {column rule transform}, motive masker →
      FieldRule.build setting column rule = .ok transform →
        motive (masker.register ⟨table, column⟩ transform))
    (htruncate : ∀ {masker} table, motive masker → motive (masker.truncate table))
    {rules : Rules} (h : ofRules rules = .ok masker) : motive masker := by
  obtain ⟨-, -, h⟩ := bind_eq_ok_iff.mp h
  obtain ⟨threshold, -, h⟩ := bind_eq_ok_iff.mp h
  exact of_addTables (hregister _) htruncate (hempty threshold) h

theorem exists_ofRules {text : String} (h : ofDocument text = .ok masker) :
    ∃ rules, ofRules rules = .ok masker := by
  unfold ofDocument at h
  split at h
  · exact ⟨_, h⟩
  · cases h

theorem transforms_truncate (masker : Masker) (table : String) :
    (masker.truncate table).transforms = masker.transforms := by
  rw [truncate]
  split <;> rfl

/-- Every transform of the masker is that of a rule of its column. -/
def FromRules (masker : Masker) : Prop :=
  ∀ column transform, masker.resolve? column = some transform →
    ∃ setting rule, FieldRule.build setting column.column rule = .ok transform

theorem fromRules_of_ofRules {rules : Rules} (h : ofRules rules = .ok masker) :
    masker.FromRules := by
  refine of_ofRules (motive := FromRules) (fun _ _ _ h => nomatch h) ?_ ?_ h
  · intro masker setting table column rule transform hmasker hbuild other found hfound
    rw [resolve?_register] at hfound
    split at hfound
    · next hother =>
      subst hother
      cases hfound
      exact ⟨setting, rule, hbuild⟩
    · exact hmasker other found hfound
  · intro masker table hmasker column transform hresolve
    rw [resolve?, transforms_truncate] at hresolve
    exact hmasker column transform hresolve

theorem nodup_columns {rules : Rules} (h : ofRules rules = .ok masker) : masker.columns.Nodup := by
  refine of_ofRules (motive := fun masker => masker.columns.Nodup) (fun _ => List.nodup_nil) ?_ ?_ h
  · intro masker setting table column rule transform hmasker _
    exact Assoc.nodup_keys_insert hmasker _ _
  · intro masker table hmasker
    rw [columns, transforms_truncate]
    exact hmasker

theorem keepsText_of_ofDocument {text : String} (h : ofDocument text = .ok masker) :
    masker.KeepsText := by
  obtain ⟨rules, hrules⟩ := exists_ofRules h
  intro column transform hresolve
  obtain ⟨setting, rule, hbuild⟩ := fromRules_of_ofRules hrules column transform hresolve
  exact FieldRule.keepsText_of_build hbuild

/-! ### Failures -/

theorem failure_of_apply {rules : Rules} (h : ofRules rules = .ok masker) {column : ColumnId}
    {value : Bytes} {failure : TransformFailure}
    (hfailure : masker.apply column value = .error failure) :
    failure = ⟨column, value.length, .notJson⟩ := by
  rw [apply] at hfailure
  split at hfailure
  · next transform hresolve =>
    obtain ⟨setting, rule, hbuild⟩ := fromRules_of_ofRules h column transform hresolve
    rw [applyWith] at hfailure
    split at hfailure
    · cases hfailure
    · split at hfailure
      · cases hfailure
      · next reason hreason =>
        cases hfailure
        rw [FieldRule.failsAsNotJson_of_build hbuild hreason]
  · cases hfailure

/-- **A failure tells a value by its length.** Only a rule that masks documents fails, and only
because a value, or a string at any depth of it, holds no document. A configured masker adds the
column and the length, so values of one length fail alike. -/
theorem failures_tell_length :
    (∀ setting column rule transform, FieldRule.build setting column rule = .ok transform →
      (rule.mode ≠ .json → ∀ value length, ∃ masked, transform.apply value length = .ok masked) ∧
      ∀ value length error, transform.apply value length = .error error →
        error.message = "value is not valid JSON") ∧
    ∀ rules masker, ofRules rules = .ok masker →
      ∀ column value failure, masker.apply column value = .error failure →
        failure = ⟨column, value.length, .notJson⟩ ∧
        ∀ other failure', other.length = value.length →
          masker.apply column other = .error failure' → failure' = failure := by
  constructor
  · intro setting column rule transform hbuild
    refine ⟨fun hmode => FieldRule.isTotal_of_build hmode hbuild, ?_⟩
    intro value length error herror
    rw [FieldRule.failsAsNotJson_of_build hbuild herror]
    rfl
  · intro rules masker hmasker column value failure hfailure
    have htold := failure_of_apply hmasker hfailure
    refine ⟨htold, ?_⟩
    intro other failure' hlength hfailure'
    rw [htold, failure_of_apply hmasker hfailure', hlength]

/-- A rule cuts the parts of a value, and another one expects a document inside a document. -/
theorem failures_tell_length_nested :
    let parts : FieldRule := ⟨.substring, none, some 1, none, some ',', none, [], .asInput⟩
    let inner : FieldRule := ⟨.json, none, none, none, none, none, [("k", parts)], .asInput⟩
    let outer : FieldRule := ⟨.json, none, none, none, none, none, [("d", inner)], .asInput⟩
    let rules : Rules := ⟨none, "", some 1, [("t", .columns [("a", outer)])]⟩
    let column : ColumnId := ⟨"t", "a"⟩
    let value := ascii "\x7b\"d\":\"ann\"\x7d"
    let other := ascii "\x7b\"d\":\"bob\"\x7d"
    (∃ transform, FieldRule.build ⟨[], ⟨1⟩⟩ "a" parts = .ok transform ∧
      ∃ masked, transform.apply value .long = .ok masked) ∧
    (∃ transform, FieldRule.build ⟨[], ⟨1⟩⟩ "a" outer = .ok transform ∧
      ∃ error, transform.apply value .long = .error error ∧
        error.message = "value is not valid JSON") ∧
    ∃ masker failure, ofRules rules = .ok masker ∧ masker.apply column value = .error failure ∧
      masker.apply column other = .error failure ∧ failure = ⟨column, 11, .notJson⟩ := by
  intro parts inner outer rules column value other
  have hcut : (FieldRule.build ⟨[], ⟨1⟩⟩ "a" parts).toOption.isSome := by decide +kernel
  obtain ⟨cut, hcut⟩ := Option.isSome_iff_exists.mp hcut
  have hparts := (failures_tell_length.1 _ _ _ _ (eq_ok_of_toOption hcut)).1 (by decide)
  have houter : ((FieldRule.build ⟨[], ⟨1⟩⟩ "a" outer).toOption.map fun transform =>
      (transform.apply value .long).toOption) = some none := by decide +kernel
  obtain ⟨transform, hbuild, hfails⟩ := Option.map_eq_some_iff.mp houter
  have hbuild := eq_ok_of_toOption hbuild
  obtain ⟨error, herror⟩ := exists_error_of_toOption hfails
  have hmessage := (failures_tell_length.1 _ _ _ _ hbuild).2 _ _ _ herror
  have hrules : ((ofRules rules).toOption.map fun masker =>
      ((masker.apply column value).toOption, (masker.apply column other).toOption)) =
        some (none, none) := by decide +kernel
  obtain ⟨masker, hmasker, hboth⟩ := Option.map_eq_some_iff.mp hrules
  obtain ⟨hvalue, hother⟩ := Prod.mk.inj hboth
  have hmasker := eq_ok_of_toOption hmasker
  obtain ⟨failure, hvalue⟩ := exists_error_of_toOption hvalue
  obtain ⟨failure', hother⟩ := exists_error_of_toOption hother
  obtain ⟨htold, halike⟩ := failures_tell_length.2 _ _ hmasker _ _ _ hvalue
  have hlength : value.length = 11 := by decide +kernel
  have hsame : other.length = value.length := by decide +kernel
  obtain rfl := halike other failure' hsame hother
  rw [hlength] at htold
  exact ⟨⟨cut, eq_ok_of_toOption hcut, hparts value .long⟩,
    ⟨transform, hbuild, error, herror, hmessage⟩,
    ⟨masker, failure', hmasker, hvalue, hother, htold⟩⟩

end DumpMask.Masker
