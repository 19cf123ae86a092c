import DumpMask.Proofs.Digest.Keystream
import DumpMask.Proofs.Results
import DumpMask.Rules.Build
import Mathlib.Data.List.Forall2

/-!
# The shape of pseudonyms

What a value is replaced by can be told from the value but for the key octets: a long value becomes a
run of letters or digits as wide as the rule, the length of a digest and the threshold allow, and a
short one is replaced octet by octet within its classes. Main statement: the transform of every such
rule gives a result of this shape for every value, part by part where there is a separator, and the
result is no longer than the value unless a domain is put behind it. The last holds because the width
is capped by the same threshold that says which values are long.
-/

namespace DumpMask

/-! ### What stands before a mark -/

namespace Bytes

/-- What stands before the last mark, or everything where there is no mark. -/
theorem beforeLast_cases (mark : UInt8) (bytes : Bytes) :
    (∃ after, bytes = beforeLast mark bytes ++ mark :: after ∧ mark ∉ after) ∨
      (mark ∉ bytes ∧ beforeLast mark bytes = bytes) := by
  have hmark : mark ∉ bytes.reverse.takeWhile (· != mark) := by
    intro hmem
    simpa using List.all_eq_true.mp List.all_takeWhile mark hmem
  have hsplit := List.takeWhile_append_dropWhile (p := (· != mark)) (l := bytes.reverse)
  rw [beforeLast]
  split
  · next hdrop =>
    rw [hdrop, List.append_nil] at hsplit
    rw [hsplit, List.mem_reverse] at hmark
    exact .inr ⟨hmark, rfl⟩
  · next last before hdrop =>
    have hlast : last = mark := by
      have hnot := List.head?_dropWhile_not (· != mark) bytes.reverse
      rw [hdrop] at hnot
      simpa using hnot
    rw [hdrop, hlast] at hsplit
    have hbytes := congrArg List.reverse hsplit
    rw [List.reverse_reverse, List.reverse_append, List.reverse_cons, List.append_assoc,
      List.singleton_append] at hbytes
    exact .inl ⟨_, hbytes.symm, mt List.mem_reverse.mp hmark⟩

end Bytes

/-! ### Key octets -/

namespace Pseudonym

theorem pick_bounds {first last : UInt8} (hfirst : first ≤ last) (hlast : last < 0x80)
    (key : UInt8) : first ≤ pick first last key ∧ pick first last key ≤ last := by
  have hsub : (last - first).toNat = last.toNat - first.toNat := UInt8.toNat_sub_of_le _ _ hfirst
  simp only [UInt8.lt_iff_toNat_lt, UInt8.le_iff_toNat_le, UInt8.reduceToNat] at hfirst hlast ⊢
  have hwidth : (last - first + 1).toNat = last.toNat - first.toNat + 1 := by
    rw [UInt8.toNat_add, hsub, UInt8.toNat_one]
    omega
  have hmod : key.toNat % (last.toNat - first.toNat + 1) < last.toNat - first.toNat + 1 :=
    Nat.mod_lt _ (Nat.succ_pos _)
  rw [pick, UInt8.toNat_add, UInt8.toNat_mod, hwidth]
  omega

def isNonzeroDigit (b : UInt8) : Bool :=
  0x31 ≤ b && b ≤ 0x39

theorem isLower_pick (key : UInt8) : Ascii.isLower (pick 0x61 0x7A key) := by
  simpa [Ascii.isLower] using pick_bounds (by decide) (by decide) key

theorem isUpper_pick (key : UInt8) : Ascii.isUpper (pick 0x41 0x5A key) := by
  simpa [Ascii.isUpper] using pick_bounds (by decide) (by decide) key

theorem isDigit_pick (key : UInt8) : Ascii.isDigit (pick 0x30 0x39 key) := by
  simpa [Ascii.isDigit] using pick_bounds (by decide) (by decide) key

theorem isNonzeroDigit_pick (key : UInt8) : isNonzeroDigit (pick 0x31 0x39 key) := by
  simpa [isNonzeroDigit] using pick_bounds (by decide) (by decide) key

/-! ### Long values -/

/-- A run of octets of one class. -/
structure IsRun (inClass : UInt8 → Bool) (width : Nat) (masked : Bytes) : Prop where
  length : masked.length = width
  octets : ∀ b ∈ masked, inClass b

theorem isRun_readable (p : Pseudonym) {inClass : UInt8 → Bool} {first last : UInt8}
    (hpick : ∀ key, inClass (pick first last key)) (value : Bytes) :
    IsRun inClass p.width (p.readable first last value) := by
  constructor
  · rw [readable, List.length_map, Keystream.length_take]
  · intro b hb
    obtain ⟨key, -, rfl⟩ := List.mem_map.mp hb
    exact hpick key

theorem isRun_letters (p : Pseudonym) (value : Bytes) :
    IsRun Ascii.isLower p.width (p.letters value) :=
  p.isRun_readable isLower_pick value

theorem isRun_digits (p : Pseudonym) (value : Bytes) :
    IsRun isNonzeroDigit p.width (p.digits value) :=
  p.isRun_readable isNonzeroDigit_pick value

/-! ### Short values -/

/-- A letter or digit and one of its class, or any other octet and itself. -/
inductive KeepsClass : UInt8 → UInt8 → Prop
  | lower {old new : UInt8} (hold : Ascii.isLower old) (hnew : Ascii.isLower new) :
    KeepsClass old new
  | upper {old new : UInt8} (hold : Ascii.isUpper old) (hnew : Ascii.isUpper new) :
    KeepsClass old new
  | digit {old new : UInt8} (hold : Ascii.isDigit old) (hnew : Ascii.isDigit new) :
    KeepsClass old new
  | other {b : UInt8} (hb : ¬ Ascii.isAlphanumeric b) : KeepsClass b b

/-- Two digits, or any other octet and itself. -/
inductive KeepsDigit : UInt8 → UInt8 → Prop
  | digit {old new : UInt8} (hold : Ascii.isDigit old) (hnew : Ascii.isDigit new) :
    KeepsDigit old new
  | other {b : UInt8} (hb : ¬ Ascii.isDigit b) : KeepsDigit b b

/-- What stands before the first digit stays, the first digit becomes one from 1 to 9, and those
after it become any digits. -/
inductive KeepsNumber : Bytes → Bytes → Prop
  | nil : KeepsNumber [] []
  | other {b : UInt8} {value masked : Bytes} (hb : ¬ Ascii.isDigit b)
    (hrest : KeepsNumber value masked) : KeepsNumber (b :: value) (b :: masked)
  | first {old new : UInt8} {value masked : Bytes} (hold : Ascii.isDigit old)
    (hnew : isNonzeroDigit new) (hrest : List.Forall₂ KeepsDigit value masked) :
    KeepsNumber (old :: value) (new :: masked)

theorem isDigit_of_isNonzeroDigit {b : UInt8} (h : isNonzeroDigit b) : Ascii.isDigit b := by
  simp only [isNonzeroDigit, Ascii.isDigit, Bool.and_eq_true, decide_eq_true_eq] at h ⊢
  exact ⟨UInt8.le_trans (by decide) h.1, h.2⟩

theorem KeepsNumber.forall₂ {value masked : Bytes} (h : KeepsNumber value masked) :
    List.Forall₂ KeepsDigit value masked := by
  induction h with
  | nil => exact .nil
  | other hb _ ih => exact .cons (.other hb) ih
  | first hold hnew hrest => exact .cons (.digit hold (isDigit_of_isNonzeroDigit hnew)) hrest

theorem forall₂_substituteText {value keys : Bytes} (hlength : keys.length = value.length) :
    List.Forall₂ KeepsClass value (substituteText value keys) := by
  induction value generalizing keys with
  | nil => exact .nil
  | cons b rest ih =>
    cases keys with
    | nil => cases hlength
    | cons key keys =>
      rw [substituteText, List.zipWith_cons_cons, ← substituteText]
      refine .cons ?_ (ih (Nat.succ.inj hlength))
      by_cases hlower : Ascii.isLower b
      · rw [if_pos hlower]
        exact .lower hlower (isLower_pick key)
      by_cases hupper : Ascii.isUpper b
      · rw [if_neg hlower, if_pos hupper]
        exact .upper hupper (isUpper_pick key)
      by_cases hdigit : Ascii.isDigit b
      · rw [if_neg hlower, if_neg hupper, if_pos hdigit]
        exact .digit hdigit (isDigit_pick key)
      · rw [if_neg hlower, if_neg hupper, if_neg hdigit]
        exact .other (by simp [Ascii.isAlphanumeric, Ascii.isLetter, hlower, hupper, hdigit])

theorem forall₂_substituteDigits {value keys : Bytes} (hlength : keys.length = value.length) :
    List.Forall₂ KeepsDigit value (substituteDigits true value keys) := by
  induction value generalizing keys with
  | nil => exact .nil
  | cons b rest ih =>
    cases keys with
    | nil => cases hlength
    | cons key keys =>
      have hrest := ih (Nat.succ.inj hlength)
      rw [substituteDigits]
      by_cases hdigit : Ascii.isDigit b
      · rw [if_pos hdigit, if_pos rfl]
        exact .cons (.digit hdigit (isDigit_pick key)) hrest
      · rw [if_neg hdigit]
        exact .cons (.other hdigit) hrest

/-- The flag is set by the first digit, so up to there the octets are kept and from there on the
digits are free. -/
theorem keepsNumber_substituteDigits {value keys : Bytes} (hlength : keys.length = value.length) :
    KeepsNumber value (substituteDigits false value keys) := by
  induction value generalizing keys with
  | nil => exact .nil
  | cons b rest ih =>
    cases keys with
    | nil => cases hlength
    | cons key keys =>
      rw [substituteDigits]
      by_cases hdigit : Ascii.isDigit b
      · rw [if_pos hdigit, if_neg Bool.false_ne_true]
        exact .first hdigit (isNonzeroDigit_pick key)
          (forall₂_substituteDigits (Nat.succ.inj hlength))
      · rw [if_neg hdigit]
        exact .other hdigit (ih (Nat.succ.inj hlength))

theorem forall₂_shapedText (p : Pseudonym) (value : Bytes) :
    List.Forall₂ KeepsClass value (p.shapedText value) :=
  forall₂_substituteText (Keystream.length_take ..)

theorem keepsNumber_shapedDigits (p : Pseudonym) (value : Bytes) :
    KeepsNumber value (p.shapedDigits value) :=
  keepsNumber_substituteDigits (Keystream.length_take ..)

/-! ### Whole values -/

/-- The part of an address that is replaced: all of a long one; of a short one what stands before
its last at sign, or everything where there is none. -/
inductive IsReplacedPart (limit : Nat) : Bytes → Bytes → Prop
  | long {value : Bytes} (hlong : limit ≤ value.length) : IsReplacedPart limit value value
  | address {user host : Bytes} (hshort : (user ++ Ascii.atSign :: host).length < limit)
    (hlast : Ascii.atSign ∉ host) : IsReplacedPart limit (user ++ Ascii.atSign :: host) user
  | plain {value : Bytes} (hshort : value.length < limit) (hnone : Ascii.atSign ∉ value) :
    IsReplacedPart limit value value

/-- A value and a pseudonym of its shape, where values are long from `limit` octets on. -/
inductive HasShape (width limit : Nat) : Kind → Bytes → Bytes → Prop
  | letters {value masked : Bytes} (hlong : limit ≤ value.length)
    (hrun : IsRun Ascii.isLower width masked) : HasShape width limit .text value masked
  | text {value masked : Bytes} (hshort : value.length < limit)
    (hclass : List.Forall₂ KeepsClass value masked) : HasShape width limit .text value masked
  | digits {value masked : Bytes} (hlong : limit ≤ value.length)
    (hrun : IsRun isNonzeroDigit width masked) : HasShape width limit .integer value masked
  | number {value masked : Bytes} (hshort : value.length < limit)
    (hnumber : KeepsNumber value masked) : HasShape width limit .integer value masked
  | address {domain : String} {value part front : Bytes} (hpart : IsReplacedPart limit value part)
    (hfront : HasShape width limit .text part front) :
    HasShape width limit (.email domain) value (front ++ Ascii.atSign :: Utf8.encode domain)

theorem exists_replacedPart (limit : Nat) (value : Bytes) :
    IsReplacedPart limit value
      (if value.length < limit then Bytes.beforeLast Ascii.atSign value else value) := by
  split
  · next hshort =>
    obtain ⟨host, hvalue, hlast⟩ | ⟨hnone, hsame⟩ := Bytes.beforeLast_cases Ascii.atSign value
    · generalize Bytes.beforeLast Ascii.atSign value = user at hvalue ⊢
      subst hvalue
      exact .address hshort hlast
    · rw [hsame]
      exact .plain hshort hnone
  · next hlong => exact .long (Nat.le_of_not_lt hlong)

section Replace

variable {threshold : Threshold} {value part : Bytes}

theorem classify_of_lt (h : value.length < threshold.length) : threshold.classify value = .short :=
  if_pos h

theorem classify_of_le (h : threshold.length ≤ value.length) : threshold.classify value = .long :=
  if_neg (Nat.not_lt_of_le h)

theorem IsReplacedPart.classify_eq (h : IsReplacedPart threshold.length value part) :
    threshold.classify part = threshold.classify value := by
  cases h with
  | long => rfl
  | address hshort =>
    have hpart : part.length < threshold.length := by
      rw [List.length_append] at hshort
      omega
    rw [classify_of_lt hshort, classify_of_lt hpart]
  | plain => rfl

/-- The pseudonym of an address is that of the replaced part as text, with the domain behind it. -/
theorem exists_replace_email (secret : Bytes) (domain : String) (width : Nat)
    (threshold : Threshold) (value : Bytes) :
    ∃ part, IsReplacedPart threshold.length value part ∧
      replace ⟨secret, .email domain, width⟩ value (threshold.classify value) =
        replace ⟨secret, .text, width⟩ part (threshold.classify part) ++
          Ascii.atSign :: Utf8.encode domain := by
  have hpart := exists_replacedPart threshold.length value
  refine ⟨_, hpart, ?_⟩
  rw [hpart.classify_eq, Threshold.classify, Threshold.classOfLength]
  by_cases hshort : value.length < threshold.length
  · simp only [if_pos hshort]
    rfl
  · simp only [if_neg hshort]
    rfl

theorem hasShape_replace (p : Pseudonym) (threshold : Threshold) (value : Bytes) :
    HasShape p.width threshold.length p.kind value (p.replace value (threshold.classify value)) := by
  obtain ⟨secret, kind, width⟩ := p
  have htext (value : Bytes) : HasShape width threshold.length .text value
      (replace ⟨secret, .text, width⟩ value (threshold.classify value)) := by
    obtain hshort | hlong := Nat.lt_or_ge value.length threshold.length
    · rw [classify_of_lt hshort]
      exact .text hshort (forall₂_shapedText _ value)
    · rw [classify_of_le hlong]
      exact .letters hlong (isRun_letters ⟨secret, .text, width⟩ value)
  cases kind with
  | text => exact htext value
  | integer =>
    obtain hshort | hlong := Nat.lt_or_ge value.length threshold.length
    · rw [classify_of_lt hshort]
      exact .number hshort (keepsNumber_shapedDigits _ value)
    · rw [classify_of_le hlong]
      exact .digits hlong (isRun_digits _ value)
  | email domain =>
    obtain ⟨part, hpart, hmasked⟩ := exists_replace_email secret domain width threshold value
    rw [hmasked]
    exact .address hpart (htext part)

end Replace

/-- Nothing is put behind the value, so it need not grow. -/
def Kind.IsBare : Kind → Prop
  | .email _ => False
  | .text | .integer => True

theorem HasShape.length_le {width limit : Nat} {kind : Kind} {value masked : Bytes}
    (h : HasShape width limit kind value masked) (hwidth : width ≤ limit) (hkind : kind.IsBare) :
    masked.length ≤ value.length := by
  cases h with
  | letters hlong hrun =>
    rw [hrun.length]
    exact Nat.le_trans hwidth hlong
  | text hshort hclass => exact Nat.le_of_eq hclass.length_eq.symm
  | digits hlong hrun =>
    rw [hrun.length]
    exact Nat.le_trans hwidth hlong
  | number hshort hnumber => exact Nat.le_of_eq hnumber.forall₂.length_eq.symm
  | address => exact hkind.elim

/-! ### Parts -/

/-- A part between separators and what becomes of it. -/
inductive HasPartShape (width limit : Nat) (kind : Kind) : Bytes → Bytes → Prop
  | empty : HasPartShape width limit kind [] []
  | part {value masked : Bytes} (hvalue : value ≠ [])
    (hshape : HasShape width limit kind value masked) : HasPartShape width limit kind value masked

/-- A value and what becomes of it, as a whole or part by part between separators. -/
inductive IsMasked (width limit : Nat) (kind : Kind) : Option Char → Bytes → Bytes → Prop
  | whole {value masked : Bytes} (hshape : HasShape width limit kind value masked) :
    IsMasked width limit kind none value masked
  | parts {separator : Char} {value : Bytes} {parts : List Bytes}
    (hparts : List.Forall₂ (HasPartShape width limit kind) (value.splitOn separator.toUInt8)
      parts) :
    IsMasked width limit kind (some separator) value ([separator.toUInt8].intercalate parts)

theorem length_intercalate_le {separator : UInt8} {parts masked : List Bytes}
    (h : List.Forall₂ (fun part new => new.length ≤ part.length) parts masked) :
    ([separator].intercalate masked).length ≤ ([separator].intercalate parts).length := by
  induction h with
  | nil => exact Nat.le_refl _
  | cons hfirst hrest ih =>
    cases hrest with
    | nil =>
      rw [List.intercalate_singleton, List.intercalate_singleton]
      exact hfirst
    | cons hnext hrest =>
      rw [List.intercalate_cons_cons, List.intercalate_cons_cons]
      simp only [List.length_append]
      omega

theorem IsMasked.length_le {width limit : Nat} {kind : Kind} {separator : Option Char}
    {value masked : Bytes} (h : IsMasked width limit kind separator value masked)
    (hwidth : width ≤ limit) (hkind : kind.IsBare) : masked.length ≤ value.length := by
  cases h with
  | whole hshape => exact hshape.length_le hwidth hkind
  | @parts c _ parts hparts =>
    calc ([c.toUInt8].intercalate parts).length
        ≤ ([c.toUInt8].intercalate (value.splitOn c.toUInt8)).length := by
          apply length_intercalate_le
          refine hparts.imp fun part new hpart => ?_
          cases hpart with
          | empty => exact Nat.le_refl _
          | part hvalue hshape => exact hshape.length_le hwidth hkind
      _ = value.length := by rw [List.intercalate_splitOn]

/-- What becomes of a part. -/
def replacePart (p : Pseudonym) (threshold : Threshold) (part : Bytes) : Bytes :=
  if part.isEmpty then [] else p.replace part (threshold.classify part)

theorem separated_apply (p : Pseudonym) (separator : UInt8) (threshold : Threshold) (value : Bytes)
    (length : LengthClass) :
    (Transform.separated separator (.pseudonym p) threshold).apply value length =
      .ok ([separator].intercalate ((value.splitOn separator).map (p.replacePart threshold))) := by
  refine bind_eq_ok_iff.mpr ⟨_, mapM_eq_ok_iff.mpr ?_, rfl⟩
  rw [List.map_map]
  apply List.map_congr_left
  intro part _
  rw [Function.comp_apply, replacePart]
  split
  · rfl
  · rfl

theorem hasPartShape_replacePart (p : Pseudonym) (threshold : Threshold) (part : Bytes) :
    HasPartShape p.width threshold.length p.kind part (p.replacePart threshold part) := by
  rw [replacePart]
  split
  · next hempty =>
    rw [List.isEmpty_iff.mp hempty]
    exact .empty
  · next hne =>
    exact .part (mt List.isEmpty_iff.mpr hne) (p.hasShape_replace threshold part)

end Pseudonym

/-! ### Rules -/

namespace FieldRule

open Pseudonym (Kind IsReplacedPart IsMasked)

/-- The pseudonyms that a rule gives. -/
def pseudonymKind? (rule : FieldRule) : Option Kind :=
  match rule.mode with
  | .textHash => some .text
  | .intHash => some .integer
  | .emailHash => rule.domain.map .email
  | _ => none

variable {setting : Setting} {rule : FieldRule} {kind : Kind}

theorem isWhole_of_pseudonymKind? (h : rule.pseudonymKind? = some kind) :
    rule.mode.isWhole = false := by
  unfold pseudonymKind? at h
  cases hmode : rule.mode with
  | fixed | textHash | emailHash | intHash | substring => rfl
  | null | lines | json =>
    rw [hmode] at h
    cases h

theorem build_of_pseudonymKind? (column : String) (hlength : rule.length ≠ some 0)
    (hkind : rule.pseudonymKind? = some kind) :
    build setting column rule = (separate rule.mode rule.separator setting.threshold
      (.pseudonym (.make setting.secret kind rule.length setting.threshold))).mapError
        (⟨column, ·⟩) := by
  obtain ⟨mode, fixed, length, domain, separator, marker, paths, quoting⟩ := rule
  unfold build
  rw [if_neg hlength]
  cases mode with
  | textHash =>
    cases hkind
    rfl
  | intHash =>
    cases hkind
    rfl
  | emailHash =>
    obtain ⟨host, hdomain, rfl⟩ := Option.map_eq_some_iff.mp hkind
    cases hdomain
    rfl
  | fixed | null | substring | lines | json => cases hkind

theorem build_whole (column : String) (hlength : rule.length ≠ some 0)
    (hkind : rule.pseudonymKind? = some kind) (hseparator : rule.separator = none) :
    build setting column rule =
      .ok (.pseudonym (.make setting.secret kind rule.length setting.threshold)) := by
  rw [build_of_pseudonymKind? column hlength hkind, hseparator]
  rfl

theorem build_parts {separator : Char} (column : String) (hlength : rule.length ≠ some 0)
    (hkind : rule.pseudonymKind? = some kind) (hseparator : rule.separator = some separator)
    (hascii : separator.toNat < 0x80) :
    build setting column rule = .ok (.separated separator.toUInt8
      (.pseudonym (.make setting.secret kind rule.length setting.threshold))
      setting.threshold) := by
  have hwhole : ¬ rule.mode.isWhole := by
    rw [isWhole_of_pseudonymKind? hkind]
    exact Bool.false_ne_true
  rw [build_of_pseudonymKind? column hlength hkind, hseparator, separate, if_neg hwhole,
    if_pos hascii]
  rfl

theorem one_le_width (hlimit : 1 ≤ setting.threshold.length) (hlength : rule.length ≠ some 0) :
    1 ≤ min (min (rule.length.getD 32) 32) setting.threshold.length := by
  have hcount : 1 ≤ rule.length.getD 32 := by
    cases h : rule.length with
    | none => exact Nat.le_of_ble_eq_true rfl
    | some count =>
      rw [h] at hlength
      exact Nat.one_le_iff_ne_zero.mpr fun hzero => hlength (congrArg some hzero)
  omega

/-- **Pseudonyms have a shape and a size.** A rule for pseudonyms has a transform that gives a
result for every value. A long value becomes letters or digits of a width that is at least one and at
most that of the value, a short one keeps its length and the classes of its octets, and an address
gets the pseudonym of its replaced part as text, with the domain behind it. With a separator this
holds of each part by its own length. Without a domain the result is no longer than the value. -/
theorem build_pseudonym_shape (column : String) (hlimit : 1 ≤ setting.threshold.length)
    (hlength : rule.length ≠ some 0) (hkind : rule.pseudonymKind? = some kind)
    (hascii : ∀ separator, rule.separator = some separator → separator.toNat < 0x80) :
    let limit := setting.threshold.length
    let width := min (min (rule.length.getD 32) 32) limit
    1 ≤ width ∧ ∃ transform, build setting column rule = .ok transform ∧
      ∀ value, (limit ≤ value.length → width ≤ value.length) ∧
        ∃ masked, transform.apply value (setting.threshold.classify value) = .ok masked ∧
          IsMasked width limit kind rule.separator value masked ∧
          (kind.IsBare → masked.length ≤ value.length) ∧
          ∀ domain, kind = .email domain → rule.separator = none →
            ∃ text part front, build setting column { rule with mode := .textHash } = .ok text ∧
              IsReplacedPart limit value part ∧
              text.apply part (setting.threshold.classify part) = .ok front ∧
              masked = front ++ Ascii.atSign :: Utf8.encode domain := by
  intro limit width
  have hcap : width ≤ limit := Nat.min_le_right ..
  let p : Pseudonym := .make setting.secret kind rule.length setting.threshold
  refine ⟨one_le_width hlimit hlength, ?_⟩
  cases hseparator : rule.separator with
  | none =>
    refine ⟨_, build_whole column hlength hkind hseparator, fun value =>
      ⟨fun hlong => Nat.le_trans hcap hlong, _, rfl, ?_⟩⟩
    have hmasked : IsMasked width limit kind none value
        (p.replace value (setting.threshold.classify value)) :=
      .whole (p.hasShape_replace setting.threshold value)
    refine ⟨hmasked, hmasked.length_le hcap, ?_⟩
    rintro domain rfl -
    obtain ⟨part, hpart, hfront⟩ := Pseudonym.exists_replace_email setting.secret domain width
      setting.threshold value
    have htext : build setting column { rule with mode := .textHash } = .ok _ :=
      build_whole column hlength rfl hseparator
    rw [hseparator] at htext
    exact ⟨_, part, _, htext, hpart, rfl, hfront⟩
  | some separator =>
    have hbuild : build setting column rule = .ok _ :=
      build_parts column hlength hkind hseparator (hascii separator hseparator)
    refine ⟨_, hbuild, fun value => ⟨fun hlong => Nat.le_trans hcap hlong, _,
      Pseudonym.separated_apply p separator.toUInt8 setting.threshold value _, ?_⟩⟩
    have hmasked : IsMasked width limit kind (some separator) value
        ([separator.toUInt8].intercalate
          ((value.splitOn separator.toUInt8).map (p.replacePart setting.threshold))) := by
      refine .parts (List.forall₂_map_right_iff.mpr (List.forall₂_same.mpr ?_))
      intro part _
      exact p.hasPartShape_replacePart setting.threshold part
    exact ⟨hmasked, hmasked.length_le hcap, fun domain _ h => nomatch h⟩

/-- A short number, an empty part and a long number between commas. -/
theorem build_pseudonym_shape_numbers :
    let setting : Setting := ⟨ascii "key", ⟨4⟩⟩
    let rule : FieldRule := ⟨.intHash, none, some 3, none, some ',', none, [], .asInput⟩
    let value := ascii "x7,,12345"
    rule.length ≠ some 0 ∧ rule.pseudonymKind? = some .integer ∧
      ∃ transform masked, build setting "codes" rule = .ok transform ∧
        transform.apply value .long = .ok masked ∧
        IsMasked 3 4 .integer (some ',') value masked ∧ masked.length ≤ 9 := by
  intro setting rule value
  have hascii : ∀ separator, rule.separator = some separator → separator.toNat < 0x80 := by
    intro separator h
    cases h
    decide
  have hlimit : 1 ≤ setting.threshold.length := by decide
  obtain ⟨-, transform, hbuild, hvalues⟩ :=
    build_pseudonym_shape "codes" hlimit (by decide) rfl hascii
  obtain ⟨-, masked, happly, hmasked, hlength, -⟩ := hvalues value
  exact ⟨by decide, rfl, transform, masked, hbuild, happly, hmasked, hlength trivial⟩

end FieldRule

end DumpMask
