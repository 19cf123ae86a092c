import DumpMask.Proofs.Text.Decoding

/-!
# Well-formed text

Whether octets are well formed depends on the states of the machine alone, so a text may be cut and
joined wherever the machine stands at a boundary: beside an ASCII octet, and in front of any octet
that begins a character. Main statements: a text between ASCII separators is well formed part by
part, and replacing ASCII octets by ASCII octets leaves the other characters intact.
-/

namespace DumpMask

def Bytes.IsAscii (bytes : Bytes) : Prop :=
  ∀ b ∈ bytes, b < 0x80

instance (bytes : Bytes) : Decidable bytes.IsAscii :=
  List.decidableBAll (· < 0x80) bytes

namespace Bytes

theorem isAscii_nil : IsAscii [] :=
  fun _ h => nomatch h

theorem isAscii_cons_iff {b : UInt8} {rest : Bytes} :
    IsAscii (b :: rest) ↔ b < 0x80 ∧ IsAscii rest :=
  List.forall_mem_cons

theorem isAscii_append_iff {left right : Bytes} :
    IsAscii (left ++ right) ↔ IsAscii left ∧ IsAscii right :=
  List.forall_mem_append

theorem IsAscii.of_subset {part whole : Bytes} (h : whole.IsAscii) (hpart : part ⊆ whole) :
    part.IsAscii :=
  fun b hb => h b (hpart hb)

/-- What can be checked of one octet is settled by the 256 there are. -/
theorem forall_octet {p : UInt8 → Prop} (h : ∀ n : Fin 256, p (UInt8.ofNat n)) (b : UInt8) :
    p b := by
  have hoctet := h ⟨b.toNat, b.toNat_lt⟩
  rw [UInt8.ofNat_toNat] at hoctet
  exact hoctet

end Bytes

namespace Utf8

variable {state state' last : State} {b : UInt8} {bytes left right rest : Bytes}

/-! ### The states of the machine -/

def next? (state : State) (b : UInt8) : Option State :=
  (step state b).map Prod.fst

/-- The state that octets lead to, if the machine does not get stuck. -/
def after? (state : State) (bytes : Bytes) : Option State :=
  bytes.foldlM next? state

theorem after?_cons (state : State) (b : UInt8) (rest : Bytes) :
    after? state (b :: rest) = (next? state b).bind (after? · rest) :=
  List.foldlM_cons

theorem after?_append (state : State) (left right : Bytes) :
    after? state (left ++ right) = (after? state left).bind (after? · right) :=
  List.foldlM_append

theorem run_isSome_iff : (run state bytes).isSome ↔ after? state bytes = some .boundary := by
  induction bytes generalizing state with
  | nil => cases state <;> simp [run, after?]
  | cons b rest ih =>
    rw [run, after?_cons, next?]
    cases hstep : step state b with
    | none => simp
    | some result =>
      obtain ⟨next, char⟩ := result
      cases char <;> simp [ih]

theorem isValid_iff : isValid bytes ↔ after? .boundary bytes = some .boundary := by
  rw [isValid, decode, Option.isSome_map, run_isSome_iff]

/-- Octets that stand inside a character. -/
def IsTrail (b : UInt8) : Prop :=
  0x80 ≤ b ∧ b ≤ 0xBF

/-- Inside a character, the range for the next octet has trailing octets only. -/
def State.AwaitsTrail : State → Prop
  | .boundary => True
  | .inside _ low high _ => 0x80 ≤ low ∧ high ≤ 0xBF

theorem awaitsTrail_boundary : State.boundary.AwaitsTrail := trivial

theorem awaitsTrail_of_afterLead? (h : afterLead? b = some state) : state.AwaitsTrail := by
  unfold afterLead? at h
  repeat' split at h
  all_goals cases h
  all_goals exact ⟨by decide, by decide⟩

theorem awaitsTrail_of_next? (h : next? state b = some state') : state'.AwaitsTrail := by
  obtain ⟨⟨next, char⟩, hstep, rfl⟩ := Option.map_eq_some_iff.mp h
  cases state with
  | boundary =>
    rw [step] at hstep
    split at hstep
    · cases hstep
      trivial
    · obtain ⟨next, hlead, heq⟩ := Option.map_eq_some_iff.mp hstep
      cases heq
      exact awaitsTrail_of_afterLead? hlead
  | inside missing low high value =>
    rw [step] at hstep
    split at hstep
    · cases missing with
      | zero =>
        cases hstep
        trivial
      | succ missing =>
        cases hstep
        exact ⟨by decide, by decide⟩
    · cases hstep

theorem awaitsTrail_of_after? (hstate : state.AwaitsTrail) (h : after? state bytes = some last) :
    last.AwaitsTrail := by
  induction bytes generalizing state with
  | nil =>
    cases h
    exact hstate
  | cons b rest ih =>
    rw [after?_cons] at h
    obtain ⟨next, hnext, hrest⟩ := Option.bind_eq_some_iff.mp h
    exact ih (awaitsTrail_of_next? hnext) hrest

/-- Only between characters can an octet follow that is no trailing one. -/
theorem eq_boundary_of_next? (hstate : state.AwaitsTrail) (hb : ¬ IsTrail b)
    (h : next? state b = some state') : state = .boundary := by
  cases state with
  | boundary => rfl
  | inside missing low high value =>
    obtain ⟨⟨next, char⟩, hstep, -⟩ := Option.map_eq_some_iff.mp h
    rw [step] at hstep
    split at hstep
    · next hrange =>
      exact absurd ⟨UInt8.le_trans hstate.1 hrange.1, UInt8.le_trans hrange.2 hstate.2⟩ hb
    · cases hstep

theorem next?_ascii (hb : b < 0x80) : next? .boundary b = some .boundary := by
  rw [next?, step, if_pos hb]
  rfl

theorem not_isTrail_of_ascii (hb : b < 0x80) : ¬ IsTrail b :=
  fun htrail => UInt8.not_lt.mpr htrail.1 hb

/-- An octet that begins a character is no trailing one. -/
theorem not_isTrail_of_next? (h : next? .boundary b = some state) : ¬ IsTrail b := by
  rintro ⟨hlow, hhigh⟩
  have hlead : afterLead? b = none := by
    rw [afterLead?, if_pos (UInt8.lt_of_le_of_lt hhigh (by decide))]
  rw [next?, step, if_neg (UInt8.not_lt.mpr hlow), hlead] at h
  cases h

/-! ### Cutting and joining -/

theorem isValid_nil : isValid [] := rfl

theorem isValid_append (hleft : isValid left) (hright : isValid right) :
    isValid (left ++ right) := by
  rw [isValid_iff] at hleft hright ⊢
  rw [after?_append, hleft]
  exact hright

/-- Text is well formed on both sides of a place where no character goes on. -/
theorem isValid_append_iff (hhead : ∀ b ∈ right.head?, ¬ IsTrail b) :
    isValid (left ++ right) ↔ isValid left ∧ isValid right := by
  refine ⟨?_, fun h => isValid_append h.1 h.2⟩
  intro h
  rw [isValid_iff, after?_append] at h
  obtain ⟨middle, hmiddle, hlast⟩ := Option.bind_eq_some_iff.mp h
  have hboundary : middle = .boundary := by
    cases right with
    | nil => exact Option.some.inj hlast
    | cons b rest =>
      rw [after?_cons] at hlast
      obtain ⟨next, hnext, -⟩ := Option.bind_eq_some_iff.mp hlast
      have hawaits := awaitsTrail_of_after? awaitsTrail_boundary hmiddle
      exact eq_boundary_of_next? hawaits (hhead b rfl) hnext
  subst hboundary
  exact ⟨isValid_iff.mpr hmiddle, isValid_iff.mpr hlast⟩

theorem isValid_ascii_cons_iff (hb : b < 0x80) : isValid (b :: rest) ↔ isValid rest := by
  rw [isValid_iff, isValid_iff, after?_cons, next?_ascii hb, Option.bind_some]

theorem isValid_append_ascii_cons_iff (hb : b < 0x80) :
    isValid (left ++ b :: right) ↔ isValid left ∧ isValid right := by
  rw [isValid_append_iff, isValid_ascii_cons_iff hb]
  intro head hhead
  cases hhead
  exact not_isTrail_of_ascii hb

theorem isValid_ascii_append_iff (hleft : left.IsAscii) :
    isValid (left ++ right) ↔ isValid right := by
  induction left with
  | nil => rfl
  | cons b rest ih =>
    obtain ⟨hb, hrest⟩ := List.forall_mem_cons.mp hleft
    rw [List.cons_append, isValid_ascii_cons_iff hb, ih hrest]

theorem isValid_of_isAscii (h : bytes.IsAscii) : isValid bytes := by
  rw [← List.append_nil bytes, isValid_ascii_append_iff h]
  rfl

theorem isValid_append_ascii_iff (hright : right.IsAscii) :
    isValid (left ++ right) ↔ isValid left := by
  rw [isValid_append_iff, and_iff_left (isValid_of_isAscii hright)]
  intro b hb
  exact not_isTrail_of_ascii (hright b (List.mem_of_mem_head? hb))

theorem isValid_iff_exists_encode : isValid bytes ↔ ∃ text, encode text = bytes := by
  simp only [isValid, Option.isSome_iff_exists, decode_eq_some_iff]

theorem isValid_encode (text : String) : isValid (encode text) :=
  isValid_iff_exists_encode.mpr ⟨text, rfl⟩

/-- What stands in front of a well-formed part is well formed. -/
theorem isValid_of_append_append {needle : Bytes} (h : isValid (left ++ (needle ++ right)))
    (hneedle : isValid needle) (hne : needle ≠ []) : isValid left := by
  have hhead : ∀ b ∈ (needle ++ right).head?, ¬ IsTrail b := by
    cases needle with
    | nil => exact absurd rfl hne
    | cons first rest =>
      intro b hb
      cases hb
      rw [isValid_iff, after?_cons] at hneedle
      obtain ⟨next, hnext, -⟩ := Option.bind_eq_some_iff.mp hneedle
      exact not_isTrail_of_next? hnext
  exact ((isValid_append_iff hhead).mp h).1

/-- Text between ASCII separators is well formed part by part. -/
theorem isValid_intercalate_iff {separator : UInt8} (hseparator : separator < 0x80)
    {parts : List Bytes} :
    isValid ([separator].intercalate parts) ↔ ∀ part ∈ parts, isValid part := by
  induction parts with
  | nil => simp [isValid_nil]
  | cons part rest ih =>
    cases rest with
    | nil => simp
    | cons next rest =>
      rw [List.intercalate_cons_cons, List.append_assoc, List.singleton_append,
        isValid_append_ascii_cons_iff hseparator, ih]
      simp only [List.forall_mem_cons]

theorem isValid_of_mem_splitOn {separator : UInt8} (hseparator : separator < 0x80)
    (h : isValid bytes) : ∀ part ∈ bytes.splitOn separator, isValid part := by
  rw [← isValid_intercalate_iff hseparator, List.intercalate_splitOn]
  exact h

theorem isValid_takeChars (h : isValid bytes) (count : Nat) : isValid (takeChars count bytes) := by
  obtain ⟨text, htext⟩ := Option.isSome_iff_exists.mp h
  obtain ⟨chars, hchars, -⟩ := Option.map_eq_some_iff.mp htext
  rw [takeChars, hchars]
  dsimp only
  rw [← encode_ofList]
  exact isValid_encode _

/-! ### Edits -/

/-- Some ASCII octets are replaced, each by ASCII octets; all else is kept. -/
inductive Edits : Bytes → Bytes → Prop where
  | nil : Edits [] []
  | keep (b : UInt8) {old new : Bytes} (hrest : Edits old new) : Edits (b :: old) (b :: new)
  | replace {b : UInt8} {piece old new : Bytes} (hb : b < 0x80) (hpiece : piece.IsAscii)
    (hrest : Edits old new) : Edits (b :: old) (piece ++ new)

theorem Edits.erase {old new : Bytes} (hb : b < 0x80) (hrest : Edits old new) :
    Edits (b :: old) new :=
  .replace hb Bytes.isAscii_nil hrest

theorem Edits.after?_eq {old new : Bytes} (h : Edits old new) (hstate : state.AwaitsTrail)
    (hold : after? state old = some .boundary) : after? state new = some .boundary := by
  induction h generalizing state with
  | nil => exact hold
  | keep b hrest ih =>
    rw [after?_cons] at hold ⊢
    obtain ⟨next, hnext, hrest⟩ := Option.bind_eq_some_iff.mp hold
    rw [hnext]
    exact ih (awaitsTrail_of_next? hnext) hrest
  | replace hb hpiece hrest ih =>
    rw [after?_cons] at hold
    obtain ⟨next, hnext, hrest⟩ := Option.bind_eq_some_iff.mp hold
    have hstart := eq_boundary_of_next? hstate (not_isTrail_of_ascii hb) hnext
    subst hstart
    rw [next?_ascii hb] at hnext
    cases hnext
    have hnew := isValid_iff.mpr (ih awaitsTrail_boundary hrest)
    exact isValid_iff.mp ((isValid_ascii_append_iff hpiece).mpr hnew)

/-- **Edits keep text well formed.** -/
theorem Edits.isValid {old new : Bytes} (h : Edits old new) (hold : Utf8.isValid old) :
    Utf8.isValid new :=
  isValid_iff.mpr (h.after?_eq awaitsTrail_boundary (isValid_iff.mp hold))

/-- A replacement octet by octet. -/
theorem edits_flatMap {f : UInt8 → Bytes} (hf : ∀ b, (b < 0x80 ∧ (f b).IsAscii) ∨ f b = [b])
    (bytes : Bytes) : Edits bytes (bytes.flatMap f) := by
  induction bytes with
  | nil => exact .nil
  | cons b rest ih =>
    rw [List.flatMap_cons]
    obtain ⟨hb, hpiece⟩ | hkeep := hf b
    · exact .replace hb hpiece ih
    · rw [hkeep]
      exact .keep b ih

end Utf8

end DumpMask
