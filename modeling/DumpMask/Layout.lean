import DumpMask.Bytes

/-!
# Layouts

A layout is a text with slots: the contents of each slot, the fixed text before it, and the fixed
text after the last one. Cutting a text into a layout loses nothing, since `Layout.text` puts it
together again; replacing the contents leaves the fixed text alone.
-/

namespace DumpMask

/-- A slot of a layout and the fixed text that leads up to it. -/
structure Layout.Slot where
  lead : Bytes
  content : Bytes
deriving DecidableEq, Repr

structure Layout where
  slots : List Layout.Slot
  tail : Bytes
deriving DecidableEq, Repr

namespace Layout

def Slot.text (slot : Slot) : Bytes :=
  slot.lead ++ slot.content

/-- The whole text. -/
def text (layout : Layout) : Bytes :=
  layout.slots.flatMap Slot.text ++ layout.tail

def contents (layout : Layout) : List Bytes :=
  layout.slots.map Slot.content

/-- The fixed text: what leads up to each slot, and the tail. -/
def fixed (layout : Layout) : List Bytes :=
  layout.slots.map Slot.lead ++ [layout.tail]

/-- Puts new contents into the slots, in order. -/
def fill (layout : Layout) (contents : List Bytes) : Layout :=
  { layout with slots := layout.slots.zipWith (fun slot content => ⟨slot.lead, content⟩) contents }

/-- A further slot in front of the others. -/
def cons (slot : Slot) (layout : Layout) : Layout :=
  { layout with slots := slot :: layout.slots }

/-- Text added in front of the first slot. -/
def prepend (before : Bytes) (layout : Layout) : Layout :=
  match layout.slots with
  | [] => ⟨[], before ++ layout.tail⟩
  | slot :: rest => ⟨⟨before ++ slot.lead, slot.content⟩ :: rest, layout.tail⟩

/-- Text added at the end. -/
def append (layout : Layout) (after : Bytes) : Layout :=
  { layout with tail := layout.tail ++ after }

/-- The half-open ranges that the slots take up in the text, which begins at `start`. -/
def spansFrom (start : Nat) : List Slot → List (Nat × Nat)
  | [] => []
  | slot :: rest =>
    let first := start + slot.lead.length
    let last := first + slot.content.length
    (first, last) :: spansFrom last rest

def spans (layout : Layout) : List (Nat × Nat) :=
  spansFrom 0 layout.slots

@[simp]
theorem text_singleton (slot : Slot) (tail : Bytes) :
    text ⟨[slot], tail⟩ = slot.lead ++ slot.content ++ tail := by
  simp [text, Slot.text]

@[simp]
theorem text_cons (slot : Slot) (layout : Layout) :
    (layout.cons slot).text = slot.lead ++ slot.content ++ layout.text := by
  simp [cons, text, Slot.text]

@[simp]
theorem text_prepend (before : Bytes) (layout : Layout) :
    (layout.prepend before).text = before ++ layout.text := by
  cases hslots : layout.slots <;> simp [prepend, text, Slot.text, hslots]

@[simp]
theorem text_append (layout : Layout) (after : Bytes) :
    (layout.append after).text = layout.text ++ after := by
  simp [append, text]

@[simp]
theorem prepend_nil (layout : Layout) : layout.prepend [] = layout := by
  obtain ⟨slots, tail⟩ := layout
  cases slots <;> rfl

@[simp]
theorem append_nil (layout : Layout) : layout.append [] = layout := by
  simp [append]

@[simp]
theorem contents_prepend (before : Bytes) (layout : Layout) :
    (layout.prepend before).contents = layout.contents := by
  cases hslots : layout.slots <;> simp [prepend, contents, hslots]

@[simp]
theorem contents_append (layout : Layout) (after : Bytes) :
    (layout.append after).contents = layout.contents := rfl

theorem fixed_fill (layout : Layout) (contents : List Bytes)
    (hlength : contents.length = layout.slots.length) :
    (layout.fill contents).fixed = layout.fixed := by
  have hleads : ∀ (slots : List Slot) (contents : List Bytes), contents.length = slots.length →
      (slots.zipWith (fun slot content => Slot.mk slot.lead content) contents).map Slot.lead =
        slots.map Slot.lead := by
    intro slots
    induction slots with
    | nil => intro contents _; cases contents <;> rfl
    | cons slot rest ih =>
      intro contents h
      cases contents with
      | nil => simp at h
      | cons content others => simp [ih others (by simpa using h)]
  simp [fill, fixed, hleads _ _ hlength]

theorem contents_fill (layout : Layout) (contents : List Bytes)
    (hlength : contents.length = layout.slots.length) :
    (layout.fill contents).contents = contents := by
  have hcontents : ∀ (slots : List Slot) (contents : List Bytes), contents.length = slots.length →
      (slots.zipWith (fun slot content => Slot.mk slot.lead content) contents).map Slot.content =
        contents := by
    intro slots
    induction slots with
    | nil => intro contents h; simp_all
    | cons slot rest ih =>
      intro contents h
      cases contents with
      | nil => simp at h
      | cons content others => simp [ih others (by simpa using h)]
  simp [fill, Layout.contents, hcontents _ _ hlength]

/-- A layout with the same fixed text differs in the contents only. -/
theorem eq_fill_of_fixed_eq {layout layout' : Layout} (h : layout'.fixed = layout.fixed) :
    layout' = layout.fill layout'.contents := by
  have hslots : ∀ {slots slots' : List Slot}, slots'.map Slot.lead = slots.map Slot.lead →
      slots' =
        slots.zipWith (fun slot content => ⟨slot.lead, content⟩) (slots'.map Slot.content) := by
    intro slots slots' hleads
    induction slots' generalizing slots with
    | nil => simp
    | cons slot' rest' ih =>
      cases slots with
      | nil => cases hleads
      | cons slot rest =>
        obtain ⟨hlead, hrest⟩ := List.cons.inj hleads
        rw [List.map_cons, List.zipWith_cons_cons, ← ih hrest, ← hlead]
  obtain ⟨slots, tail⟩ := layout
  obtain ⟨slots', tail'⟩ := layout'
  obtain ⟨hleads, htail⟩ := List.append_inj' h rfl
  cases htail
  exact congrArg (Layout.mk · tail) (hslots hleads)

@[simp]
theorem length_contents (layout : Layout) : layout.contents.length = layout.slots.length :=
  List.length_map ..

theorem fill_cons (slot : Slot) (layout : Layout) (content : Bytes) (contents : List Bytes) :
    (layout.cons slot).fill (content :: contents) =
      (layout.fill contents).cons ⟨slot.lead, content⟩ := rfl

theorem fill_append (layout : Layout) (after : Bytes) (contents : List Bytes) :
    (layout.append after).fill contents = (layout.fill contents).append after := rfl

theorem fill_prepend (before : Bytes) (layout : Layout) (contents : List Bytes)
    (hlength : contents.length = layout.slots.length) :
    (layout.prepend before).fill contents = (layout.fill contents).prepend before := by
  obtain ⟨slots, tail⟩ := layout
  cases slots with
  | nil => rfl
  | cons slot rest =>
    cases contents with
    | nil => cases hlength
    | cons content others => rfl

/-- The ranges cut the contents out of the text. -/
theorem extract_spansFrom (before : Bytes) (slots : List Slot) (tail : Bytes) :
    (spansFrom before.length slots).map
        (fun span => (before ++ (Layout.mk slots tail).text).extract span.1 span.2) =
      slots.map Slot.content := by
  induction slots generalizing before with
  | nil => rfl
  | cons slot rest ih =>
    have htext : before ++ (Layout.mk (slot :: rest) tail).text =
        before ++ slot.lead ++ slot.content ++ (Layout.mk rest tail).text := by
      simp [text, Slot.text]
    have hfirst : (before ++ slot.lead ++ slot.content ++ (Layout.mk rest tail).text).extract
        (before.length + slot.lead.length)
        (before.length + slot.lead.length + slot.content.length) = slot.content := by
      rw [List.extract, ← List.length_append, List.append_assoc _ slot.content,
        List.drop_left, Nat.add_sub_cancel_left, List.take_left]
    have hrest := ih (before ++ slot.lead ++ slot.content)
    rw [List.length_append, List.length_append] at hrest
    rw [spansFrom, List.map_cons, List.map_cons, htext, hfirst, hrest]

/-- The ranges lie in the text. -/
theorem bounds_of_mem_spansFrom {start : Nat} {slots : List Slot} {span : Nat × Nat}
    (h : span ∈ spansFrom start slots) :
    span.1 ≤ span.2 ∧ span.2 ≤ start + (slots.flatMap Slot.text).length := by
  induction slots generalizing start with
  | nil => cases h
  | cons slot rest ih =>
    have htext : ((slot :: rest).flatMap Slot.text).length =
        slot.lead.length + slot.content.length + (rest.flatMap Slot.text).length := by
      rw [List.flatMap_cons, List.length_append, Slot.text, List.length_append]
    rcases List.mem_cons.mp h with rfl | hrest
    · dsimp only
      omega
    · have hbounds := ih hrest
      omega

theorem spans_prepend (before : Bytes) (layout : Layout) :
    (layout.prepend before).spans = spansFrom before.length layout.slots := by
  obtain ⟨slots, tail⟩ := layout
  cases slots with
  | nil => rfl
  | cons slot rest => simp [spans, prepend, spansFrom]

end Layout

end DumpMask
