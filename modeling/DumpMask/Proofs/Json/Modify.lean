import DumpMask.Json.Modify
import DumpMask.Proofs.Json.Positions
import DumpMask.Proofs.Results

/-!
# What a change along a path does

A path selects positions: a name selects that member, an index that item, and a wildcard every item.
A change that turns scalars into scalars and keeps containers leaves the outline of a document
alone, so a later path selects the positions that it would have selected before. Main statements:
the change reaches exactly the selected scalars, and it fails only if it fails at one selected
place.
-/

namespace DumpMask.Json

def Segment.selects : Segment → Step → Bool
  | .key name, .member other => other == name
  | .each, .item _ => true
  | .index n, .item i => i == n
  | _, _ => false

def Path.selects : Path → Position → Bool
  | [], [] => true
  | segment :: path, step :: position => segment.selects step && Path.selects path position
  | _, _ => false

variable {ε : Type} {change : Json → Except ε Json} {segment : Segment} {path : Path}
  {node node' : Json} {step : Step} {position : Position}

/-! ### One segment -/

/-- Puts a value in the place of what a step leads to. -/
def setChild (node : Json) (step : Step) (value : Json) : Json :=
  match node, step with
  | .object members, .member name => .object (Assoc.insert name value members)
  | .array items, .item index => .array (items.set index value)
  | node, _ => node

theorem child?_setChild {child : Json} (h : node.child? step = some child) (value : Json)
    (other : Step) :
    (node.setChild step value).child? other =
      if other = step then some value else node.child? other := by
  cases node with
  | array items =>
    cases step with
    | member name => cases h
    | item i =>
      cases other with
      | member name => rfl
      | item j =>
        have hi : i < items.length := (List.getElem?_eq_some_iff.mp h).1
        rw [setChild, child?, List.getElem?_set, if_pos hi, child?]
        simp only [eq_comm, Step.item.injEq]
  | object members =>
    cases step with
    | item i => cases h
    | member name =>
      cases other with
      | item j => rfl
      | member other =>
        rw [setChild, child?, Assoc.find?_insert, child?]
        simp only [eq_comm, Step.member.injEq]
  | _ => cases h

theorem outlineItems_set {items : List Json} {i : Nat} {child value : Json}
    (h : items[i]? = some child) (houtline : value.outline = child.outline) :
    outlineItems (items.set i value) = outlineItems items := by
  induction items generalizing i with
  | nil => cases h
  | cons item rest ih =>
    cases i with
    | zero =>
      cases h
      rw [List.set_cons_zero, outlineItems, outlineItems, houtline]
    | succ i => rw [List.set_cons_succ, outlineItems, outlineItems, ih h]

theorem outlineMembers_insert {name : String} {members : List (String × Json)} {child value : Json}
    (h : Assoc.find? name members = some child) (houtline : value.outline = child.outline) :
    outlineMembers (Assoc.insert name value members) = outlineMembers members := by
  induction members with
  | nil => cases h
  | cons member rest ih =>
    obtain ⟨n, old⟩ := member
    rw [Assoc.find?] at h
    rw [Assoc.insert]
    split
    · next hname =>
      rw [if_pos hname] at h
      cases h
      rw [outlineMembers, outlineMembers, houtline]
    · next hname =>
      rw [if_neg hname] at h
      rw [outlineMembers, outlineMembers, ih h]

theorem outline_setChild {child value : Json} (h : node.child? step = some child)
    (houtline : value.outline = child.outline) :
    (node.setChild step value).outline = node.outline := by
  cases node with
  | array items =>
    cases step with
    | member name => cases h
    | item i => exact congrArg Json.array (outlineItems_set h houtline)
  | object members =>
    cases step with
    | item i => cases h
    | member name => exact congrArg Json.object (outlineMembers_insert h houtline)
  | _ => cases h

theorem modifyMember_eq (name : String) (members : List (String × Json)) :
    modifyMember name change members =
      match Assoc.find? name members with
      | some value => (Assoc.insert name · members) <$> change value
      | none => .ok members := by
  induction members with
  | nil => rfl
  | cons member rest ih =>
    obtain ⟨n, value⟩ := member
    rw [modifyMember, Assoc.find?, ih]
    by_cases hname : n = name
    · simp [hname, Assoc.insert]
    · cases Assoc.find? name rest with
      | none => simp [hname, Functor.map, Except.map]
      | some found => cases h : change found <;>
          simp [h, hname, Assoc.insert, Functor.map, Except.map]

theorem modifyItem_eq (index : Nat) (items : List Json) :
    modifyItem change index items =
      match items[index]? with
      | some item => (items.set index ·) <$> change item
      | none => .ok items := by
  induction items generalizing index with
  | nil => cases index <;> rfl
  | cons item rest ih =>
    cases index with
    | zero => rfl
    | succ index =>
      rw [modifyItem, ih, List.getElem?_cons_succ]
      cases rest[index]? with
      | none => rfl
      | some found => cases h : change found <;> simp [h, Functor.map, Except.map]

theorem modifyItems_eq_mapM (items : List Json) : modifyItems change items = items.mapM change := by
  induction items with
  | nil => rfl
  | cons item rest ih => rw [modifyItems, List.mapM_cons, ih]

/-- What one segment makes of a node. `change` is what the rest of the path makes of a child. -/
inductive ChangesTo (change : Json → Except ε Json) (segment : Segment) (node : Json) :
    Json → Prop where
  | nowhere (h : ∀ step, segment.selects step → node.child? step = none) :
    ChangesTo change segment node node
  | child {step : Step} {child child' : Json}
    (hstep : ∀ other, segment.selects other ↔ other = step)
    (hchild : node.child? step = some child) (hchange : change child = .ok child') :
    ChangesTo change segment node (node.setChild step child')
  | items {items items' : List Json} (hsegment : segment = .each) (hnode : node = .array items)
    (hitems : items'.map Except.ok = items.map change) :
    ChangesTo change segment node (.array items')

theorem ChangesTo.child? {child : Json} (h : ChangesTo change segment node node')
    (hchild : node.child? step = some child) :
    ∃ child', node'.child? step = some child' ∧
      if segment.selects step then change child = .ok child' else child' = child := by
  cases h with
  | nowhere hnone =>
    by_cases hselects : segment.selects step
    · rw [hnone step hselects] at hchild
      cases hchild
    · exact ⟨child, hchild, (if_neg hselects).mpr rfl⟩
  | @child changed old new hstep hold hnew =>
    rw [child?_setChild hold]
    by_cases heq : step = changed
    · subst heq
      rw [hold] at hchild
      cases hchild
      exact ⟨new, if_pos rfl, (if_pos ((hstep step).mpr rfl)).mpr hnew⟩
    · exact ⟨child, (if_neg heq).trans hchild, (if_neg (mt (hstep step).mp heq)).mpr rfl⟩
  | @items items items' hsegment hnode hitems =>
    subst hsegment hnode
    cases step with
    | member name => cases hchild
    | item i =>
      have hitem := congrArg (·[i]?) hitems
      simp only [List.getElem?_map] at hitem
      rw [show items[i]? = some child from hchild] at hitem
      obtain ⟨child', hchild', hok⟩ := Option.map_eq_some_iff.mp hitem
      exact ⟨child', hchild', hok.symm⟩

theorem outlineItems_eq {items items' : List Json} (h : items'.map Except.ok = items.map change)
    (houtline : ∀ {item item'}, change item = .ok item' → item'.outline = item.outline) :
    outlineItems items' = outlineItems items := by
  induction items generalizing items' with
  | nil => rw [List.map_eq_nil_iff.mp h]
  | cons item rest ih =>
    cases items' with
    | nil => cases h
    | cons item' rest' =>
      obtain ⟨hitem, hrest⟩ := List.cons.inj h
      rw [outlineItems, outlineItems, houtline hitem.symm, ih hrest]

theorem ChangesTo.outline_eq (h : ChangesTo change segment node node')
    (houtline : ∀ {child child'}, change child = .ok child' → child'.outline = child.outline) :
    node'.outline = node.outline := by
  cases h with
  | nowhere => rfl
  | child hstep hchild hchange => exact outline_setChild hchild (houtline hchange)
  | items hsegment hnode hitems =>
    subst hnode
    exact congrArg Json.array (outlineItems_eq hitems houtline)

/-- The step of a segment that is no wildcard. -/
def Segment.step? : Segment → Option Step
  | .key name => some (.member name)
  | .index n => some (.item n)
  | .each => none

theorem Segment.selects_iff_of_step? (h : segment.step? = some step) (other : Step) :
    segment.selects other ↔ other = step := by
  cases segment <;> cases h <;> cases other <;> simp [selects]

theorem modify_of_step? (h : segment.step? = some step) :
    modify change (segment :: path) node =
      match node.child? step with
      | some child => node.setChild step <$> modify change path child
      | none => .ok node := by
  cases segment with
  | key name =>
    cases h
    cases node with
    | object members =>
      rw [modify, modifyMember_eq, child?]
      cases Assoc.find? name members with
      | none => rfl
      | some child =>
        cases h : modify change path child <;> simp [h, setChild, Functor.map, Except.map]
    | _ => rfl
  | index n =>
    cases h
    cases node with
    | array items =>
      rw [modify, modifyItem_eq, child?]
      cases items[n]? with
      | none => rfl
      | some child =>
        cases h : modify change path child <;> simp [h, setChild, Functor.map, Except.map]
    | _ => rfl
  | each => cases h

theorem modify_each_array (items : List Json) :
    modify change (.each :: path) (.array items) = .array <$> items.mapM (modify change path) := by
  rw [modify, modifyItems_eq_mapM]

theorem changesTo_of_modify (h : modify change (segment :: path) node = .ok node') :
    ChangesTo (modify change path) segment node node' := by
  cases hstep : segment.step? with
  | some step =>
    have hselects := Segment.selects_iff_of_step? hstep
    rw [modify_of_step? hstep] at h
    split at h
    · next child hchild =>
      obtain ⟨child', hchange, rfl⟩ := map_eq_ok_iff.mp h
      exact .child hselects hchild hchange
    · next hnone =>
      cases h
      refine .nowhere fun other hother => ?_
      rw [(hselects other).mp hother, hnone]
  | none =>
    have heach : segment = .each := by cases segment <;> first | rfl | cases hstep
    subst heach
    cases node with
    | array items =>
      rw [modify_each_array] at h
      obtain ⟨items', hitems, rfl⟩ := map_eq_ok_iff.mp h
      exact .items rfl rfl (mapM_eq_ok_iff.mp hitems)
    | _ =>
      cases h
      refine .nowhere fun step hselects => ?_
      cases step <;> first | rfl | cases hselects

theorem exists_of_modify_eq_error {error : ε}
    (h : modify change (segment :: path) node = .error error) :
    ∃ step child, segment.selects step ∧ node.child? step = some child ∧
      modify change path child = .error error := by
  cases hstep : segment.step? with
  | some step =>
    rw [modify_of_step? hstep] at h
    split at h
    · next child hchild =>
      exact ⟨step, child, (Segment.selects_iff_of_step? hstep step).mpr rfl, hchild,
        map_eq_error_iff.mp h⟩
    · cases h
  | none =>
    have heach : segment = .each := by cases segment <;> first | rfl | cases hstep
    subst heach
    cases node with
    | array items =>
      rw [modify_each_array] at h
      obtain ⟨item, hitem, herror⟩ := exists_of_mapM_eq_error (map_eq_error_iff.mp h)
      obtain ⟨i, hi⟩ := List.getElem?_of_mem hitem
      exact ⟨.item i, item, rfl, hi, herror⟩
    | _ => cases h

/-! ### Whole paths -/

/-- Scalars become scalars and containers stay. -/
structure KeepsShape (change : Json → Except ε Json) : Prop where
  scalar : ∀ {leaf leaf'}, leaf.isScalar → change leaf = .ok leaf' → leaf'.isScalar
  container : ∀ {node}, node.isScalar = false → change node = .ok node

theorem outline_of_modify (hchange : KeepsShape change)
    (h : modify change path node = .ok node') : node'.outline = node.outline := by
  induction path generalizing node node' with
  | nil =>
    by_cases hscalar : node.isScalar
    · rw [outline_of_isScalar hscalar, outline_of_isScalar (hchange.scalar hscalar h)]
    · rw [modify, hchange.container (Bool.eq_false_iff.mpr hscalar)] at h
      cases h
      rfl
  | cons segment path ih =>
    exact (changesTo_of_modify h).outline_eq ih

/-- The scalar at a selected position is changed and every other one stays. -/
theorem at?_of_modify {leaf : Json} (hchange : KeepsShape change)
    (h : modify change path node = .ok node') (hleaf : leaf.isScalar)
    (hat : node.at? position = some leaf) :
    ∃ leaf', node'.at? position = some leaf' ∧
      if path.selects position then change leaf = .ok leaf' else leaf' = leaf := by
  induction path generalizing node node' position with
  | nil =>
    cases position with
    | nil =>
      cases hat
      exact ⟨node', rfl, h⟩
    | cons step position =>
      obtain ⟨child, hchild, -⟩ := at?_cons_eq_some_iff.mp hat
      have hcontainer : node.isScalar = false := by
        rw [← Bool.not_eq_true]
        intro hscalar
        rw [child?_of_isScalar hscalar] at hchild
        cases hchild
      rw [modify, hchange.container hcontainer] at h
      cases h
      exact ⟨leaf, hat, rfl⟩
  | cons segment path ih =>
    cases position with
    | nil =>
      cases hat
      have hkept : modify change (segment :: path) leaf = .ok leaf := by
        cases segment <;> cases leaf <;> first | rfl | cases hleaf
      rw [hkept] at h
      cases h
      exact ⟨leaf, rfl, rfl⟩
    | cons step position =>
      obtain ⟨child, hchild, hat⟩ := at?_cons_eq_some_iff.mp hat
      obtain ⟨child', hchild', hchanged⟩ := (changesTo_of_modify h).child? hchild
      by_cases hstep : segment.selects step
      · rw [if_pos hstep] at hchanged
        obtain ⟨leaf', hat', hleaf'⟩ := ih hchanged hat
        refine ⟨leaf', at?_cons_eq_some_iff.mpr ⟨child', hchild', hat'⟩, ?_⟩
        rw [Path.selects, hstep, Bool.true_and]
        exact hleaf'
      · rw [if_neg hstep] at hchanged
        subst hchanged
        refine ⟨leaf, at?_cons_eq_some_iff.mpr ⟨child', hchild', hat⟩, ?_⟩
        rw [Path.selects, Bool.eq_false_iff.mpr hstep, Bool.false_and]
        rfl

theorem exists_selected_of_modify_eq_error {error : ε}
    (h : modify change path node = .error error) :
    ∃ position selected, path.selects position ∧ node.at? position = some selected ∧
      change selected = .error error := by
  induction path generalizing node with
  | nil => exact ⟨[], node, rfl, rfl, h⟩
  | cons segment path ih =>
    obtain ⟨step, child, hstep, hchild, herror⟩ := exists_of_modify_eq_error h
    obtain ⟨position, selected, hposition, hat, hselected⟩ := ih herror
    have hat' : node.at? (step :: position) = some selected :=
      at?_cons_eq_some_iff.mpr ⟨child, hchild, hat⟩
    refine ⟨step :: position, selected, ?_, hat', hselected⟩
    rw [Path.selects, hstep, hposition, Bool.true_and]

end DumpMask.Json
