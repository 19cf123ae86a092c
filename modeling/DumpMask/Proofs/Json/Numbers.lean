import DumpMask.Proofs.Json.Modify
import DumpMask.Proofs.Json.Tokens

/-!
# Numbers that a change leaves alone

A change along a path that keeps the numbers of the places that it changes keeps all numbers of the
document, at their positions. So does the merging of repeated names where no name is repeated.
-/

namespace DumpMask.Json

variable {doc node node' : Json} {step : Step} {path : Path} {ε : Type}
  {change : Json → Except ε Json} {segment : Segment}

/-! ### Documents without repeated names -/

theorem mergeItems_eq_map (items : List Json) : mergeItems items = items.map mergeNames := by
  induction items with
  | nil => rfl
  | cons item rest ih => rw [mergeItems, ih, List.map_cons]

theorem mergeMembers_eq_map (members : List (String × Json)) :
    mergeMembers members = members.map (Prod.map id mergeNames) := by
  induction members with
  | nil => rfl
  | cons member rest ih => rw [mergeMembers, ih, List.map_cons, Prod.map, id]

/-- Without a repeated name there is nothing to merge. -/
theorem mergeNames_of_namesDistinct (h : doc.NamesDistinct) : doc.mergeNames = doc := by
  induction h with
  | @scalar leaf hleaf => cases leaf <;> first | rfl | cases hleaf
  | @array items hitems ih =>
    rw [mergeNames, mergeItems_eq_map, List.map_congr_left ih, List.map_id']
  | @object members hnames hmembers ih =>
    have hmap : members.map (Prod.map id mergeNames) = members := by
      refine (List.map_congr_left fun member hmember => ?_).trans (List.map_id members)
      exact Prod.ext rfl (ih member hmember)
    rw [mergeNames, mergeMembers_eq_map, hmap, Assoc.ofList_of_nodup hnames]

/-! ### Numbers stay -/

/-- The change keeps the numbers of what it changes. -/
def KeepsNumbers (change : Json → Except ε Json) : Prop :=
  ∀ {node node'}, change node = .ok node' → ∀ position, node'.numbersAt position = node.numbersAt position

theorem numbersOfItems_set {items : List Json} {i : Nat} {child value : Json}
    (h : items[i]? = some child) (hkept : ∀ position, value.numbersAt position = child.numbersAt position)
    (position : Position) (index : Nat) :
    numbersOfItems position index (items.set i value) = numbersOfItems position index items := by
  induction items generalizing i index with
  | nil => cases h
  | cons item rest ih =>
    cases i with
    | zero =>
      cases h
      rw [List.set_cons_zero, numbersOfItems, numbersOfItems, hkept]
    | succ i => rw [List.set_cons_succ, numbersOfItems, numbersOfItems, ih h]

theorem numbersOfMembers_insert {name : String} {members : List (String × Json)}
    {child value : Json} (h : Assoc.find? name members = some child)
    (hkept : ∀ position, value.numbersAt position = child.numbersAt position) (position : Position) :
    numbersOfMembers position (Assoc.insert name value members) =
      numbersOfMembers position members := by
  induction members with
  | nil => cases h
  | cons member rest ih =>
    obtain ⟨n, old⟩ := member
    rw [Assoc.find?] at h
    rw [Assoc.insert]
    split
    · next hname =>
      rw [if_pos hname] at h
      cases h
      rw [numbersOfMembers, numbersOfMembers, hkept]
    · next hname =>
      rw [if_neg hname] at h
      rw [numbersOfMembers, numbersOfMembers, ih h]

theorem numbersAt_setChild {child value : Json} (h : node.child? step = some child)
    (hkept : ∀ position, value.numbersAt position = child.numbersAt position) (position : Position) :
    (node.setChild step value).numbersAt position = node.numbersAt position := by
  cases node with
  | array items =>
    cases step with
    | member name => cases h
    | item i => exact numbersOfItems_set h hkept position 0
  | object members =>
    cases step with
    | item i => cases h
    | member name => exact numbersOfMembers_insert h hkept position
  | _ => cases h

theorem numbersOfItems_eq {items items' : List Json} (h : items'.map Except.ok = items.map change)
    (hchange : KeepsNumbers change) (position : Position) (index : Nat) :
    numbersOfItems position index items' = numbersOfItems position index items := by
  induction items generalizing items' index with
  | nil => rw [List.map_eq_nil_iff.mp h]
  | cons item rest ih =>
    cases items' with
    | nil => cases h
    | cons item' rest' =>
      obtain ⟨hitem, hrest⟩ := List.cons.inj h
      rw [numbersOfItems, numbersOfItems, hchange hitem.symm, ih hrest]

theorem ChangesTo.numbersAt_eq (h : ChangesTo change segment node node')
    (hchange : KeepsNumbers change) (position : Position) :
    node'.numbersAt position = node.numbersAt position := by
  cases h with
  | nowhere => rfl
  | child hstep hchild hchanged => exact numbersAt_setChild hchild (hchange hchanged) position
  | items hsegment hnode hitems =>
    subst hnode
    exact numbersOfItems_eq hitems hchange position 0

theorem keepsNumbers_modify (hchange : KeepsNumbers change) : KeepsNumbers (modify change path) := by
  induction path with
  | nil => exact hchange
  | cons segment path ih =>
    intro node node' h position
    exact (changesTo_of_modify h).numbersAt_eq ih position

end DumpMask.Json
