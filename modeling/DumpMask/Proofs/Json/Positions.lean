import DumpMask.Json.Reader
import DumpMask.Proofs.Assoc

/-!
# Positions in JSON documents

A position names a place by the steps that lead to it from the root, and the outline of a document
is what is left of it without its scalars. Outline and scalars together are the whole document as
long as no object repeats a name: a repeated name would hide a member from every position. Documents
that were read repeat none.
-/

namespace DumpMask.Json

inductive Step where
  | member (name : String)
  | item (index : Nat)
deriving DecidableEq, Repr

abbrev Position := List Step

/-- What a step leads to. -/
def child? : Json → Step → Option Json
  | .object members, .member name => Assoc.find? name members
  | .array items, .item index => items[index]?
  | _, _ => none

/-- What stands at a position. -/
def at? (node : Json) : Position → Option Json
  | [] => some node
  | step :: rest => (node.child? step).bind (·.at? rest)

def isScalar : Json → Bool
  | .array _ | .object _ => false
  | _ => true

variable {node leaf : Json} {step : Step} {position : Position}

theorem child?_of_isScalar (h : node.isScalar) : node.child? step = none := by
  cases node <;> first | rfl | cases h

theorem at?_cons_eq_some_iff :
    node.at? (step :: position) = some leaf ↔
      ∃ child, node.child? step = some child ∧ child.at? position = some leaf :=
  Option.bind_eq_some_iff

/-! ### Outlines -/

mutual

/-- The document with null for every scalar. -/
def outline : Json → Json
  | .array items => .array (outlineItems items)
  | .object members => .object (outlineMembers members)
  | _ => .null

def outlineItems : List Json → List Json
  | [] => []
  | item :: rest => item.outline :: outlineItems rest

def outlineMembers : List (String × Json) → List (String × Json)
  | [] => []
  | (name, value) :: rest => (name, value.outline) :: outlineMembers rest

end

theorem outlineItems_eq_map (items : List Json) : outlineItems items = items.map outline := by
  induction items with
  | nil => rfl
  | cons item rest ih => rw [outlineItems, ih, List.map_cons]

theorem outlineMembers_eq_map (members : List (String × Json)) :
    outlineMembers members = members.map (Prod.map id outline) := by
  induction members with
  | nil => rfl
  | cons member rest ih => rw [outlineMembers, ih, List.map_cons, Prod.map, id]

theorem find?_outlineMembers (name : String) (members : List (String × Json)) :
    Assoc.find? name (outlineMembers members) = (Assoc.find? name members).map outline := by
  induction members with
  | nil => rfl
  | cons member rest ih =>
    obtain ⟨n, value⟩ := member
    rw [outlineMembers, Assoc.find?, Assoc.find?, ih]
    split <;> rfl

theorem outline_eq_null_iff : node.outline = .null ↔ node.isScalar := by
  cases node <;> simp [outline, isScalar]

theorem outline_of_isScalar (h : node.isScalar) : node.outline = .null :=
  outline_eq_null_iff.mpr h

theorem child?_outline (node : Json) (step : Step) :
    node.outline.child? step = (node.child? step).map outline := by
  cases node with
  | array items =>
    cases step with
    | member name => rfl
    | item index => rw [outline, child?, child?, outlineItems_eq_map, List.getElem?_map]
  | object members =>
    cases step with
    | member name => exact find?_outlineMembers name members
    | item index => rfl
  | _ => rfl

theorem at?_outline (node : Json) (position : Position) :
    node.outline.at? position = (node.at? position).map outline := by
  induction position generalizing node with
  | nil => rfl
  | cons step rest ih =>
    rw [at?, at?, child?_outline, Option.map_bind, Option.bind_map]
    exact congrArg (Option.bind _) (funext ih)

/-- Documents of one outline have their scalars at the same positions. -/
theorem exists_scalar_of_outline_eq {other : Json} (houtline : node.outline = other.outline)
    (hleaf : leaf.isScalar) (h : node.at? position = some leaf) :
    ∃ leaf', other.at? position = some leaf' ∧ leaf'.isScalar := by
  have hat : (other.at? position).map outline = some .null := by
    rw [← at?_outline, ← houtline, at?_outline, h, Option.map_some, outline_of_isScalar hleaf]
  obtain ⟨leaf', hother, hnull⟩ := Option.map_eq_some_iff.mp hat
  exact ⟨leaf', hother, outline_eq_null_iff.mp hnull⟩

/-! ### Distinct names -/

/-- No object repeats a name. -/
inductive NamesDistinct : Json → Prop where
  | scalar {leaf : Json} (h : leaf.isScalar) : NamesDistinct leaf
  | array {items : List Json} (h : ∀ item ∈ items, NamesDistinct item) :
    NamesDistinct (.array items)
  | object {members : List (String × Json)} (hnames : (Assoc.keys members).Nodup)
    (h : ∀ member ∈ members, NamesDistinct member.2) : NamesDistinct (.object members)

mutual

theorem namesDistinct_mergeNames : (doc : Json) → doc.mergeNames.NamesDistinct
  | .array items => .array (namesDistinct_mergeItems items)
  | .object members =>
    .object (Assoc.nodup_keys_ofList _) fun member hmember =>
      namesDistinct_mergeMembers members member (Assoc.mem_of_mem_ofList hmember)
  | .null | .bool _ | .number _ | .string _ => .scalar rfl

theorem namesDistinct_mergeItems :
    (items : List Json) → ∀ item ∈ mergeItems items, item.NamesDistinct
  | [], _, h => nomatch h
  | first :: rest, item, h => by
    obtain rfl | hrest := List.mem_cons.mp h
    · exact namesDistinct_mergeNames first
    · exact namesDistinct_mergeItems rest item hrest

theorem namesDistinct_mergeMembers :
    (members : List (String × Json)) → ∀ member ∈ mergeMembers members, member.2.NamesDistinct
  | [], _, h => nomatch h
  | (name, value) :: rest, member, h => by
    obtain rfl | hrest := List.mem_cons.mp h
    · exact namesDistinct_mergeNames value
    · exact namesDistinct_mergeMembers rest member hrest

end

mutual

/-- The test that no object repeats a name. -/
def hasDistinctNames : Json → Bool
  | .array items => itemsHaveDistinctNames items
  | .object members => decide (Assoc.keys members).Nodup && membersHaveDistinctNames members
  | _ => true

def itemsHaveDistinctNames : List Json → Bool
  | [] => true
  | item :: rest => item.hasDistinctNames && itemsHaveDistinctNames rest

def membersHaveDistinctNames : List (String × Json) → Bool
  | [] => true
  | (_, value) :: rest => value.hasDistinctNames && membersHaveDistinctNames rest

end

mutual

theorem namesDistinct_of_test : (doc : Json) → doc.hasDistinctNames → doc.NamesDistinct
  | .array items, h => .array (itemsDistinct_of_test items h)
  | .object members, h => by
    obtain ⟨hnames, hmembers⟩ := (Bool.and_eq_true _ _).mp h
    exact .object (of_decide_eq_true hnames) (membersDistinct_of_test members hmembers)
  | .null, _ | .bool _, _ | .number _, _ | .string _, _ => .scalar rfl

theorem itemsDistinct_of_test :
    (items : List Json) → itemsHaveDistinctNames items → ∀ item ∈ items, item.NamesDistinct
  | [], _, _, hmem => nomatch hmem
  | first :: rest, h, item, hmem => by
    obtain ⟨hfirst, hrest⟩ := (Bool.and_eq_true _ _).mp h
    obtain heq | hmem := List.mem_cons.mp hmem
    · rw [heq]
      exact namesDistinct_of_test first hfirst
    · exact itemsDistinct_of_test rest hrest item hmem

theorem membersDistinct_of_test : (members : List (String × Json)) →
    membersHaveDistinctNames members → ∀ member ∈ members, member.2.NamesDistinct
  | [], _, _, hmem => nomatch hmem
  | (name, value) :: rest, h, member, hmem => by
    obtain ⟨hfirst, hrest⟩ := (Bool.and_eq_true _ _).mp h
    obtain heq | hmem := List.mem_cons.mp hmem
    · rw [heq]
      exact namesDistinct_of_test value hfirst
    · exact membersDistinct_of_test rest hrest member hmem

end

theorem namesDistinct_of_read {text : Bytes} {doc : Json} (h : read text = some doc) :
    doc.NamesDistinct := by
  obtain ⟨written, -, rfl⟩ := Option.map_eq_some_iff.mp h
  exact namesDistinct_mergeNames written

/-! ### Outline and scalars -/

/-- Every scalar of one document stands in the other one too. -/
def ScalarsWithin (left right : Json) : Prop :=
  ∀ position leaf, leaf.isScalar → left.at? position = some leaf → right.at? position = some leaf

theorem ScalarsWithin.child {left right left' right' : Json} (h : ScalarsWithin left right)
    (step : Step)
    (hleft : left.child? step = some left') (hright : right.child? step = some right') :
    ScalarsWithin left' right' := by
  intro position leaf hleaf hat
  have hat' := h (step :: position) leaf hleaf (at?_cons_eq_some_iff.mpr ⟨left', hleft, hat⟩)
  obtain ⟨child, hchild, hat'⟩ := at?_cons_eq_some_iff.mp hat'
  rw [hright] at hchild
  cases hchild
  exact hat'

theorem outline_eq_array_iff {outlines : List Json} :
    node.outline = .array outlines ↔
      ∃ items, node = .array items ∧ items.map outline = outlines := by
  cases node <;> simp [outline, outlineItems_eq_map]

theorem outline_eq_object_iff {outlines : List (String × Json)} :
    node.outline = .object outlines ↔
      ∃ members, node = .object members ∧ members.map (Prod.map id outline) = outlines := by
  cases node <;> simp [outline, outlineMembers_eq_map]

/-- Lists with the same images are equal if equality of the images decides it place by place. -/
theorem eq_of_map_eq {α β : Type} {f : α → β} {lefts rights base : List α}
    (hleft : lefts.map f = base.map f) (hright : rights.map f = base.map f)
    (h : ∀ (i : Nat) (left right item : α), lefts[i]? = some left → rights[i]? = some right →
      base[i]? = some item → f left = f item → f right = f item → left = right) :
    lefts = rights := by
  have hlength : lefts.length = base.length := by simpa using congrArg List.length hleft
  have hlength' : rights.length = base.length := by simpa using congrArg List.length hright
  apply List.ext_getElem (hlength.trans hlength'.symm)
  intro i hi hi'
  have hbase : i < base.length := by omega
  have hitem : f lefts[i] = f base[i] := by
    rw [← List.getElem_map f (h := by simpa), List.getElem_of_eq hleft, List.getElem_map]
  have hitem' : f rights[i] = f base[i] := by
    rw [← List.getElem_map f (h := by simpa), List.getElem_of_eq hright, List.getElem_map]
  exact h i _ _ _ (List.getElem?_eq_getElem hi) (List.getElem?_eq_getElem hi')
    (List.getElem?_eq_getElem hbase) hitem hitem'

/-- **A document is its outline and its scalars.** The outline is given by a document whose names
are distinct. -/
theorem eq_of_outline_eq {doc left right : Json} (hdoc : doc.NamesDistinct)
    (hleft : left.outline = doc.outline) (hright : right.outline = doc.outline)
    (h : ScalarsWithin left right) : left = right := by
  induction hdoc generalizing left right with
  | scalar hdoc =>
    rw [outline_of_isScalar hdoc] at hleft
    exact (Option.some.inj (h [] left (outline_eq_null_iff.mp hleft) rfl)).symm
  | array hitems ih =>
    rw [outline, outlineItems_eq_map, outline_eq_array_iff] at hleft hright
    obtain ⟨lefts, rfl, hlefts⟩ := hleft
    obtain ⟨rights, rfl, hrights⟩ := hright
    refine congrArg Json.array (eq_of_map_eq hlefts hrights ?_)
    intro i left right item hleft hright hitem houtline houtline'
    exact ih item (List.mem_of_getElem? hitem) houtline houtline' (h.child (.item i) hleft hright)
  | @object members hnames hmembers ih =>
    rw [outline, outlineMembers_eq_map, outline_eq_object_iff] at hleft hright
    obtain ⟨lefts, rfl, hlefts⟩ := hleft
    obtain ⟨rights, rfl, hrights⟩ := hright
    have hkeys {others : List (String × Json)}
        (h : others.map (Prod.map id outline) = members.map (Prod.map id outline)) :
        (Assoc.keys others).Nodup := by
      have hfst := congrArg (List.map Prod.fst) h
      rw [List.map_map, List.map_map] at hfst
      exact (congrArg List.Nodup hfst).mpr hnames
    refine congrArg Json.object (eq_of_map_eq hlefts hrights ?_)
    intro i ⟨name, left⟩ ⟨name', right⟩ ⟨name'', member⟩ hleft hright hmember houtline houtline'
    obtain ⟨rfl, hleft'⟩ := Prod.mk.inj houtline
    obtain ⟨rfl, hright'⟩ := Prod.mk.inj houtline'
    have hchild := h.child (.member _) (Assoc.find?_of_getElem? (hkeys hlefts) hleft)
      (Assoc.find?_of_getElem? (hkeys hrights) hright)
    have hvalue := ih _ (List.mem_of_getElem? hmember) hleft' hright' hchild
    exact congrArg (Prod.mk _) hvalue

end DumpMask.Json
