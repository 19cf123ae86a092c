import DumpMask.Proofs.Json.Rewritten
import DumpMask.Rules.Reader

/-!
# Written documents are read again

The printer writes no blanks, so each part of a document ends where the next mark begins, and the
reader finds the part again whatever follows it. Main statement: a document in which no number stands
is read as it was written, as long as it is not nested too deep. A number need not come back as the
one that was written, so the statement leaves numbers out.
-/

namespace DumpMask.Json

variable {fuel depth : Nat} {position : Position} {interest : Interest} {text rest : Bytes}

/-! ### The steps of the reader -/

theorem readValue_object (hwanted : interest.isIgnored = false) :
    readValue (fuel + 1) (depth + 1) interest (Ascii.openBrace :: text) =
      (openWith Ascii.closeBrace (readMembers fuel depth interest) text).map
        (Prod.map Json.object id) := by
  have henter : enter? interest (depth + 1) = some depth := by
    rw [enter?, hwanted]
    rfl
  rw [openWith_map, readValue, skipBlanks_cons rfl]
  dsimp only
  rw [if_pos rfl, henter]
  rfl

theorem readValue_array :
    readValue (fuel + 1) (depth + 1) .all (Ascii.openBracket :: text) =
      (openWith Ascii.closeBracket (readItems fuel depth .all 0) text).map
        (Prod.map Json.array id) := by
  rw [openWith_map, readValue, skipBlanks_cons rfl]
  rfl

theorem readValue_printString (value : String) :
    readValue (fuel + 1) depth .all (printString value ++ rest) = some (.string value, rest) := by
  have hstring := congrArg (Option.bind · fun read => some (Json.string read.1, read.2))
    (readString_print value rest)
  rw [readValue, skipBlanks_printString]
  exact hstring

theorem readItems_of_readValue {item : Json} {index : Nat}
    (hitem : readValue fuel depth .all text = some (item, rest)) :
    readItems (fuel + 1) depth .all index text =
      continueWith Ascii.closeBracket (readItems fuel depth .all (index + 1)) [item] rest := by
  rw [readItems_all, hitem]
  rfl

theorem readMembers_of_readValue {name : String} {value : Json}
    (hwanted : interest.isIgnored = false) (hmember : interest.ofMember name = .all)
    (hvalue : readValue fuel depth .all text = some (value, rest)) :
    readMembers (fuel + 1) depth interest (printString name ++ Ascii.colon :: text) =
      continueWith Ascii.closeBrace (readMembers fuel depth interest) [(name, value)] rest := by
  rw [readMembers_succ, hwanted, Bool.not_false, readName_print]
  dsimp only [Option.bind]
  rw [hmember, hvalue]
  rfl

/-! ### Documents -/

/-- With this much fuel, two units for each octet, a written part without numbers is read again. -/
structure Rereads (fuel : Nat) : Prop where
  value : ∀ {doc : Json} {position : Position} {depth : Nat} (rest : Bytes),
    doc.numbersAt position = [] → doc.depth ≤ depth → 2 * doc.print.length < fuel →
    readValue fuel depth .all (doc.print ++ rest) = some (doc, rest)
  items : ∀ {item : Json} {more : List Json} {position : Position} {index depth : Nat}
    (rest : Bytes), numbersOfItems position index (item :: more) = [] →
    depthOfItems (item :: more) ≤ depth → 2 * (printItems (item :: more)).length + 1 < fuel →
    readItems fuel depth .all index (printItems (item :: more) ++ Ascii.closeBracket :: rest) =
      some (item :: more, rest)
  members : ∀ {member : String × Json} {more : List (String × Json)} {interest : Interest}
    {position : Position} {depth : Nat} (rest : Bytes), interest.isIgnored = false →
    (∀ m ∈ member :: more, interest.ofMember m.1 = .all) →
    numbersOfMembers position (member :: more) = [] → depthOfMembers (member :: more) ≤ depth →
    2 * (printMembers (member :: more)).length < fuel →
    readMembers fuel depth interest (printMembers (member :: more) ++ Ascii.closeBrace :: rest) =
      some (member :: more, rest)

section Step

variable (hrereads : Rereads fuel) (rest : Bytes)
include hrereads

theorem readValue_printArray {items : List Json}
    (hnumbers : (Json.array items).numbersAt position = [])
    (hdepth : (Json.array items).depth ≤ depth)
    (hfuel : 2 * (Json.array items).print.length < fuel + 1) :
    readValue (fuel + 1) depth .all ((Json.array items).print ++ rest) =
      some (.array items, rest) := by
  obtain ⟨inner, rfl⟩ := Nat.exists_eq_add_one.mpr (Nat.zero_lt_of_lt hdepth)
  have hinner : depthOfItems items ≤ inner := Nat.le_of_succ_le_succ hdepth
  rw [print, List.length_cons, List.length_append, List.length_singleton] at hfuel
  rw [print, List.cons_append, List.append_assoc, List.singleton_append, readValue_array]
  cases items with
  | nil =>
    rw [printItems, List.nil_append, openWith_close rfl]
    rfl
  | cons item more =>
    have hitems := hrereads.items rest hnumbers hinner (by omega)
    obtain ⟨b, after, hcons, hblank, hclose⟩ := exists_cons_printItems item more
    rw [hcons, List.cons_append] at hitems ⊢
    rw [openWith_elements hblank hclose, hitems]
    rfl

theorem readValue_printObject {members : List (String × Json)}
    (hwanted : interest.isIgnored = false) (hmembers : ∀ m ∈ members, interest.ofMember m.1 = .all)
    (hnumbers : (Json.object members).numbersAt position = [])
    (hdepth : (Json.object members).depth ≤ depth)
    (hfuel : 2 * (Json.object members).print.length < fuel + 1) :
    readValue (fuel + 1) depth interest ((Json.object members).print ++ rest) =
      some (.object members, rest) := by
  obtain ⟨inner, rfl⟩ := Nat.exists_eq_add_one.mpr (Nat.zero_lt_of_lt hdepth)
  have hinner : depthOfMembers members ≤ inner := Nat.le_of_succ_le_succ hdepth
  rw [print, List.length_cons, List.length_append, List.length_singleton] at hfuel
  rw [print, List.cons_append, List.append_assoc, List.singleton_append, readValue_object hwanted]
  cases members with
  | nil =>
    rw [printMembers, List.nil_append, openWith_close rfl]
    rfl
  | cons member more =>
    have hall := hrereads.members rest hwanted hmembers hnumbers hinner (by omega)
    obtain ⟨after, hcons⟩ := exists_cons_printMembers member more
    rw [hcons, List.cons_append] at hall ⊢
    rw [openWith_elements rfl (by decide), hall]
    rfl

theorem readValue_print {doc : Json} (hnumbers : doc.numbersAt position = [])
    (hdepth : doc.depth ≤ depth) (hfuel : 2 * doc.print.length < fuel + 1) :
    readValue (fuel + 1) depth .all (doc.print ++ rest) = some (doc, rest) := by
  cases doc with
  | null =>
    rw [print, readValue]
    rfl
  | bool value =>
    cases value with
    | false =>
      rw [print, readValue]
      rfl
    | true =>
      rw [print, readValue]
      rfl
  | number value => cases hnumbers
  | string value => exact readValue_printString value
  | array items => exact readValue_printArray hrereads rest hnumbers hdepth hfuel
  | object members =>
    exact readValue_printObject hrereads rest rfl (fun _ _ => rfl) hnumbers hdepth hfuel

theorem readItems_print {item : Json} {more : List Json} {index : Nat}
    (hnumbers : numbersOfItems position index (item :: more) = [])
    (hdepth : depthOfItems (item :: more) ≤ depth)
    (hfuel : 2 * (printItems (item :: more)).length + 1 < fuel + 1) :
    readItems (fuel + 1) depth .all index
        (printItems (item :: more) ++ Ascii.closeBracket :: rest) =
      some (item :: more, rest) := by
  obtain ⟨hitem, hrest⟩ := List.append_eq_nil_iff.mp hnumbers
  obtain ⟨hdepthItem, hdepthRest⟩ := Nat.max_le.mp hdepth
  cases more with
  | nil =>
    have hread := hrereads.value (Ascii.closeBracket :: rest) hitem hdepthItem
      (Nat.lt_of_succ_lt_succ hfuel)
    rw [printItems, readItems_of_readValue hread, continueWith_close rfl (by decide)]
  | cons next more =>
    rw [printItems_cons_cons, List.length_append, List.length_cons] at hfuel
    have hread := hrereads.value
      (Ascii.comma :: (printItems (next :: more) ++ Ascii.closeBracket :: rest)) hitem hdepthItem
      (by omega)
    have hmore := hrereads.items rest hrest hdepthRest (by omega)
    rw [printItems_cons_cons, List.append_assoc, List.cons_append, readItems_of_readValue hread,
      continueWith_comma, hmore]
    rfl

theorem readMembers_print {member : String × Json} {more : List (String × Json)}
    (hwanted : interest.isIgnored = false)
    (hmembers : ∀ m ∈ member :: more, interest.ofMember m.1 = .all)
    (hnumbers : numbersOfMembers position (member :: more) = [])
    (hdepth : depthOfMembers (member :: more) ≤ depth)
    (hfuel : 2 * (printMembers (member :: more)).length < fuel + 1) :
    readMembers (fuel + 1) depth interest
        (printMembers (member :: more) ++ Ascii.closeBrace :: rest) =
      some (member :: more, rest) := by
  obtain ⟨name, value⟩ := member
  obtain ⟨hname, hnames⟩ := List.forall_mem_cons.mp hmembers
  obtain ⟨hvalue, hrest⟩ := List.append_eq_nil_iff.mp hnumbers
  obtain ⟨hdepthValue, hdepthRest⟩ := Nat.max_le.mp hdepth
  cases more with
  | nil =>
    rw [printMembers, List.length_append, List.length_cons] at hfuel
    have hread := hrereads.value (Ascii.closeBrace :: rest) hvalue hdepthValue (by omega)
    rw [printMembers, List.append_assoc, List.cons_append,
      readMembers_of_readValue hwanted hname hread, continueWith_close rfl (by decide)]
  | cons next more =>
    rw [printMembers_cons_cons, List.length_append, List.length_cons, List.length_append,
      List.length_cons] at hfuel
    have hread := hrereads.value
      (Ascii.comma :: (printMembers (next :: more) ++ Ascii.closeBrace :: rest)) hvalue hdepthValue
      (by omega)
    have hmore := hrereads.members rest hwanted hnames hrest hdepthRest (by omega)
    rw [printMembers_cons_cons, List.append_assoc, List.cons_append, List.append_assoc,
      List.cons_append, readMembers_of_readValue hwanted hname hread, continueWith_comma, hmore]
    rfl

end Step

theorem rereads (fuel : Nat) : Rereads fuel := by
  induction fuel with
  | zero =>
    refine ⟨fun _ _ _ h => ?_, fun _ _ _ h => ?_, fun _ _ _ _ _ h => ?_⟩ <;>
      exact absurd h (Nat.not_lt_zero _)
  | succ fuel ih =>
    exact ⟨fun rest => readValue_print ih rest, fun rest => readItems_print ih rest,
      fun rest => readMembers_print ih rest⟩

/-- **A written record without numbers is read again**, where each of its members is wanted. -/
theorem readWith_print {members : List (String × Json)} (hwanted : interest.isIgnored = false)
    (hmembers : ∀ m ∈ members, interest.ofMember m.1 = .all)
    (hnumbers : (Json.object members).numbersAt [] = [])
    (hdepth : (Json.object members).depth ≤ maxDepth) :
    readWith interest (Json.object members).print = some (.object members) := by
  have hfuel : ∀ n, 2 * n < 2 * n + 1 + 1 := fun n => by omega
  have hread := readValue_printObject (rereads _) [] hwanted hmembers hnumbers hdepth (hfuel _)
  rw [List.append_nil] at hread
  rw [readWith, hread]
  rfl

end DumpMask.Json
