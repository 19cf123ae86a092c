import DumpMask.Bytes

/-!
# Letter case

Comparing texts without regard to case changes letters only. So a class of octets that has all
letters in it does not tell apart two texts that are equal up to case.
-/

namespace DumpMask

theorem Ascii.toLower_cases (b : UInt8) :
    toLower b = b ∨ (isLetter b = true ∧ isLetter (toLower b) = true) := by
  by_cases hupper : isUpper b = true
  · refine Or.inr ⟨by rw [isLetter, hupper, Bool.true_or], ?_⟩
    rw [toLower, if_pos hupper]
    simp only [isUpper, isLower, isLetter, Bool.and_eq_true, Bool.or_eq_true, decide_eq_true_eq,
      UInt8.le_iff_toNat_le, UInt8.toNat_add, UInt8.reduceToNat] at hupper ⊢
    omega
  · exact Or.inl (if_neg hupper)

namespace Bytes

theorem length_of_equalsIgnoringCase {left right : Bytes}
    (h : equalsIgnoringCase left right = true) : left.length = right.length := by
  have hlength := congrArg List.length (beq_iff_eq.mp h)
  rwa [List.length_map, List.length_map] at hlength

theorem all_of_equalsIgnoringCase {class? : UInt8 → Bool}
    (hletter : ∀ b, Ascii.isLetter b = true → class? b = true) {left right : Bytes}
    (h : equalsIgnoringCase left right = true) (hright : right.all class? = true) :
    left.all class? = true := by
  apply List.all_eq_true.mpr
  intro b hb
  obtain ⟨c, hc, hlower⟩ : ∃ c ∈ right, Ascii.toLower c = Ascii.toLower b := by
    have hmem := List.mem_map_of_mem (f := Ascii.toLower) hb
    rw [beq_iff_eq.mp h] at hmem
    exact List.mem_map.mp hmem
  rcases Ascii.toLower_cases b with hkept | ⟨hb, -⟩
  · rw [hkept] at hlower
    rcases Ascii.toLower_cases c with hkept' | ⟨-, hc'⟩
    · rw [← hlower, hkept']
      exact List.all_eq_true.mp hright c hc
    · rw [hlower] at hc'
      exact hletter b hc'
  · exact hletter b hb

/-- Two texts that are equal up to case are the same if the case of every octet can be told. -/
theorem eq_of_equalsIgnoringCase {restore : UInt8 → UInt8} {left right : Bytes}
    (h : equalsIgnoringCase left right = true)
    (hleft : ∀ b ∈ left, restore (Ascii.toLower b) = b)
    (hright : ∀ b ∈ right, restore (Ascii.toLower b) = b) : left = right := by
  have hrestored : ∀ {text : Bytes}, (∀ b ∈ text, restore (Ascii.toLower b) = b) →
      (text.map Ascii.toLower).map restore = text := by
    intro text htext
    rw [List.map_map]
    exact (List.map_congr_left htext).trans (List.map_id text)
  rw [← hrestored hleft, beq_iff_eq.mp h, hrestored hright]

end Bytes

end DumpMask
