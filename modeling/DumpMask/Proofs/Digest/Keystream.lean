import DumpMask.Transform.Pseudonym
import Mathlib.Logic.Function.Iterate

/-!
# The octets of a keystream

The blocks of a keystream are numbered by a word of 32 bits, and the last one is cut short. Main
statement: as long as the number does not wrap around, each octet is the one of its own block, so a
longer keystream only goes on where a shorter one ends, and a wider pseudonym begins like a narrower
one.
-/

namespace DumpMask

namespace Keystream

/-! ### Block numbers -/

/-- The number that octets spell, the most significant first. -/
def ofBigEndian (octets : Bytes) : Nat :=
  octets.foldl (fun number b => 256 * number + b.toNat) 0

theorem ofBigEndian_wordOctets (word : UInt32) :
    ofBigEndian (Sha256.wordOctets word) = word.toNat := by
  have hword := word.toNat_lt
  simp only [ofBigEndian, Sha256.wordOctets, List.foldl_cons, List.foldl_nil, UInt32.toNat_toUInt8,
    UInt32.toNat_shiftRight, UInt32.reduceToNat, Nat.shiftRight_eq_div_pow, Nat.reduceMod,
    Nat.reducePow]
  omega

/-- How many blocks hold `count` octets. -/
def blockCount (count : Nat) : Nat :=
  (count + 31) / 32

/-! ### One block more -/

section Blocks

variable {secret value : Bytes} {count : Nat}

/-- Octet `i` of the run of all blocks. -/
def octet (secret value : Bytes) (i : Nat) : UInt8 :=
  (block secret value (UInt32.ofNat (i / 32))).getD (i % 32) 0

theorem block_eq_map_octet (secret value : Bytes) (index : Nat) :
    block secret value (UInt32.ofNat index) =
      (List.range 32).map fun i => octet secret value (32 * index + i) := by
  apply List.ext_getElem
  · rw [length_block, List.length_map, List.length_range]
  · intro i hi _
    have hlt := hi
    rw [length_block] at hlt
    have hindex : (32 * index + i) / 32 = index := by omega
    have hoffset : (32 * index + i) % 32 = i := by omega
    rw [List.getElem_map, List.getElem_range, octet, hindex, hoffset, List.getD_eq_getElem?_getD,
      List.getElem?_eq_getElem hi, Option.getD_some]

/-- What is true after `index` blocks: their octets are there, but no more than `count`. -/
structure Run.IsAt (secret value : Bytes) (count index : Nat) (run : Run) : Prop where
  octets_eq : run.octets = (List.range (min count (32 * index))).map (octet secret value)
  next_eq : run.next = UInt32.ofNat index

namespace Run.IsAt

variable {index : Nat} {run : Run}

theorem length_octets (h : run.IsAt secret value count index) :
    run.octets.length = min count (32 * index) := by
  rw [h.octets_eq, List.length_map, List.length_range]

theorem start : Run.start.IsAt secret value count 0 :=
  ⟨by rw [Nat.mul_zero, Nat.min_zero]; rfl, rfl⟩

theorem advance (h : run.IsAt secret value count index) (hshort : run.octets.length < count) :
    (run.advance secret value count).IsAt secret value count (index + 1) := by
  rw [h.length_octets] at hshort
  have hfront : min count (32 * index) = 32 * index := by omega
  have hback : min count (32 * (index + 1)) = 32 * index + min (count - 32 * index) 32 := by omega
  constructor
  · rw [Run.advance, h.length_octets, h.octets_eq, h.next_eq, hfront, hback,
      block_eq_map_octet, List.range_add, List.map_append, List.map_map, ← List.map_take,
      List.take_range]
    rfl
  · rw [Run.advance, h.next_eq, UInt32.ofNat_add]
    rfl

theorem length_lt (h : run.IsAt secret value count index) (hindex : index < blockCount count) :
    run.octets.length < count := by
  rw [h.length_octets]
  rw [blockCount] at hindex
  omega

end Run.IsAt

theorem Run.isAt_iterate (secret value : Bytes) {index : Nat} (h : index ≤ blockCount count) :
    ((Run.advance secret value count)^[index] Run.start).IsAt secret value count index := by
  induction index with
  | zero => exact .start
  | succ index ih =>
    have hindex := ih (Nat.le_of_succ_le h)
    rw [Function.iterate_succ_apply']
    exact hindex.advance (hindex.length_lt h)

theorem Run.finish_iterate (secret value : Bytes) {index : Nat} (h : index ≤ blockCount count) :
    Run.start.finish secret value count =
      ((Run.advance secret value count)^[index] Run.start).finish secret value count := by
  induction index with
  | zero => rfl
  | succ index ih =>
    have hshort := (isAt_iterate secret value (Nat.le_of_succ_le h)).length_lt h
    rw [ih (Nat.le_of_succ_le h), finish, if_pos hshort, Function.iterate_succ_apply']

/-- The run ends after the blocks that hold `count` octets. -/
theorem Run.finish_start (secret value : Bytes) (count : Nat) :
    Run.start.finish secret value count =
      (Run.advance secret value count)^[blockCount count] Run.start := by
  have hlast : blockCount count ≤ blockCount count := Nat.le_refl _
  have hlong : ¬ ((Run.advance secret value count)^[blockCount count] Run.start).octets.length <
      count := by
    rw [(isAt_iterate secret value hlast).length_octets, blockCount]
    omega
  rw [finish_iterate secret value hlast, finish, if_neg hlong]

end Blocks

/-! ### All blocks -/

theorem take_eq_map_octet (secret value : Bytes) (count : Nat) :
    take secret value count = (List.range count).map (octet secret value) := by
  have hcount : min count (32 * blockCount count) = count := by
    rw [blockCount]
    omega
  rw [take, Run.finish_start, (Run.isAt_iterate secret value (Nat.le_refl _)).octets_eq, hcount]

theorem length_take (secret value : Bytes) (count : Nat) :
    (take secret value count).length = count := by
  rw [take_eq_map_octet, List.length_map, List.length_range]

theorem take_isPrefix (secret value : Bytes) {count count' : Nat} (h : count ≤ count') :
    take secret value count <+: take secret value count' := by
  obtain ⟨more, rfl⟩ := Nat.exists_eq_add_of_le h
  rw [take_eq_map_octet, take_eq_map_octet, List.range_add, List.map_append]
  exact List.prefix_append _ _

theorem getElem?_take (secret value : Bytes) {count i : Nat} (hi : i < count) :
    (take secret value count)[i]? = (block secret value (UInt32.ofNat (i / 32)))[i % 32]? := by
  have hoffset : i % 32 < (block secret value (UInt32.ofNat (i / 32))).length := by
    rw [length_block]
    omega
  rw [take_eq_map_octet, List.getElem?_map, List.getElem?_range hi, Option.map_some, octet,
    List.getD_eq_getElem?_getD, List.getElem?_eq_getElem hoffset, Option.getD_some]

end Keystream

theorem Pseudonym.readable_isPrefix {p p' : Pseudonym} (hsecret : p.secret = p'.secret)
    (hwidth : p.width ≤ p'.width) (first last : UInt8) (value : Bytes) :
    p.readable first last value <+: p'.readable first last value := by
  rw [readable, readable, hsecret]
  exact (Keystream.take_isPrefix p'.secret value hwidth).map _

namespace Keystream

/-- **What a keystream is made of.** The block number counts the blocks up to the end, each octet is
that of the block it lies in, and all shorter keystreams are in front. So another length or threshold
cuts the pseudonym of a long value elsewhere, and what is left of it is the same. -/
theorem take_reads_keyed_blocks (secret value : Bytes) {count : Nat}
    (hcount : count ≤ 32 * (UInt32.size - 1)) :
    (∀ index ≤ blockCount count,
        ((Run.advance secret value count)^[index] Run.start).next.toNat = index) ∧
      take secret value count =
        ((Run.advance secret value count)^[blockCount count] Run.start).octets ∧
      (take secret value count).length = count ∧
      (∀ i < count, ∃ number : Bytes, number.length = 4 ∧ ofBigEndian number = i / 32 ∧
        (take secret value count)[i]? = (Hmac.digest secret (number ++ value))[i % 32]?) ∧
      (∀ shorter ≤ count, take secret value shorter <+: take secret value count) ∧
      ∀ kind kind' length length' threshold threshold',
        Pseudonym.widthFor length threshold ≤ Pseudonym.widthFor length' threshold' →
        (Pseudonym.make secret kind length threshold).letters value <+:
            (Pseudonym.make secret kind' length' threshold').letters value ∧
          (Pseudonym.make secret kind length threshold).digits value <+:
            (Pseudonym.make secret kind' length' threshold').digits value := by
  have hblocks : blockCount count < UInt32.size := by
    rw [UInt32.size] at hcount ⊢
    rw [blockCount]
    omega
  refine ⟨?_, ?_, length_take secret value count, ?_, ?_, ?_⟩
  · intro index hindex
    have hsize : index < UInt32.size := Nat.lt_of_le_of_lt hindex hblocks
    rw [(Run.isAt_iterate secret value hindex).next_eq, UInt32.toNat_ofNat_of_lt' hsize]
  · rw [take, Run.finish_start]
  · intro i hi
    have hsize : i / 32 < UInt32.size := by
      rw [blockCount] at hblocks
      omega
    refine ⟨Sha256.wordOctets (UInt32.ofNat (i / 32)), rfl, ?_, getElem?_take secret value hi⟩
    rw [ofBigEndian_wordOctets, UInt32.toNat_ofNat_of_lt' hsize]
  · intro shorter hshorter
    exact take_isPrefix secret value hshorter
  · intro kind kind' length length' threshold threshold' hwidth
    have hsecret : (Pseudonym.make secret kind length threshold).secret =
      (Pseudonym.make secret kind' length' threshold').secret := rfl
    exact ⟨Pseudonym.readable_isPrefix hsecret hwidth 0x61 0x7A value,
      Pseudonym.readable_isPrefix hsecret hwidth 0x31 0x39 value⟩

/-- A keystream of two and a half blocks ends in the block of number two. -/
theorem take_reads_keyed_blocks_third :
    80 ≤ 32 * (UInt32.size - 1) ∧ (take (ascii "lapin") (ascii "hello") 80).length = 80 ∧
      (∃ number : Bytes, number.length = 4 ∧ ofBigEndian number = 2 ∧
        (take (ascii "lapin") (ascii "hello") 80)[79]? =
          (Hmac.digest (ascii "lapin") (number ++ ascii "hello"))[15]?) ∧
      take (ascii "lapin") (ascii "hello") 32 <+: take (ascii "lapin") (ascii "hello") 80 := by
  have hcount : 80 ≤ 32 * (UInt32.size - 1) := by decide
  obtain ⟨-, -, hlength, hoctets, hfronts, -⟩ :=
    take_reads_keyed_blocks (ascii "lapin") (ascii "hello") hcount
  exact ⟨hcount, hlength, hoctets 79 (by decide), hfronts 32 (by decide)⟩

end Keystream

end DumpMask
