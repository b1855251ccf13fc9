import Firenook.Bitmaps
import Firenook.ByteReaders

/-!
# Existence filters

The filter that tells a client which documents of a target are unchanged.  Two 64-bit halves
of a name's digest give as many bit positions as there are hashes; the client computes the same
positions from the size of the bitmap and its padding.
-/

namespace Firenook.Listen

open Bitmaps

structure BloomFilter where
  bitmap : List UInt8
  padding : Nat
  hashCount : Nat
  deriving DecidableEq

inductive FilterFailure
  | resourceExhausted (message : Text)
  /-- An index outside the bitmap. -/
  | panic
  deriving DecidableEq

def usizeMax : Nat := 2 ^ 64 - 1

/-- The digest of a name, of which each half is a 64-bit number. -/
abbrev Digest := Vector UInt8 16

variable (digest : Digest)

def Digest.first : Nat := fromLittleEndian (digest.toList.take 8)

def Digest.second : Nat := fromLittleEndian (digest.toList.drop 8)

def bitPosition (bitCount index : Nat) : Nat :=
  (digest.first + index * digest.second % 2 ^ 64) % 2 ^ 64 % bitCount

def bitPositions (bitCount hashCount : Nat) : List Nat :=
  (List.range hashCount).map (bitPosition digest bitCount)

def hashCountFor (bitCount count : Nat) : Nat :=
  min (max ((bitCount * 693 + count * 500) / (count * 1000)) 1) (2 ^ 31 - 1)

variable (md5 : List UInt8 → Digest)

def unchangedNamesBloomFilter (names : List Text) : Except FilterFailure BloomFilter :=
  if names = [] then .ok ⟨[], 0, 0⟩
  else
    let bitCount := names.length * 24 + 5
    if usizeMax < bitCount then
      .error (.resourceExhausted "existence-filter bloom size overflow".toList)
    else
      let byteCount := (bitCount + 7) / 8
      let hashCount := hashCountFor bitCount names.length
      let positions := names.flatMap fun name => bitPositions (md5 name.bytes) bitCount hashCount
      match setBits (List.replicate byteCount 0) positions with
      | none => .error .panic
      | some bitmap => .ok ⟨bitmap, byteCount * 8 - bitCount, hashCount⟩

def BloomFilter.mightContain (filter : BloomFilter) (name : Text) : Bool :=
  (bitPositions (md5 name.bytes) (filter.bitmap.length * 8 - filter.padding)
    filter.hashCount).all (testBit filter.bitmap)

/-- The filter's size is consistent, the bits of its padding are clear, and it contains the
names, of which it tests at least one bit each. -/
structure BloomFilter.Covers (filter : BloomFilter) (names : List Text) : Prop where
  padding : filter.padding ≤ 7
  size : filter.bitmap.length * 8 = names.length * 24 + 5 + filter.padding
  clear : ∀ position, filter.bitmap.length * 8 - filter.padding ≤ position →
    testBit filter.bitmap position = false
  hashes : 1 ≤ filter.hashCount
  contains : ∀ name ∈ names, filter.mightContain md5 name = true

variable {md5}

theorem bitPosition_lt {bitCount : Nat} (positive : 0 < bitCount)
    (index : Nat) : bitPosition digest bitCount index < bitCount :=
  Nat.mod_lt _ positive

theorem lt_of_mem_bitPositions {digest : Digest} {bitCount hashCount position : Nat}
    (positive : 0 < bitCount) (member : position ∈ bitPositions digest bitCount hashCount) :
    position < bitCount := by
  obtain ⟨index, _, rfl⟩ := List.mem_map.mp member
  exact bitPosition_lt digest positive index

theorem exists_filter {names : List Text} (nonempty : names ≠ [])
    (fits : names.length * 24 + 5 ≤ usizeMax) :
    ∃ filter, unchangedNamesBloomFilter md5 names = .ok filter ∧ filter.Covers md5 names := by
  let bitCount := names.length * 24 + 5
  let byteCount := (bitCount + 7) / 8
  let hashCount := hashCountFor bitCount names.length
  let positions := names.flatMap fun name => bitPositions (md5 name.bytes) bitCount hashCount
  have positive : 0 < bitCount := Nat.succ_pos _
  have bounded : ∀ position ∈ positions, position < bitCount := by
    intro position member
    obtain ⟨name, _, member⟩ := List.mem_flatMap.mp member
    exact lt_of_mem_bitPositions positive member
  have inside : ∀ position ∈ positions, position < 8 * (List.replicate byteCount (0 : UInt8)).length := by
    intro position member
    have := bounded position member
    rw [List.length_replicate]
    omega
  obtain ⟨bitmap, isBitmap, length, bits⟩ := exists_setBits inside
  rw [List.length_replicate] at length
  have testBit_bitmap : ∀ position, testBit bitmap position = decide (position ∈ positions) := by
    intro position
    rw [bits, testBit_replicate_zero, Bool.false_or]
  refine ⟨⟨bitmap, byteCount * 8 - bitCount, hashCount⟩, ?_, ?_, ?_, ?_, ?_, ?_⟩
  · rw [unchangedNamesBloomFilter, if_neg nonempty]
    dsimp only
    rw [if_neg (Nat.not_lt.mpr fits), isBitmap]
  · dsimp only
    omega
  · dsimp only
    omega
  · intro position past
    dsimp only at past
    rw [testBit_bitmap, decide_eq_false]
    intro member
    have := bounded position member
    omega
  · exact le_min (le_max_right _ _) (by decide)
  · intro name member
    rw [BloomFilter.mightContain, List.all_eq_true]
    have size : bitmap.length * 8 - (byteCount * 8 - bitCount) = bitCount := by
      omega
    rw [size]
    intro position isPosition
    rw [testBit_bitmap, decide_eq_true_eq]
    exact List.mem_flatMap.mpr ⟨name, member, isPosition⟩

/-- The filter of any names can be built without leaving the bitmap and contains them all; the
only failure is a size that does not fit a 64-bit number. -/
theorem existence_filter_covers_names (md5 : List UInt8 → Digest) (names : List Text)
    (nonempty : names ≠ []) :
    (∃ filter, unchangedNamesBloomFilter md5 names = .ok filter ∧ filter.Covers md5 names) ∨
    (usizeMax < names.length * 24 + 5 ∧ unchangedNamesBloomFilter md5 names =
      .error (.resourceExhausted "existence-filter bloom size overflow".toList)) := by
  by_cases fits : names.length * 24 + 5 ≤ usizeMax
  · exact .inl (exists_filter nonempty fits)
  · have tooLarge := Nat.not_le.mp fits
    refine .inr ⟨tooLarge, ?_⟩
    rw [unchangedNamesBloomFilter, if_neg nonempty]
    rw [if_pos tooLarge]

theorem existence_filter_covers_names_sample :
    ∃ filter, unchangedNamesBloomFilter (fun _ => Vector.replicate 16 7)
        ["documents/c/a".toList, "documents/c/b".toList] = .ok filter ∧
      filter.Covers (fun _ => Vector.replicate 16 7)
        ["documents/c/a".toList, "documents/c/b".toList] :=
  (existence_filter_covers_names _ _ (List.cons_ne_nil _ _)).resolve_right
    fun overflow => absurd overflow.1 (by decide)

end Firenook.Listen
