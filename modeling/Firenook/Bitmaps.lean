import Mathlib

/-!
# Bitmaps

A list of bytes read as a sequence of bits, least significant bit first.  Setting a bit is
defined only inside the list; it leaves the length and all other bits.
-/

namespace Bitmaps

variable (bitmap : List UInt8)

def testBit (position : Nat) : Bool :=
  (bitmap[position / 8]?).any fun byte => byte.toNat.testBit (position % 8)

def setBit (position : Nat) : Option (List UInt8) :=
  (bitmap[position / 8]?).map fun byte =>
    bitmap.set (position / 8) (byte ||| UInt8.ofNat (1 <<< (position % 8)))

def setBits (positions : List Nat) : Option (List UInt8) :=
  positions.foldlM setBit bitmap

theorem exists_setBit {bitmap : List UInt8} {position : Nat}
    (inside : position < 8 * bitmap.length) : ∃ next, setBit bitmap position = some next := by
  have byteInside : position / 8 < bitmap.length := by omega
  rw [setBit, List.getElem?_eq_getElem byteInside]
  exact ⟨_, rfl⟩

theorem length_setBit {bitmap next : List UInt8} {position : Nat}
    (isSet : setBit bitmap position = some next) : next.length = bitmap.length := by
  obtain ⟨byte, _, rfl⟩ := Option.map_eq_some_iff.mp isSet
  exact List.length_set

theorem testBit_or_shift (byte : UInt8) (bit other : Nat) (small : bit < 8) :
    (byte ||| UInt8.ofNat (1 <<< bit)).toNat.testBit other =
      (byte.toNat.testBit other || decide (bit = other)) := by
  have power : 2 ^ bit < 2 ^ 8 := Nat.pow_lt_pow_right (by decide) small
  rw [UInt8.toNat_or, Nat.testBit_or, UInt8.toNat_ofNat', Nat.one_shiftLeft,
    Nat.mod_eq_of_lt power, Nat.testBit_two_pow]

theorem testBit_setBit {bitmap next : List UInt8} {position : Nat}
    (isSet : setBit bitmap position = some next) (other : Nat) :
    testBit next other = (testBit bitmap other || decide (position = other)) := by
  obtain ⟨byte, found, rfl⟩ := Option.map_eq_some_iff.mp isSet
  unfold testBit
  have inside : position / 8 < bitmap.length := (List.getElem?_eq_some_iff.mp found).1
  by_cases sameByte : position / 8 = other / 8
  · rw [← sameByte, List.getElem?_set_self inside, found]
    have samePosition : position % 8 = other % 8 ↔ position = other := by omega
    simp only [Option.any_some, testBit_or_shift byte _ _ (Nat.mod_lt position (by decide)),
      samePosition]
  · have differs : position ≠ other := by
      rintro rfl
      exact sameByte rfl
    rw [List.getElem?_set_ne sameByte, decide_eq_false differs, Bool.or_false]

/-! ## Many bits -/

theorem setBits_cons (position : Nat) (positions : List Nat) :
    setBits bitmap (position :: positions) =
      (setBit bitmap position).bind fun next => setBits next positions := by
  rfl

theorem exists_setBits {bitmap : List UInt8} {positions : List Nat}
    (inside : ∀ position ∈ positions, position < 8 * bitmap.length) :
    ∃ next, setBits bitmap positions = some next ∧ next.length = bitmap.length ∧
      ∀ other, testBit next other = (testBit bitmap other || decide (other ∈ positions)) := by
  induction positions generalizing bitmap with
  | nil => exact ⟨bitmap, rfl, rfl, fun other => by simp⟩
  | cons position positions ih =>
    rw [List.forall_mem_cons] at inside
    obtain ⟨first, isFirst⟩ := exists_setBit inside.1
    have length := length_setBit isFirst
    rw [← length] at inside
    obtain ⟨next, isNext, nextLength, bits⟩ := ih inside.2
    refine ⟨next, ?_, nextLength.trans length, ?_⟩
    · rw [setBits_cons, isFirst]
      exact isNext
    · intro other
      rw [bits, testBit_setBit isFirst, Bool.or_assoc]
      simp [eq_comm]

theorem testBit_replicate_zero (count position : Nat) :
    testBit (List.replicate count 0) position = false := by
  unfold testBit
  rw [List.getElem?_replicate]
  split_ifs
  · simp
  · rfl

end Bitmaps
