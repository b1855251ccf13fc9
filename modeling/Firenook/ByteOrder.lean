import Mathlib

/-!
# Byte strings in lexicographic order

Encodings whose byte order is the order of what they encode: big-endian numbers
and byte strings closed by a terminator.  The file also contains the successor of
a prefix, which bounds the range of all byte strings that start with it.
-/

namespace Firenook.ByteOrder

open Std List Nat UInt8

theorem compare_cons_cons (first second : UInt8) (left right : List UInt8) :
    compare (first :: left) (second :: right) = (compare first second).then (compare left right) :=
  List.compareLex_cons_cons

@[simp]
theorem compare_append_append (front left right : List UInt8) :
    compare (front ++ left) (front ++ right) = compare left right := by
  induction front with
  | nil => rfl
  | cons byte front ih =>
    rw [cons_append, cons_append, compare_cons_cons, ih, ReflOrd.compare_self]
    rfl

/-! ## Big-endian numbers -/

def bigEndian : Nat → Nat → List UInt8
  | 0, _ => []
  | width + 1, number => ofNat (number / 256 ^ width) :: bigEndian width (number % 256 ^ width)

def fromBigEndian : List UInt8 → Nat
  | [] => 0
  | byte :: bytes => byte.toNat * 256 ^ bytes.length + fromBigEndian bytes

@[simp]
theorem length_bigEndian (width number : Nat) : (bigEndian width number).length = width := by
  induction width generalizing number with
  | zero => rfl
  | succ width ih => simp [bigEndian, ih]

theorem div_pow_lt {number width : Nat} (bounded : number < 256 ^ (width + 1)) :
    number / 256 ^ width < 256 := by
  exact Nat.div_lt_of_lt_mul bounded

theorem fromBigEndian_bigEndian {width number : Nat} (bounded : number < 256 ^ width) :
    fromBigEndian (bigEndian width number) = number := by
  induction width generalizing number with
  | zero =>
    simp only [pow_zero, lt_one_iff] at bounded
    simp [bigEndian, fromBigEndian, bounded]
  | succ width ih =>
    have positive : 0 < 256 ^ width := by positivity
    rw [bigEndian, fromBigEndian, length_bigEndian, ih (mod_lt _ positive),
      toNat_ofNat', mod_eq_of_lt (div_pow_lt bounded), mul_comm]
    exact div_add_mod number (256 ^ width)

theorem compare_ofNat {first second : Nat} (firstSmall : first < 256) (secondSmall : second < 256) :
    compare (UInt8.ofNat first) (UInt8.ofNat second) = compare first second := by
  change compareOfLessAndEq _ _ = compareOfLessAndEq _ _
  simp only [compareOfLessAndEq, UInt8.lt_iff_toNat_lt, ← UInt8.toNat_inj, UInt8.toNat_ofNat',
    mod_eq_of_lt firstSmall, mod_eq_of_lt secondSmall]

theorem compare_div_mod (base first second : Nat) :
    compare first second =
      (compare (first / base) (second / base)).then (compare (first % base) (second % base)) := by
  have firstParts := Nat.div_add_mod first base
  have secondParts := Nat.div_add_mod second base
  rcases Nat.lt_trichotomy (first / base) (second / base) with less | same | greater
  · rw [Nat.compare_eq_lt.mpr (Nat.lt_of_div_lt_div less), Nat.compare_eq_lt.mpr less]
    rfl
  · rw [same, Nat.compare_eq_eq.mpr rfl, Ordering.eq_then]
    rw [same] at firstParts
    rcases Nat.lt_trichotomy (first % base) (second % base) with less | equal | greater
    · rw [Nat.compare_eq_lt.mpr less, Nat.compare_eq_lt.mpr (by omega)]
    · rw [Nat.compare_eq_eq.mpr equal, Nat.compare_eq_eq.mpr (by omega)]
    · rw [Nat.compare_eq_gt.mpr greater, Nat.compare_eq_gt.mpr (by omega)]
  · rw [Nat.compare_eq_gt.mpr (Nat.lt_of_div_lt_div greater), Nat.compare_eq_gt.mpr greater]
    rfl

theorem compare_bigEndian_append {width first second : Nat} (firstSmall : first < 256 ^ width)
    (secondSmall : second < 256 ^ width) (left right : List UInt8) :
    compare (bigEndian width first ++ left) (bigEndian width second ++ right) =
      (compare first second).then (compare left right) := by
  induction width generalizing first second with
  | zero =>
    simp only [pow_zero, lt_one_iff] at firstSmall secondSmall
    subst firstSmall secondSmall
    rfl
  | succ width ih =>
    have positive : 0 < 256 ^ width := by positivity
    rw [bigEndian, bigEndian, cons_append, cons_append, compare_cons_cons,
      ih (mod_lt _ positive) (mod_lt _ positive),
      compare_ofNat (div_pow_lt firstSmall) (div_pow_lt secondSmall),
      compare_div_mod (256 ^ width) first second, Ordering.then_assoc]

/-! ## Terminated byte strings -/

/-- A zero byte is followed by the greatest byte, so that two zeros end a string. -/
def escaped (bytes : List UInt8) : List UInt8 :=
  bytes.flatMap fun byte => if byte = 0 then [0, 255] else [byte]

def terminated (bytes : List UInt8) : List UInt8 := escaped bytes ++ [0, 0]

theorem terminated_cons (byte : UInt8) (bytes : List UInt8) :
    terminated (byte :: bytes) = (if byte = 0 then [0, 255] else [byte]) ++ terminated bytes := by
  rw [terminated, escaped, flatMap_cons, append_assoc]
  rfl

variable {byte : UInt8}

theorem compare_zero_of_ne (nonzero : byte ≠ 0) : compare 0 byte = .lt := by
  rw [compare_eq_lt]
  exact UInt8.pos_iff_ne_zero.mpr nonzero

theorem compare_terminator_append (byte : UInt8) (bytes left right : List UInt8) :
    compare ([0, 0] ++ left) (terminated (byte :: bytes) ++ right) = .lt := by
  rw [terminated_cons]
  split_ifs with zero
  · rfl
  · change compare (0 :: 0 :: left) (byte :: (terminated bytes ++ right)) = .lt
    rw [compare_cons_cons, compare_zero_of_ne zero]
    rfl

theorem compare_terminated_append (first second left right : List UInt8) :
    compare (terminated first ++ left) (terminated second ++ right) =
      (compare first second).then (compare left right) := by
  induction first generalizing second with
  | nil =>
    cases second with
    | nil => exact compare_append_append [0, 0] left right
    | cons byte second => exact compare_terminator_append byte second left right
  | cons byte first ih =>
    cases second with
    | nil =>
      rw [OrientedOrd.eq_swap]
      exact congrArg Ordering.swap (compare_terminator_append byte first right left)
    | cons other second =>
      rw [terminated_cons, terminated_cons, compare_cons_cons, Ordering.then_assoc, ← ih]
      split_ifs with zero otherZero otherZero
      · rw [zero, otherZero]
        rfl
      · rw [zero]
        change compare (0 :: 255 :: _) (other :: _) = _
        rw [compare_cons_cons, compare_zero_of_ne otherZero]
        rfl
      · have above : compare byte 0 = .gt := by
          rw [OrientedOrd.eq_swap, compare_zero_of_ne zero]
          rfl
        rw [otherZero]
        change compare (byte :: _) (0 :: 255 :: _) = _
        rw [compare_cons_cons, above]
        rfl
      · exact compare_cons_cons byte other _ _

/-! ## Prefix ranges -/

/-- The loop of `prefix_successor` over the reversed prefix: drops trailing greatest
bytes and increments the byte before them. -/
def successorOfReversed : List UInt8 → Option (List UInt8)
  | [] => none
  | byte :: front =>
    if byte ≠ 255 then some ((byte + 1) :: front).reverse else successorOfReversed front

/-- The least byte string above everything that starts with the given one. -/
def prefixSuccessor (front : List UInt8) : Option (List UInt8) := successorOfReversed front.reverse

theorem exists_prefixSuccessor {front : List UInt8} (member : byte ∈ front)
    (small : byte ≠ 255) : ∃ upper, prefixSuccessor front = some upper := by
  have found : ∀ reversed : List UInt8, byte ∈ reversed →
      ∃ upper, successorOfReversed reversed = some upper := by
    intro reversed member
    induction reversed with
    | nil => cases member
    | cons other reversed ih =>
      rw [successorOfReversed]
      split_ifs with nonmaximal
      · exact ⟨_, rfl⟩
      · rcases mem_cons.mp member with rfl | member
        · exact absurd small nonmaximal
        · exact ih member
  exact found _ (mem_reverse.mpr member)

theorem exists_append_of_between {front left right bytes : List UInt8}
    (lower : (compare (front ++ left) bytes).isLE) (upper : compare bytes (front ++ right) = .lt) :
    ∃ rest, bytes = front ++ rest := by
  induction front generalizing bytes with
  | nil => exact ⟨bytes, rfl⟩
  | cons byte front ih =>
    cases bytes with
    | nil => cases lower
    | cons other bytes =>
      rw [cons_append, compare_cons_cons] at lower upper
      have swapped : compare other byte = (compare byte other).swap := OrientedOrd.eq_swap
      rw [swapped] at upper
      cases order : compare byte other with
      | lt =>
        rw [order] at upper
        cases upper
      | gt =>
        rw [order] at lower
        cases lower
      | eq =>
        rw [order] at lower upper
        obtain rfl := LawfulEqOrd.eq_of_compare order
        obtain ⟨rest, rfl⟩ := ih lower upper
        exact ⟨rest, rfl⟩

theorem isLE_compare_append (front rest : List UInt8) : (compare front (front ++ rest)).isLE := by
  conv_lhs => rw [← append_nil front]
  rw [append_assoc, compare_append_append]
  cases rest <;> rfl

theorem lt_add_one_of_ne (small : byte ≠ 255) : byte < byte + 1 := by
  have bound := byte.toNat_lt
  have differs : byte.toNat ≠ 255 := fun equal => small (UInt8.toNat_inj.mp equal)
  rw [UInt8.lt_iff_toNat_lt, UInt8.toNat_add]
  simp only [UInt8.reduceToNat]
  omega

theorem le_of_lt_add_one {byte other : UInt8} (less : other < byte + 1) : other ≤ byte := by
  rw [UInt8.lt_iff_toNat_lt, UInt8.toNat_add] at less
  rw [UInt8.le_iff_toNat_le]
  simp only [UInt8.reduceToNat] at less
  omega

theorem exists_cons_of_isLE {bytes : List UInt8} (lower : (compare [byte] bytes).isLE) :
    ∃ other rest, bytes = other :: rest ∧ byte ≤ other := by
  cases bytes with
  | nil => cases lower
  | cons other rest =>
    refine ⟨other, rest, rfl, ?_⟩
    rw [compare_cons_cons] at lower
    rw [← isLE_compare]
    cases order : compare byte other with
    | lt => rfl
    | eq => rfl
    | gt =>
      rw [order] at lower
      cases lower

/-- Exactly the byte strings with the given prefix lie between it and its
successor. -/
theorem mem_prefix_range {front upper : List UInt8}
    (successor : prefixSuccessor front = some upper) (bytes : List UInt8) :
    (compare front bytes).isLE ∧ compare bytes upper = .lt ↔ ∃ rest, bytes = front ++ rest := by
  induction front using reverseRecOn with
  | nil => cases successor
  | append_singleton front byte ih =>
    rw [prefixSuccessor, reverse_concat, successorOfReversed] at successor
    split_ifs at successor with small
    · rw [reverse_cons, reverse_reverse, Option.some.injEq] at successor
      subst successor
      have next : compare byte (byte + 1) = .lt := by
        rw [compare_eq_lt]
        exact lt_add_one_of_ne small
      constructor
      · rintro ⟨lower, below⟩
        obtain ⟨rest, rfl⟩ := exists_append_of_between lower below
        rw [compare_append_append] at lower below
        obtain ⟨other, rest, rfl, notBelow⟩ := exists_cons_of_isLE lower
        have notAbove : other ≤ byte := by
          rw [compare_cons_cons] at below
          cases order : compare other (byte + 1) with
          | lt =>
            rw [compare_eq_lt] at order
            exact le_of_lt_add_one order
          | eq =>
            rw [order] at below
            cases rest <;> cases below
          | gt =>
            rw [order] at below
            cases below
        obtain rfl := le_antisymm notBelow notAbove
        exact ⟨rest, by rw [append_assoc]; rfl⟩
      · rintro ⟨rest, rfl⟩
        refine ⟨isLE_compare_append _ _, ?_⟩
        rw [append_assoc, compare_append_append]
        change compare (byte :: rest) [byte + 1] = .lt
        rw [compare_cons_cons, next]
        rfl
    · rw [Decidable.not_not] at small
      subst small
      have shorter := ih successor
      constructor
      · rintro ⟨lower, below⟩
        obtain ⟨rest, rfl⟩ := shorter.mp
          ⟨TransOrd.isLE_trans (isLE_compare_append front [255]) lower, below⟩
        rw [compare_append_append] at lower
        obtain ⟨other, rest, rfl, notBelow⟩ := exists_cons_of_isLE lower
        obtain rfl : other = 255 := by grind
        exact ⟨rest, by rw [append_assoc]; rfl⟩
      · rintro ⟨rest, rfl⟩
        refine ⟨isLE_compare_append _ _, ?_⟩
        exact (shorter.mpr ⟨[255] ++ rest, append_assoc _ _ _⟩).2

end Firenook.ByteOrder
