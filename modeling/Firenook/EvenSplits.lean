import Mathlib

/-!
# Even splits

Split points that cut a list into consecutive segments whose sizes differ by at most one: each
segment has the quotient of the length, and the first segments take one of the remainder each.
-/

namespace EvenSplits

open List Nat

variable {α : Type} {length points : Nat}

/-- Where the segment after `point` segments begins, for `points + 1` segments in all. -/
def splitPoint (length points point : Nat) : Nat :=
  length / (points + 1) * point + min (length % (points + 1)) point

theorem splitPoint_zero (length points : Nat) : splitPoint length points 0 = 0 := by
  simp [splitPoint]

theorem splitPoint_last : splitPoint length points (points + 1) = length := by
  have remainder := mod_lt length (succ_pos points)
  rw [splitPoint, min_eq_left remainder.le]
  exact div_add_mod' length (points + 1)

def segmentSize (length points point : Nat) : Nat :=
  length / (points + 1) + if point < length % (points + 1) then 1 else 0

theorem splitPoint_succ (point : Nat) :
    splitPoint length points (point + 1) =
      splitPoint length points point + segmentSize length points point := by
  rw [splitPoint, splitPoint, segmentSize, mul_succ]
  split_ifs <;> omega

theorem segmentSize_pos (enough : points + 1 ≤ length) (point : Nat) :
    0 < segmentSize length points point :=
  Nat.add_pos_left (Nat.div_pos enough (Nat.succ_pos points)) _

theorem segmentSize_le (point other : Nat) :
    segmentSize length points point ≤ segmentSize length points other + 1 := by
  unfold segmentSize
  split_ifs <;> omega

theorem splitPoint_strictMono (enough : points + 1 ≤ length) :
    StrictMono (splitPoint length points) := by
  apply strictMono_nat_of_lt_succ
  intro point
  rw [splitPoint_succ]
  exact Nat.lt_add_of_pos_right (segmentSize_pos enough point)

theorem splitPoint_le (length : Nat) {point : Nat} (bounded : point ≤ points + 1) :
    splitPoint length points point ≤ length := by
  have quotients := mul_le_mul_left (length / (points + 1)) bounded
  have whole := div_add_mod' length (points + 1)
  rw [splitPoint]
  omega

/-! ## Segments -/

def slices : List Nat → List α → List (List α)
  | start :: finish :: bounds, items =>
    (items.drop start).take (finish - start) :: slices (finish :: bounds) items
  | _, _ => []

/-- The segments from the start, from each split inclusive to the next exclusive, and to the
end. -/
def segments (items : List α) (splits : List Nat) : List (List α) :=
  slices (0 :: splits ++ [items.length]) items

/-- The splits cut the list into segments of almost the same size. -/
structure SplitsEvenly (items : List α) (splits : List Nat) : Prop where
  ascending : splits.Pairwise (· < ·)
  inside : ∀ split ∈ splits, 0 < split ∧ split < items.length
  covers : (segments items splits).flatten = items
  nonempty : ∀ segment ∈ segments items splits, segment = [] → items = []
  balanced : ∀ segment ∈ segments items splits, ∀ other ∈ segments items splits,
    segment.length ≤ other.length + 1

def splitPoints (length points : Nat) : List Nat := (range' 1 points).map (splitPoint length points)

def segmentAt (items : List α) (points point : Nat) : List α :=
  (items.drop (splitPoint items.length points point)).take (segmentSize items.length points point)

theorem slices_map_range' (bound : Nat → Nat) (items : List α) (start count : Nat) :
    slices ((range' start (count + 1)).map bound) items = (range' start count).map
      fun point => (items.drop (bound point)).take (bound (point + 1) - bound point) := by
  induction count generalizing start with
  | zero => rfl
  | succ count ih =>
    have rest := ih (start + 1)
    simp only [range'_succ, map_cons] at rest ⊢
    rw [slices, rest]

theorem bounds_eq (length points : Nat) :
    0 :: splitPoints length points ++ [length] =
      (range' 0 (points + 2)).map (splitPoint length points) := by
  rw [range'_succ, range'_concat, map_cons, splitPoint_zero, splitPoints]
  simp [add_comm 1, splitPoint_last]

section

variable (items : List α)

theorem segments_splitPoints (points : Nat) : segments items (splitPoints items.length points) =
      (range (points + 1)).map (segmentAt items points) := by
  rw [segments, bounds_eq, slices_map_range', range_eq_range']
  apply map_congr_left
  intro point _
  rw [splitPoint_succ, Nat.add_sub_cancel_left, segmentAt]

theorem flatten_segmentAt (points count : Nat) :
    ((range count).map (segmentAt items points)).flatten =
      items.take (splitPoint items.length points count) := by
  induction count with
  | zero => simp [splitPoint_zero]
  | succ count ih =>
    rw [range_succ, map_append, flatten_append, ih, splitPoint_succ, take_add]
    simp [segmentAt]

theorem length_segmentAt {points point : Nat} (bounded : point ≤ points) :
    (segmentAt items points point).length = segmentSize items.length points point := by
  have inside := splitPoint_le items.length (succ_le_succ bounded)
  rw [splitPoint_succ] at inside
  rw [segmentAt, length_take, length_drop]
  omega

theorem splitsEvenly_splitPoints {points : Nat} (enough : points ≤ items.length - 1) :
    SplitsEvenly items (splitPoints items.length points) := by
  have lengths : ∀ segment ∈ segments items (splitPoints items.length points),
      ∃ point, segment.length = segmentSize items.length points point := by
    intro segment member
    rw [segments_splitPoints] at member
    obtain ⟨point, isPoint, rfl⟩ := mem_map.mp member
    exact ⟨point, length_segmentAt items (Nat.lt_succ_iff.mp (mem_range.mp isPoint))⟩
  have increasing : items ≠ [] → StrictMono (splitPoint items.length points) := by
    intro nonempty
    have := length_pos_iff.mpr nonempty
    exact splitPoint_strictMono (by omega)
  have noneOfEmpty : items = [] → points = 0 := by
    rintro rfl
    simpa using enough
  constructor
  · rw [splitPoints, pairwise_map]
    by_cases empty : items = []
    · simp [noneOfEmpty empty]
    · exact (pairwise_lt_range' 1).imp fun less => increasing empty less
  · intro split member
    obtain ⟨point, isPoint, rfl⟩ := mem_map.mp member
    rw [mem_range'_1] at isPoint
    have nonempty : items ≠ [] := fun empty => by
      have := noneOfEmpty empty
      omega
    constructor
    · exact splitPoint_zero items.length points ▸ increasing nonempty (by omega)
    · have less := increasing nonempty (show point < points + 1 by omega)
      rwa [splitPoint_last] at less
  · rw [segments_splitPoints, flatten_segmentAt, splitPoint_last, take_length]
  · intro segment member isEmpty
    by_contra nonempty
    obtain ⟨point, length⟩ := lengths segment member
    have positive := length_pos_iff.mpr nonempty
    have size := segmentSize_pos (show points + 1 ≤ items.length by omega) point
    rw [isEmpty, length_nil] at length
    omega
  · intro segment member other otherMember
    obtain ⟨point, length⟩ := lengths segment member
    obtain ⟨otherPoint, otherLength⟩ := lengths other otherMember
    rw [length, otherLength]
    exact segmentSize_le point otherPoint

end

end EvenSplits
