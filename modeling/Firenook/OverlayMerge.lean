import Firenook.OrderedEntries

/-!
# Merging an overlay into an ordered scan

A scan in key order is merged with an overlay that replaces or hides entries.  The
comparison may identify different keys: an overlay entry hides every scanned entry
that compares equal to it.
-/

namespace Firenook.OverlayMerge

open OrderedEntries Std List

variable {α β : Type} (cmp : α → α → Ordering)

/-- Places one overlay entry: after the smaller scanned entries and in place of an
equal one. -/
def mergeAt (key : α) (shown : List (α × β)) (next : List (α × β) → List (α × β)) :
    List (α × β) → List (α × β)
  | [] => shown ++ next []
  | entry :: base =>
    match cmp entry.1 key with
    | .lt => entry :: mergeAt key shown next base
    | .eq => shown ++ next base
    | .gt => shown ++ next (entry :: base)

/-- The merged scan; an overlay entry without a value only hides. -/
def merge : List (α × Option β) → List (α × β) → List (α × β)
  | [], base => base
  | patch :: overlay, base =>
    mergeAt cmp patch.1 (patch.2.toList.map fun value => (patch.1, value)) (merge overlay) base

variable {cmp} [TransCmp cmp] {base : List (α × β)}

theorem exists_mergeAt_eq (ascending : Ascending cmp base) (key : α)
    (shown : List (α × β)) (next : List (α × β) → List (α × β)) :
    ∃ below same above, base = below ++ (same ++ above) ∧
      (∀ entry ∈ below, cmp entry.1 key = .lt) ∧ (∀ entry ∈ same, cmp entry.1 key = .eq) ∧
      (∀ entry ∈ above, cmp entry.1 key = .gt) ∧
      mergeAt cmp key shown next base = below ++ (shown ++ next above) := by
  induction base with
  | nil => exact ⟨[], [], [], rfl, nofun, nofun, nofun, rfl⟩
  | cons entry base ih =>
    obtain ⟨later, ascending⟩ := pairwise_cons.mp ascending
    have afterEntry : (cmp key entry.1).isLE → ∀ other ∈ base, cmp other.1 key = .gt :=
      fun notLess other member => OrientedCmp.gt_of_lt
        (TransCmp.lt_of_isLE_of_lt notLess (later other member))
    have swapped : cmp key entry.1 = (cmp entry.1 key).swap := OrientedCmp.eq_swap
    rw [mergeAt]
    cases order : cmp entry.1 key with
    | lt =>
      obtain ⟨below, same, above, rfl, allBelow, allSame, allAbove, merged⟩ := ih ascending
      exact ⟨entry :: below, same, above, rfl, forall_mem_cons.mpr ⟨order, allBelow⟩, allSame,
        allAbove, by simp only [merged, cons_append]⟩
    | eq =>
      exact ⟨[], [entry], base, rfl, nofun, by simpa using order,
        afterEntry (by rw [swapped, order]; rfl), rfl⟩
    | gt =>
      exact ⟨[], [], entry :: base, rfl, nofun, nofun,
        forall_mem_cons.mpr ⟨order, afterEntry (by rw [swapped, order]; rfl)⟩, rfl⟩

def Sorted (cmp : α → α → Ordering) (overlay : List (α × Option β)) : Prop :=
  overlay.Pairwise fun first second => (cmp first.1 second.1).isLE

theorem mem_merge {overlay : List (α × Option β)}
    (sorted : Sorted cmp overlay) (ascending : Ascending cmp base) (entry : α × β) :
    entry ∈ merge cmp overlay base ↔
      (entry.1, some entry.2) ∈ overlay ∨
        entry ∈ base ∧ ∀ patch ∈ overlay, cmp entry.1 patch.1 ≠ .eq := by
  induction overlay generalizing base with
  | nil => simp [merge]
  | cons patch overlay ih =>
    obtain ⟨later, sorted⟩ := pairwise_cons.mp sorted
    obtain ⟨below, same, above, rfl, allBelow, allSame, allAbove, merged⟩ := exists_mergeAt_eq
      ascending patch.1 (patch.2.toList.map fun value => (patch.1, value)) (merge cmp overlay)
    have aboveAscending := (pairwise_append.mp (pairwise_append.mp ascending).2.1).2.1
    have notHidden : entry ∈ below → ∀ further ∈ overlay, cmp entry.1 further.1 ≠ .eq := by
      intro member further inside equal
      have less := TransCmp.lt_of_lt_of_isLE (allBelow entry member) (later further inside)
      rw [less] at equal
      cases equal
    have visible : entry ∈ below ++ (same ++ above) ∧ cmp entry.1 patch.1 ≠ .eq ↔
        entry ∈ below ∨ entry ∈ above := by
      grind
    have shown : entry ∈ patch.2.toList.map (fun value => (patch.1, value)) ↔
        (entry.1, some entry.2) = patch := by
      obtain ⟨key, value⟩ := patch
      obtain ⟨entryKey, entryValue⟩ := entry
      cases value <;> simp
    rw [merge, merged, mem_append, mem_append, ih sorted aboveAscending, shown,
      mem_cons, forall_mem_cons, ← and_assoc, visible]
    constructor
    · rintro (inBelow | placed | inOverlay | ⟨inAbove, free⟩)
      · exact .inr ⟨.inl inBelow, notHidden inBelow⟩
      · exact .inl (.inl placed)
      · exact .inl (.inr inOverlay)
      · exact .inr ⟨.inr inAbove, free⟩
    · rintro ((placed | inOverlay) | ⟨inBelow | inAbove, free⟩)
      · exact .inr (.inl placed)
      · exact .inr (.inr (.inl inOverlay))
      · exact .inl inBelow
      · exact .inr (.inr (.inr ⟨inAbove, free⟩))

theorem ascending_merge {overlay : List (α × Option β)}
    (sorted : Sorted cmp overlay) (distinct : (overlay.map Prod.fst).Nodup)
    (ascending : Ascending cmp base)
    (separate : ∀ first ∈ merge cmp overlay base, ∀ second ∈ merge cmp overlay base,
      cmp first.1 second.1 = .eq → first.1 = second.1) :
    Ascending cmp (merge cmp overlay base) := by
  induction overlay generalizing base with
  | nil => exact ascending
  | cons patch overlay ih =>
    obtain ⟨later, sorted⟩ := pairwise_cons.mp sorted
    rw [map_cons, nodup_cons] at distinct
    obtain ⟨below, same, above, rfl, allBelow, -, allAbove, merged⟩ := exists_mergeAt_eq
      ascending patch.1 (patch.2.toList.map fun value => (patch.1, value)) (merge cmp overlay)
    obtain ⟨belowAscending, ascending, -⟩ := pairwise_append.mp ascending
    have aboveAscending := (pairwise_append.mp ascending).2.1
    rw [merge, merged] at separate ⊢
    have rest := ih sorted distinct.2 aboveAscending fun first firstMember second secondMember =>
      separate first (by simp [firstMember]) second (by simp [secondMember])
    -- every later entry comes from the overlay or from above the placed key
    have fromPatch : ∀ entry ∈ merge cmp overlay above,
        (cmp patch.1 entry.1).isLE ∧ entry.1 ≠ patch.1 := by
      intro entry member
      rcases (mem_merge sorted aboveAscending entry).mp member with inOverlay | ⟨inAbove, _⟩
      · exact ⟨later _ inOverlay, fun same =>
          distinct.1 (mem_map.mpr ⟨_, inOverlay, same⟩)⟩
      · have less := OrientedCmp.lt_of_gt (allAbove entry inAbove)
        refine ⟨by rw [less]; rfl, fun same => ?_⟩
        rw [same, show cmp patch.1 patch.1 = .eq from ReflCmp.compare_self] at less
        cases less
    have placedKey : ∀ entry ∈ patch.2.toList.map (fun value => (patch.1, value)),
        entry.1 = patch.1 := by
      intro entry member
      obtain ⟨value, _, rfl⟩ := mem_map.mp member
      rfl
    refine pairwise_append.mpr ⟨belowAscending, pairwise_append.mpr ⟨?_, rest, ?_⟩, ?_⟩
    · cases patch.2 <;> simp
    · intro first placed second member
      obtain ⟨notLess, differs⟩ := fromPatch second member
      rw [← placedKey first placed] at notLess differs
      cases order : cmp first.1 second.1 with
      | lt => rfl
      | eq =>
        have same := separate first (by simp [placed]) second (by simp [member]) order
        exact absurd same.symm differs
      | gt =>
        rw [order] at notLess
        cases notLess
    · intro first inBelow second member
      rcases mem_append.mp member with placed | member
      · rw [placedKey second placed]
        exact allBelow first inBelow
      · exact TransCmp.lt_of_lt_of_isLE (allBelow first inBelow) (fromPatch second member).1

end Firenook.OverlayMerge
