import Mathlib

/-!
# Comparators

Three-way comparisons around a triangle, and what lexicographic comparison makes of them.  A
comparator is a total preorder when it is antisymmetric and its comparisons compose; both are
stated element by element, so that they can be carried through a recursion over values that
contain lists of values.
-/

namespace Comparators

open Ordering Std.TransCmp

variable {α : Type} {cmp : α → α → Ordering}

theorem eq_of_lt_iff {left right : Ordering} (less : left = .lt ↔ right = .lt)
    (greater : left = .gt ↔ right = .gt) : left = right := by
  cases left <;> cases right <;> simp_all

/-- The comparisons of the first with the second, the second with the third and the first
with the third of three values fit together. -/
structure Composes (first second whole : Ordering) : Prop where
  left : first = .eq → whole = second
  right : second = .eq → whole = first
  lt : first = .lt → second = .lt → whole = .lt
  gt : first = .gt → second = .gt → whole = .gt

theorem Composes.refl (ordering : Ordering) : Composes .eq ordering ordering :=
  ⟨fun _ => rfl, fun equal => equal, nofun, nofun⟩

/-- Comparing first by one thing and then by another; the second matters only where the first
is equal throughout. -/
theorem Composes.then {first second whole nextFirst nextSecond nextWhole : Ordering}
    (composes : Composes first second whole)
    (next : first = .eq → second = .eq → Composes nextFirst nextSecond nextWhole) :
    Composes (first.then nextFirst) (second.then nextSecond) (whole.then nextWhole) := by
  cases first with
  | eq =>
    obtain rfl := composes.left rfl
    cases whole with
    | eq => exact next rfl rfl
    | lt => exact ⟨fun _ => rfl, nofun, fun _ _ => rfl, fun _ greater => greater⟩
    | gt => exact ⟨fun _ => rfl, nofun, fun _ less => less, fun _ _ => rfl⟩
  | lt =>
    cases second with
    | eq =>
      obtain rfl := composes.right rfl
      exact ⟨nofun, fun _ => rfl, fun _ _ => rfl, nofun⟩
    | lt =>
      obtain rfl := composes.lt rfl rfl
      exact ⟨nofun, nofun, fun _ _ => rfl, nofun⟩
    | gt => exact ⟨nofun, nofun, nofun, nofun⟩
  | gt =>
    cases second with
    | eq =>
      obtain rfl := composes.right rfl
      exact ⟨nofun, fun _ => rfl, nofun, fun _ _ => rfl⟩
    | gt =>
      obtain rfl := composes.gt rfl rfl
      exact ⟨nofun, nofun, nofun, fun _ _ => rfl⟩
    | lt => exact ⟨nofun, nofun, nofun, nofun⟩

theorem Composes.swap {first second whole : Ordering} (composes : Composes first second whole) :
    Composes first.swap second.swap whole.swap := by
  constructor
  · intro equal
    rw [composes.left (swap_eq_eq.mp equal)]
  · intro equal
    rw [composes.right (swap_eq_eq.mp equal)]
  · intro firstLess secondLess
    rw [composes.gt (swap_eq_lt.mp firstLess) (swap_eq_lt.mp secondLess)]
    rfl
  · intro firstGreater secondGreater
    rw [composes.lt (swap_eq_gt.mp firstGreater) (swap_eq_gt.mp secondGreater)]
    rfl

theorem composes_of_transCmp [Std.TransCmp cmp] (first second third : α) :
    Composes (cmp first second) (cmp second third) (cmp first third) where
  left := congr_left
  right equal := (congr_right equal).symm
  lt := lt_trans
  gt := gt_trans

theorem composes_compare {β : Type} [LinearOrder β] (first second third : β) :
    Composes (compare first second) (compare second third) (compare first third) where
  left equal := by rw [compare_eq_iff_eq.mp equal]
  right equal := by rw [compare_eq_iff_eq.mp equal]
  lt firstLess secondLess := compare_lt_iff_lt.mpr
    ((compare_lt_iff_lt.mp firstLess).trans (compare_lt_iff_lt.mp secondLess))
  gt firstGreater secondGreater := compare_gt_iff_gt.mpr
    ((compare_gt_iff_gt.mp secondGreater).trans (compare_gt_iff_gt.mp firstGreater))

theorem swap_compare {β : Type} [LinearOrder β] (left right : β) :
    compare left right = (compare right left).swap := by
  apply eq_of_lt_iff
  · rw [compare_lt_iff_lt, swap_eq_lt, compare_gt_iff_gt]
  · rw [compare_gt_iff_gt, swap_eq_gt, compare_lt_iff_lt]

theorem transCmp_of_composes (swap : ∀ first second, cmp first second = (cmp second first).swap)
    (composes : ∀ first second third,
      Composes (cmp first second) (cmp second third) (cmp first third)) : Std.TransCmp cmp where
  eq_swap := swap _ _
  isLE_trans {first second third} firstLess secondLess := by
    have triangle := composes first second third
    cases compared : cmp first second with
    | eq => rwa [triangle.left compared]
    | gt =>
      rw [compared] at firstLess
      cases firstLess
    | lt =>
      cases next : cmp second third with
      | eq =>
        rw [triangle.right next, compared]
        rfl
      | lt =>
        rw [triangle.lt compared next]
        rfl
      | gt =>
        rw [next] at secondLess
        cases secondLess

theorem transCmp_onKey {β : Type} (_ : Std.TransCmp cmp) (key : β → α) :
    Std.TransCmp fun left right => cmp (key left) (key right) where
  eq_swap := Std.OrientedCmp.eq_swap
  isLE_trans := isLE_trans

/-! ## Lists -/

theorem swap_compareLex {lefts rights : List α}
    (swap : ∀ left ∈ lefts, ∀ right, cmp left right = (cmp right left).swap) :
    List.compareLex cmp lefts rights = (List.compareLex cmp rights lefts).swap := by
  induction lefts generalizing rights with
  | nil => cases rights <;> rfl
  | cons left lefts ih =>
    cases rights with
    | nil => rfl
    | cons right rights =>
      rw [List.forall_mem_cons] at swap
      rw [List.compareLex_cons_cons, List.compareLex_cons_cons, ih swap.2, swap.1 right,
        swap_then]

theorem composes_compareLex {firsts : List α} (composes : ∀ first ∈ firsts, ∀ second third,
      Composes (cmp first second) (cmp second third) (cmp first third)) (seconds thirds : List α) :
    Composes (List.compareLex cmp firsts seconds) (List.compareLex cmp seconds thirds)
      (List.compareLex cmp firsts thirds) := by
  induction firsts generalizing seconds thirds with
  | nil =>
    cases seconds with
    | nil => exact .refl _
    | cons second seconds =>
      cases thirds with
      | nil => exact ⟨nofun, nofun, nofun, nofun⟩
      | cons third thirds => exact ⟨nofun, fun _ => rfl, fun _ _ => rfl, nofun⟩
  | cons first firsts ih =>
    rw [List.forall_mem_cons] at composes
    cases seconds with
    | nil =>
      cases thirds with
      | nil => exact ⟨nofun, fun _ => rfl, nofun, nofun⟩
      | cons third thirds => exact ⟨nofun, nofun, nofun, nofun⟩
    | cons second seconds =>
      cases thirds with
      | nil => exact ⟨fun _ => rfl, nofun, nofun, fun _ _ => rfl⟩
      | cons third thirds =>
        rw [List.compareLex_cons_cons, List.compareLex_cons_cons, List.compareLex_cons_cons]
        exact (composes.1 second third).then fun _ _ => ih composes.2 seconds thirds

/-! ## Total preorders -/

structure TotalPreorder (cmp : α → α → Ordering) : Prop where
  refl : ∀ value, cmp value value = .eq
  swap : ∀ left right, cmp left right = (cmp right left).swap
  trans : ∀ first second third, (cmp first second).isLE → (cmp second third).isLE →
    (cmp first third).isLE

theorem totalPreorder_of_transCmp [Std.TransCmp cmp] : TotalPreorder cmp where
  refl _ := Std.ReflCmp.compare_self
  swap _ _ := Std.OrientedCmp.eq_swap
  trans _ _ _ := isLE_trans

end Comparators
