import Mathlib

/-!
# Sums over ordered maps

Lookup rules for ordered maps with a lawful comparison, stated with equality of
keys, and the total of a measure over all entries.
-/

namespace Firenook.OrderedMaps

open Std ExtTreeMap

variable {α β : Type} {cmp : α → α → Ordering} [TransCmp cmp] [LawfulEqCmp cmp]
  {map : ExtTreeMap α β cmp} {key : α} {value : β}

theorem getElem?_insert_eq [DecidableEq α] (map : ExtTreeMap α β cmp) (key other : α) (value : β) :
    (map.insert key value)[other]? = if key = other then some value else map[other]? := by
  rw [getElem?_insert]
  simp only [LawfulEqCmp.compare_eq_iff_eq]

theorem getElem?_erase [DecidableEq α] (map : ExtTreeMap α β cmp) (key other : α) :
    (map.erase key)[other]? = if key = other then none else map[other]? := by
  rw [ExtTreeMap.getElem?_erase]
  simp only [LawfulEqCmp.compare_eq_iff_eq]

theorem nodup_toList (map : ExtTreeMap α β cmp) : map.toList.Nodup := by
  refine (distinct_keys_toList (t := map)).imp ?_
  intro first second distinct same
  subst same
  simp at distinct

theorem toList_perm_cons_erase (stored : map[key]? = some value) :
    map.toList.Perm ((key, value) :: (map.erase key).toList) := by
  classical
  refine (List.perm_ext_iff_of_nodup (nodup_toList map) ?_).mpr ?_
  · refine List.nodup_cons.mpr ⟨?_, nodup_toList _⟩
    simp
  · rintro ⟨other, present⟩
    simp only [List.mem_cons, mem_toList_iff_getElem?_eq_some, getElem?_erase]
    split_ifs with same
    · subst same
      simp [stored, eq_comm]
    · simp [Ne.symm same]

theorem erase_insert (map : ExtTreeMap α β cmp) (key : α) (value : β) :
    (map.insert key value).erase key = map.erase key := by
  classical
  refine ext_getElem? fun other => ?_
  simp only [getElem?_erase, getElem?_insert_eq]
  split_ifs <;> rfl

theorem erase_of_absent (absent : map[key]? = none) : map.erase key = map := by
  classical
  refine ext_getElem? fun other => ?_
  rw [getElem?_erase]
  split_ifs with same
  · rw [← same, absent]
  · rfl

def total (measure : α → β → Nat) (map : ExtTreeMap α β cmp) : Nat :=
  (map.toList.map fun entry => measure entry.1 entry.2).sum

variable (measure : α → β → Nat)

omit [LawfulEqCmp cmp] in
@[simp]
theorem total_empty : total measure (∅ : ExtTreeMap α β cmp) = 0 := by
  simp [total, toList_eq_nil_iff.mpr]

theorem total_erase_add (stored : map[key]? = some value) :
    total measure (map.erase key) + measure key value = total measure map := by
  have sameSum := ((toList_perm_cons_erase stored).map fun entry => measure entry.1 entry.2).sum_eq
  simp only [total, List.map_cons, List.sum_cons] at sameSum ⊢
  omega

theorem total_insert (map : ExtTreeMap α β cmp) (key : α) (value : β) :
    total measure (map.insert key value) = total measure (map.erase key) + measure key value := by
  have stored : (map.insert key value)[key]? = some value := by simp
  rw [← total_erase_add measure stored, erase_insert]

theorem size_erase_add_one
    (stored : map[key]? = some value) : (map.erase key).size + 1 = map.size := by
  have sameLength := (toList_perm_cons_erase stored).length_eq
  simp only [List.length_cons, length_toList] at sameLength
  omega

theorem size_insert (map : ExtTreeMap α β cmp) (key : α) (value : β) :
    (map.insert key value).size = (map.erase key).size + 1 := by
  have stored : (map.insert key value)[key]? = some value := by simp
  rw [← size_erase_add_one stored, erase_insert]

omit [LawfulEqCmp cmp] in
theorem size_le_total {measure : α → β → Nat} (positive : ∀ key value, 1 ≤ measure key value)
    (map : ExtTreeMap α β cmp) : map.size ≤ total measure map := by
  rw [← length_toList]
  unfold total
  induction map.toList with
  | nil => simp
  | cons entry entries ih =>
    have := positive entry.1 entry.2
    simp only [List.length_cons, List.map_cons, List.sum_cons]
    omega

end Firenook.OrderedMaps
