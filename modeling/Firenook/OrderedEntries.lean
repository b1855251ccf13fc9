import Mathlib

/-!
# Ordered association lists

A `BTreeMap` as the list of its entries in strictly ascending key order.  The
operations work on any list and keep ascending lists ascending.
-/

namespace Firenook.OrderedEntries

open Std List OrientedCmp TransCmp

variable {α β : Type} {cmp : α → α → Ordering} {key : α} {entries : List (α × β)} {value : β}

def Ascending (cmp : α → α → Ordering) (entries : List (α × β)) : Prop :=
  entries.Pairwise fun first second => cmp first.1 second.1 = .lt

instance (cmp : α → α → Ordering) (entries : List (α × β)) : Decidable (Ascending cmp entries) :=
  inferInstanceAs (Decidable (entries.Pairwise _))

def get? (cmp : α → α → Ordering) (key : α) : List (α × β) → Option β
  | [] => none
  | entry :: rest => if cmp key entry.1 = .eq then some entry.2 else get? cmp key rest

def insert (cmp : α → α → Ordering) (key : α) (value : β) : List (α × β) → List (α × β)
  | [] => [(key, value)]
  | entry :: rest =>
    match cmp key entry.1 with
    | .lt => (key, value) :: entry :: rest
    | .eq => (key, value) :: rest
    | .gt => entry :: insert cmp key value rest

def erase (cmp : α → α → Ordering) (key : α) : List (α × β) → List (α × β)
  | [] => []
  | entry :: rest =>
    if cmp key entry.1 = .eq then rest else entry :: erase cmp key rest

theorem get?_mem (found : get? cmp key entries = some value) :
    ∃ stored, (stored, value) ∈ entries ∧ cmp key stored = .eq := by
  induction entries with
  | nil => simp [get?] at found
  | cons entry rest ih =>
    rw [get?] at found
    split at found
    · next same =>
      cases found
      exact ⟨entry.1, by simp, same⟩
    · obtain ⟨stored, member, same⟩ := ih found
      exact ⟨stored, mem_cons_of_mem _ member, same⟩

theorem mem_insert {entry : α × β} (member : entry ∈ insert cmp key value entries) :
    entry = (key, value) ∨ entry ∈ entries := by
  induction entries with
  | nil => simpa [insert] using member
  | cons head rest ih =>
    rw [insert] at member
    split at member
    · simpa using member
    · rcases mem_cons.mp member with rfl | member
      · exact .inl rfl
      · exact .inr (mem_cons_of_mem _ member)
    · rcases mem_cons.mp member with rfl | member
      · exact .inr mem_cons_self
      · rcases ih member with same | member
        · exact .inl same
        · exact .inr (mem_cons_of_mem _ member)

theorem get?_insert [TransCmp cmp] (key other : α) (value : β) (entries : List (α × β)) :
    get? cmp other (insert cmp key value entries) =
      if cmp other key = .eq then some value else get? cmp other entries := by
  induction entries with
  | nil => simp [insert, get?]
  | cons entry rest ih =>
    rw [insert]
    split
    · rw [get?]
    · next same =>
      rw [get?, get?]
      split_ifs with found foundEntry
      · rfl
      · exact absurd (eq_trans foundEntry (eq_symm same)) found
      · rfl
    · next after =>
      rw [get?, get?, ih]
      split_ifs with foundEntry found found
      · have same := eq_trans (eq_symm found) foundEntry
        rw [after] at same
        cases same
      · rfl
      · rfl
      · rfl

theorem erase_sublist (cmp : α → α → Ordering) (key : α) (entries : List (α × β)) :
    (erase cmp key entries).Sublist entries := by
  induction entries with
  | nil => simp [erase]
  | cons entry rest ih =>
    rw [erase]
    split
    · exact sublist_cons_self entry rest
    · exact ih.cons_cons entry

theorem ascending_erase (ascending : Ascending cmp entries) (key : α) :
    Ascending cmp (erase cmp key entries) :=
  ascending.sublist (erase_sublist cmp key entries)

theorem ascending_insert [TransCmp cmp] (ascending : Ascending cmp entries) (key : α) (value : β) :
    Ascending cmp (insert cmp key value entries) := by
  induction entries with
  | nil => simp [insert, Ascending]
  | cons entry rest ih =>
    obtain ⟨entryBelow, restAscending⟩ := pairwise_cons.mp ascending
    rw [insert]
    split
    · next before =>
      refine pairwise_cons.mpr ⟨?_, ascending⟩
      intro later member
      rcases mem_cons.mp member with rfl | member
      · exact before
      · exact lt_trans before (entryBelow later member)
    · next same =>
      refine pairwise_cons.mpr ⟨?_, restAscending⟩
      intro later member
      exact lt_of_eq_of_lt same (entryBelow later member)
    · next after =>
      refine pairwise_cons.mpr ⟨?_, ih restAscending⟩
      intro later member
      rcases mem_insert member with rfl | member
      · exact lt_of_gt after
      · exact entryBelow later member

theorem insert_of_forall_lt [TransCmp cmp]
    (value : β) (last : ∀ entry ∈ entries, cmp entry.1 key = .lt) :
    insert cmp key value entries = entries ++ [(key, value)] := by
  induction entries with
  | nil => rfl
  | cons entry rest ih =>
    have after : cmp key entry.1 = .gt := gt_of_lt (last entry mem_cons_self)
    have appended := ih (forall_mem_cons.mp last).2
    rw [insert, after]
    rw [appended, cons_append]

theorem foldl_insert [TransCmp cmp]
    {front : List (α × β)} (ascending : Ascending cmp (front ++ entries)) :
    entries.foldl (fun map entry => insert cmp entry.1 entry.2 map) front = front ++ entries := by
  induction entries generalizing front with
  | nil => simp
  | cons entry entries ih =>
    rw [foldl_cons, insert_of_forall_lt]
    · rw [ih (by simpa using ascending), append_assoc, singleton_append]
    · intro earlier member
      exact (pairwise_append.mp ascending).2.2 earlier member entry mem_cons_self

theorem eq_of_pairwise_lt {γ : Type} (cmp : α → α → Ordering) [TransCmp cmp] (key : γ → α)
    {first second : List γ}
    (firstAscending : first.Pairwise fun left right => cmp (key left) (key right) = .lt)
    (secondAscending : second.Pairwise fun left right => cmp (key left) (key right) = .lt)
    (same : ∀ entry, entry ∈ first ↔ entry ∈ second) : first = second := by
  let below (left right : γ) : Prop := cmp (key left) (key right) = .lt
  have : Irrefl below := ⟨fun entry less => not_lt_of_lt less less⟩
  have : Antisymm below := ⟨fun left right less greater =>
    absurd greater (not_lt_of_lt less)⟩
  exact Pairwise.eq_of_mem_iff firstAscending secondAscending same

theorem ascending_ext [TransCmp cmp] {first second : List (α × β)}
    (firstAscending : Ascending cmp first) (secondAscending : Ascending cmp second)
    (same : ∀ entry, entry ∈ first ↔ entry ∈ second) : first = second :=
  eq_of_pairwise_lt cmp Prod.fst firstAscending secondAscending same

theorem get?_eq_none_of_forall_lt
    (above : ∀ entry ∈ entries, cmp key entry.1 = .lt) : get? cmp key entries = none := by
  induction entries with
  | nil => rfl
  | cons entry rest ih =>
    rw [forall_mem_cons] at above
    rw [get?, above.1]
    exact ih above.2

theorem get?_erase [TransCmp cmp] (ascending : Ascending cmp entries) (key other : α) :
    get? cmp other (erase cmp key entries) =
      if cmp other key = .eq then none else get? cmp other entries := by
  induction entries with
  | nil => simp [erase, get?]
  | cons entry rest ih =>
    obtain ⟨entryBelow, restAscending⟩ := pairwise_cons.mp ascending
    rw [erase]
    split_ifs with atEntry found found
    · -- the entry is the erased one, and all later keys are greater
      apply get?_eq_none_of_forall_lt
      intro later member
      have same := eq_trans found atEntry
      exact lt_of_eq_of_lt same (entryBelow later member)
    · rw [get?, if_neg]
      intro same
      exact found (eq_trans same (eq_symm atEntry))
    · rw [get?, ih restAscending, if_pos found, if_neg]
      intro same
      exact atEntry (eq_trans (eq_symm found) same)
    · rw [get?, get?, ih restAscending, if_neg found]

theorem get?_eq_some_iff [TransCmp cmp] [LawfulEqCmp cmp] (ascending : Ascending cmp entries) :
    get? cmp key entries = some value ↔ (key, value) ∈ entries := by
  constructor
  · intro found
    obtain ⟨stored, member, same⟩ := get?_mem found
    rwa [LawfulEqCmp.eq_of_compare same]
  · intro member
    induction entries with
    | nil => cases member
    | cons entry rest ih =>
      obtain ⟨entryBelow, restAscending⟩ := pairwise_cons.mp ascending
      rcases mem_cons.mp member with rfl | member
      · rw [get?, if_pos ReflCmp.compare_self]
      · have below := entryBelow _ member
        rw [get?, if_neg, ih restAscending member]
        intro same
        have equal := eq_symm same
        rw [below] at equal
        cases equal

theorem ext_get? [TransCmp cmp] [LawfulEqCmp cmp]
    {first second : List (α × β)} (firstAscending : Ascending cmp first)
    (secondAscending : Ascending cmp second)
    (same : ∀ key, get? cmp key first = get? cmp key second) : first = second := by
  apply ascending_ext firstAscending secondAscending
  rintro ⟨key, value⟩
  rw [← get?_eq_some_iff firstAscending, ← get?_eq_some_iff secondAscending, same key]

end Firenook.OrderedEntries
