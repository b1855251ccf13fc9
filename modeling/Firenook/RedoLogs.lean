import Firenook.Runs

/-!
# Redo logs

A history of numbered records is stored in two places: a prefix of it in a state, and
the rest in a log that may also still hold records of the prefix.  Redoing the log
from the state, where records of the prefix are skipped, yields the whole history.
-/

namespace Firenook.RedoLogs

open List

variable {ρ : Type}

def Chained (follows : List ρ → ρ → Prop) (records : List ρ) : Prop :=
  ∀ front record back, records = front ++ record :: back → follows front record

/-- Above the prefix, the log holds exactly the tail. -/
def Covers (number : ρ → Nat) (logged base tail : List ρ) : Prop :=
  logged.filter (fun record => base.length < number record) = tail

section

variable {follows : List ρ → ρ → Prop}

theorem chained_nil : Chained follows [] := by
  intro front record back split
  simp at split

theorem Chained.left {first second : List ρ} (chained : Chained follows (first ++ second)) :
    Chained follows first := by
  rintro front record back rfl
  exact chained front record (back ++ second) (by simp)

theorem Chained.last {records : List ρ} {record : ρ}
    (chained : Chained follows (records ++ [record])) : follows records record :=
  chained records record [] rfl

theorem Chained.append {records : List ρ} {record : ρ} (chained : Chained follows records)
    (next : follows records record) : Chained follows (records ++ [record]) := by
  intro front other back split
  rcases eq_nil_or_concat back with rfl | ⟨middle, last, rfl⟩
  · obtain ⟨rfl, same⟩ := append_inj' split rfl
    cases same
    exact next
  · rw [concat_eq_append, ← cons_append, ← append_assoc] at split
    obtain ⟨rfl, _⟩ := append_inj' split rfl
    exact chained front other middle rfl

end

section

variable {follows : List ρ → ρ → Prop} {number : ρ → Nat}
  (numbered : ∀ front record, follows front record → number record = front.length + 1) {record : ρ}
  {base tail logged : List ρ}

include numbered

theorem Chained.number_le {records : List ρ} (chained : Chained follows records)
    (member : record ∈ records) : number record ≤ records.length := by
  obtain ⟨front, back, rfl⟩ := append_of_mem member
  rw [numbered _ _ (chained front record back rfl)]
  simp

theorem Chained.lt_number (chained : Chained follows (base ++ tail))
    (member : record ∈ tail) : base.length < number record := by
  obtain ⟨front, back, rfl⟩ := append_of_mem member
  rw [numbered _ _ (chained (base ++ front) record back (by simp)), length_append]
  omega

theorem Covers.advance {front back : List ρ} (covers : Covers number logged base (front ++ back))
    (chained : Chained follows (base ++ front ++ back)) :
    Covers number logged (base ++ front) back := by
  have narrower : logged.filter (fun record => (base ++ front).length < number record) =
      (logged.filter fun record => base.length < number record).filter
        fun record => (base ++ front).length < number record := by
    rw [filter_filter]
    apply filter_congr
    intro record _
    simp only [length_append, Bool.and_eq_decide, decide_eq_true_eq]
    rw [decide_eq_decide]
    omega
  rw [Covers] at covers ⊢
  rw [narrower, covers, filter_append, filter_eq_nil_iff.mpr, filter_eq_self.mpr,
    nil_append]
  · intro record member
    simpa using chained.lt_number numbered member
  · intro record member
    simpa using chained.left.number_le numbered (mem_append_right _ member)

theorem Covers.append
    (covers : Covers number logged base tail) (next : follows (base ++ tail) record) :
    Covers number (logged ++ [record]) base (tail ++ [record]) := by
  rw [Covers] at covers ⊢
  have above : base.length < number record := by
    rw [numbered _ _ next, length_append]
    omega
  rw [filter_append, covers, filter_cons_of_pos (by simpa using above), filter_nil]

theorem Covers.cons (covers : Covers number (record :: logged) base tail)
    (chained : Chained follows (base ++ tail)) :
    (number record ≤ base.length ∧ Covers number logged base tail) ∨
      ∃ rest, tail = record :: rest ∧ follows base record ∧
        Covers number logged (base ++ [record]) rest := by
  by_cases above : base.length < number record
  · right
    rw [Covers, filter_cons_of_pos (by simpa using above)] at covers
    subst covers
    refine ⟨_, rfl, chained base record _ rfl, ?_⟩
    have shorter : Covers number (record :: logged) base
        ([record] ++ logged.filter fun record => base.length < number record) := by
      rw [Covers, filter_cons_of_pos (by simpa using above)]
      rfl
    have advanced := shorter.advance numbered (by simpa using chained)
    have own := numbered _ _ (chained base record _ rfl)
    rwa [Covers, filter_cons_of_neg (by simp [own])] at advanced
  · left
    rw [Covers, filter_cons_of_neg (by simpa using above)] at covers
    exact ⟨by omega, covers⟩

end

theorem Covers.extend {number : ρ → Nat} {logged base : List ρ} (covers : Covers number logged base [])
    (more : List ρ) : Covers number logged (base ++ more) [] := by
  rw [Covers, filter_eq_nil_iff] at covers ⊢
  intro record member
  have below := covers record member
  simp only [decide_eq_true_eq, length_append] at below ⊢
  omega

theorem covers_nil (number : ρ → Nat) (base : List ρ) : Covers number [] base [] := rfl

theorem exists_foldlM_redo {σ ε : Type} {follows : List ρ → ρ → Prop} {number : ρ → Nat}
    (numbered : ∀ front record, follows front record → number record = front.length + 1)
    {Holds : σ → List ρ → Prop} {redo : σ → ρ → Except ε σ}
    (skips : ∀ state base record, Holds state base → number record ≤ base.length →
      redo state record = .ok state)
    {redoable : ρ → Prop}
    (redoes : ∀ state base record, Holds state base → follows base record → redoable record →
      ∃ next, redo state record = .ok next ∧ Holds next (base ++ [record]))
    {logged base tail : List ρ} {state : σ} (allRedoable : ∀ record ∈ logged, redoable record)
    (holds : Holds state base) (covers : Covers number logged base tail)
    (chained : Chained follows (base ++ tail)) :
    ∃ final, logged.foldlM redo state = .ok final ∧ Holds final (base ++ tail) := by
  induction logged generalizing base tail state with
  | nil =>
    cases covers
    exact ⟨state, rfl, by simpa using holds⟩
  | cons record logged ih =>
    rw [forall_mem_cons] at allRedoable
    rcases covers.cons numbered chained with ⟨below, covers⟩ | ⟨rest, rfl, next, covers⟩
    · obtain ⟨final, redone, holdsFinal⟩ := ih allRedoable.2 holds covers chained
      refine ⟨final, ?_, holdsFinal⟩
      exact bind_eq_ok.mpr ⟨state, skips state base record holds below, redone⟩
    · obtain ⟨after, redone, holds⟩ := redoes state base record holds next allRedoable.1
      obtain ⟨final, rest, holds⟩ := ih allRedoable.2 holds covers (by simpa using chained)
      refine ⟨final, ?_, by simpa using holds⟩
      exact bind_eq_ok.mpr ⟨after, redone, rest⟩

end Firenook.RedoLogs
