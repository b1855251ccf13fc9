import Firenook.FirestoreService
import Firenook.QueryResults

/-!
# Snapshots of either backend over a run

Commits that keep the keys apart keep the indexes of a store complete, and commits
below the time limit stamp every document that they change with a new time.  A
snapshot taken earlier therefore tells by update times which documents have changed.
-/

namespace Firenook

open QueryEngine.Snapshot Store

/-- What a commit leaves of a map: every document is the old one, or is gone, or is
stamped with the commit time. -/
def Restamps (commitTime : Timestamp) (before after : DocumentMap) : Prop :=
  ∀ key : DocumentKey, after[key]? = before[key]? ∨ after[key]? = none ∨
    ∃ document, after[key]? = some document ∧ document.updateTime = commitTime

theorem Restamps.putDocument {commitTime : Timestamp} {before documents stored : DocumentMap}
    {write : Write} {next : Option Document} (restamps : Restamps commitTime before documents)
    (restampsStored : Restamps commitTime before stored)
    (applied : nextDocument documents[writeKey write]? commitTime write = .ok next) :
    Restamps commitTime before (Firenook.putDocument stored (writeKey write) next) := by
  intro key
  rw [getElem?_putDocument]
  split_ifs with isKey
  · subst isKey
    rcases nextDocument_cases applied with kept | removed | ⟨document, stamped, isTime⟩
    · rw [kept]
      exact restamps _
    · exact .inr (.inl removed)
    · exact .inr (.inr ⟨document, stamped, isTime⟩)
  · exact restampsStored key

theorem Plans.restamps {revision : Nat} {commitTime : Timestamp}
    {before documents planned stored : DocumentMap} {writes : List Write} {changes : List Change}
    (plans : Plans revision commitTime documents writes planned changes)
    (restamps : Restamps commitTime before documents)
    (restampsStored : Restamps commitTime before stored) :
    Restamps commitTime before planned ∧ Restamps commitTime before
      (mutatedDocuments stored (changes.map fun change => ⟨change.key, change.after⟩)) := by
  induction plans generalizing stored with
  | nil => exact ⟨restamps, restampsStored⟩
  | silent applied _ _ ih => exact ih (restamps.putDocument restamps applied) restampsStored
  | logged applied _ _ ih =>
    exact ih (restamps.putDocument restamps applied) (restamps.putDocument restampsStored applied)

namespace Store

/-- No two different keys that are stored or written share an index key. -/
def KeepsApart (store : Store) (writes : List Write) : Prop :=
  Apart fun key => (store.snapshot.get key).isSome ∨ key ∈ writes.map writeKey

inductive Created : Store → Prop
  | memory (options : StoreOptions) : Created (.memory (.new options))
  | disk (options : StoreOptions) (journal : Bool) (durability : DiskDurability) :
      Created (.disk (.created options journal durability))

def Kept : Store → Prop
  | .memory state => state.Indexed ∧ Apart (· ∈ state.documents)
  | .disk state => ∃ documents all, Traced state documents all

variable {store : Store}

theorem Created.kept (created : store.Created) : store.Kept := by
  cases created with
  | memory options =>
    refine ⟨State.indexed_new options, ?_⟩
    intro first second stored
    simp [State.new] at stored
  | disk options journal durability =>
    exact ⟨∅, [], traced_created options journal durability⟩

theorem Created.holds (created : store.Created) : store.Holds ∅ := by
  cases created with
  | memory options => rfl
  | disk options journal durability => exact tablesHold_empty.stored

theorem Kept.holds (kept : store.Kept) : ∃ documents, store.Holds documents := by
  cases store with
  | memory state => exact ⟨state.documents, rfl⟩
  | disk state =>
    obtain ⟨documents, all, traced⟩ := kept
    exact ⟨documents, traced.hold.stored⟩

theorem Kept.listsScopes (kept : store.Kept) : store.snapshot.ListsScopes := by
  cases store with
  | memory state => exact kept.1.snapshot.listsScopes kept.2
  | disk state =>
    obtain ⟨documents, all, traced⟩ := kept
    exact traced.listsScopes (.inl rfl)

section

variable {crc32c : List UInt8 → UInt32} {store : Store} {clock : ClockReading} {writes : List Write}

theorem commit_disk_fst (state : DiskState) :
    (commit crc32c clock writes (.disk state)).1 =
      .disk (state.commitObserved crc32c clock writes).1 := by
  rw [commit]
  rcases state.commitObserved crc32c clock writes with ⟨_, _ | _⟩ <;> rfl

theorem Kept.commit (kept : store.Kept) (apart : store.KeepsApart writes) :
    (store.commit crc32c clock writes).1.Kept := by
  cases store with
  | memory state =>
    rw [commit]
    cases committed : state.commit clock writes with
    | error error => exact kept
    | ok success =>
      obtain ⟨result, changes, next⟩ := success
      refine ⟨kept.1.commit committed, apart.mono ?_⟩
      intro key member
      obtain ⟨planned, _, plans, rfl⟩ := commit_cases committed
      rw [installMetadata_eq, mem_iff_isSome] at member
      by_cases isWritten : key ∈ writes.map writeKey
      · exact .inr isWritten
      · left
        rwa [plans.getElem?_untouched isWritten] at member
  | disk state =>
    obtain ⟨documents, all, traced⟩ := kept
    rw [commit_disk_fst]
    exact traced.commitObserved apart

theorem isDiskBacked_commit (crc32c : List UInt8 → UInt32) (store : Store)
    (clock : ClockReading) (writes : List Write) :
    isDiskBacked (store.commit crc32c clock writes).1.snapshot =
      isDiskBacked store.snapshot := by
  cases store with
  | memory state =>
    rw [commit]
    cases state.commit clock writes <;> rfl
  | disk state =>
    rw [commit_disk_fst]
    rfl

end

def Stamped (store : Store) (snapshot : Snapshot) : Prop :=
  ∀ key document, snapshot.get key = some document →
    document.updateTime ≤ store.bookkeeping.lastCommitTime

/-- A snapshot taken earlier: a document that has kept its update time is the same. -/
structure Earlier (store : Store) (snapshot : Snapshot) : Prop where
  lists : snapshot.ListsScopes
  backed : isDiskBacked snapshot =
    isDiskBacked store.snapshot
  stamped : store.Stamped snapshot
  stable : ∀ key document current, snapshot.get key = some document →
    store.snapshot.get key = some current → document.updateTime = current.updateTime →
      document = current

structure Settled (store : Store) : Prop where
  kept : store.Kept
  timeBound : store.bookkeeping.lastCommitTime.seconds < Timestamp.maxSeconds
  stamped : store.Stamped store.snapshot

theorem Created.settled (created : store.Created) : store.Settled where
  kept := created.kept
  timeBound := by
    cases created <;> exact (by decide : (0 : Int) < Timestamp.maxSeconds)
  stamped := by
    intro key document found
    rw [get_snapshot created.holds] at found
    simp at found

theorem Settled.earlier (settled : store.Settled) : store.Earlier store.snapshot where
  lists := settled.kept.listsScopes
  backed := rfl
  stamped := settled.stamped
  stable := by
    intro key document current found foundCurrent _
    exact Option.some.inj (found.symm.trans foundCurrent)

section

variable {crc32c : List UInt8 → UInt32} {store next : Store} {clock : ClockReading}
  {writes : List Write} {result : CommitResult}

section

variable (settled : store.Settled) (success : store.commit crc32c clock writes = (next, .ok result))
include settled success

theorem Settled.restamps (key : DocumentKey) :
    next.snapshot.get key = store.snapshot.get key ∨ next.snapshot.get key = none ∨
      ∃ document, next.snapshot.get key = some document ∧
        document.updateTime = next.bookkeeping.lastCommitTime := by
  obtain ⟨documents, holds⟩ := settled.kept.holds
  obtain ⟨_, _, isTime, planned, changes, final, plans, nextHolds, isFinal⟩ :=
    commit_ok success holds
  have unchanged : Restamps result.commitTime documents documents := fun _ => .inl rfl
  have restamps : Restamps result.commitTime documents final := by
    rcases isFinal with rfl | rfl
    · exact (plans.restamps unchanged unchanged).1
    · exact (plans.restamps unchanged unchanged).2
  rw [get_snapshot nextHolds, get_snapshot holds, isTime]
  exact restamps key

theorem lastCommitTime_lt : store.bookkeeping.lastCommitTime < next.bookkeeping.lastCommitTime := by
  obtain ⟨documents, holds⟩ := settled.kept.holds
  obtain ⟨isResult, _, isTime, _⟩ := commit_ok success holds
  rw [isTime, isResult]
  exact lt_nextCommitTime settled.timeBound clock

theorem Settled.commit_ok (apart : store.KeepsApart writes)
    (below : (store.bookkeeping.nextCommitTime clock).seconds < Timestamp.maxSeconds) :
    next.Settled where
  kept := by
    have kept : (store.commit crc32c clock writes).1.Kept := settled.kept.commit apart
    rwa [success] at kept
  timeBound := by
    obtain ⟨documents, holds⟩ := settled.kept.holds
    obtain ⟨isResult, _, isTime, _⟩ := Store.commit_ok success holds
    rwa [isTime, isResult]
  stamped := by
    intro key document found
    rcases settled.restamps success key with same | gone | ⟨other, isOther, stamped⟩
    · rw [same] at found
      exact (settled.stamped key document found).trans (lastCommitTime_lt settled success).le
    · rw [gone] at found
      cases found
    · rw [isOther] at found
      cases found
      exact stamped.le

theorem Earlier.commit_ok {snapshot : Snapshot} (earlier : store.Earlier snapshot) :
    next.Earlier snapshot where
  lists := earlier.lists
  backed := by
    have backed := isDiskBacked_commit crc32c store clock writes
    rw [success] at backed
    rw [earlier.backed, backed]
  stamped := by
    intro key document found
    exact (earlier.stamped key document found).trans (lastCommitTime_lt settled success).le
  stable := by
    intro key document current found foundCurrent sameTime
    rcases settled.restamps success key with same | gone | ⟨other, isOther, stamped⟩
    · rw [same] at foundCurrent
      exact earlier.stable key document current found foundCurrent sameTime
    · rw [gone] at foundCurrent
      cases foundCurrent
    · -- a document of the snapshot is older than the commit
      rw [isOther] at foundCurrent
      cases foundCurrent
      have older := (earlier.stamped key document found).trans_lt
        (lastCommitTime_lt settled success)
      rw [sameTime, stamped] at older
      exact absurd older (lt_irrefl _)

end

theorem Settled.commit (settled : store.Settled) (apart : store.KeepsApart writes)
    (below : (store.bookkeeping.nextCommitTime clock).seconds < Timestamp.maxSeconds) :
    (store.commit crc32c clock writes).1.Settled := by
  rcases outcome : store.commit crc32c clock writes with ⟨next, error | result⟩
  · obtain ⟨sameBookkeeping, sameSnapshot⟩ := commit_error outcome
    have kept : (store.commit crc32c clock writes).1.Kept := settled.kept.commit apart
    rw [outcome] at kept
    refine ⟨kept, ?_, ?_⟩
    · rw [sameBookkeeping]
      exact settled.timeBound
    · rw [Stamped, sameBookkeeping, sameSnapshot]
      exact settled.stamped
  · exact settled.commit_ok outcome apart below

theorem Earlier.commit {snapshot : Snapshot} (earlier : store.Earlier snapshot)
    (settled : store.Settled) : (store.commit crc32c clock writes).1.Earlier snapshot := by
  rcases outcome : store.commit crc32c clock writes with ⟨next, error | result⟩
  · obtain ⟨sameBookkeeping, sameSnapshot⟩ := commit_error outcome
    refine ⟨earlier.lists, ?_, ?_, ?_⟩
    · rw [sameSnapshot]
      exact earlier.backed
    · rw [Stamped, sameBookkeeping]
      exact earlier.stamped
    · rw [sameSnapshot]
      exact earlier.stable
  · exact earlier.commit_ok settled outcome

end

end Store
end Firenook
