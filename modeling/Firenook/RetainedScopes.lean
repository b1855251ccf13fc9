import Firenook.StoreSnapshots

/-!
# Scopes of retained snapshots

Every snapshot that a store of either backend hands out, of the current revision or of a
retained one, lists its scopes completely and in resource order, as long as no commit brings
together two keys with the same place in that order.
-/

namespace Firenook

variable {state : State} {all : List Change}

theorem Plans.sameKeys {revision : Nat} {commitTime : Timestamp}
    {documents planned stored : DocumentMap} {writes : List Write} {changes : List Change}
    (plans : Plans revision commitTime documents writes planned changes)
    (same : SameKeys documents stored) :
    SameKeys planned
      (mutatedDocuments stored (changes.map fun change => ⟨change.key, change.after⟩)) := by
  induction plans generalizing stored with
  | nil => exact same
  | @silent documents planned write writes next changes applied equal rest ih =>
    apply ih
    intro key
    rw [getElem?_putDocument, ← same key]
    split_ifs with isKey
    · rw [← isSome_of_optionDocumentEq equal, isKey]
    · rfl
  | logged applied differs rest ih => exact ih (same.putDocument _ rfl)

theorem sortedKeys_eq_toList {keys : KeySet} (sorted : keys.toList.Pairwise fun left right =>
    (compareResourcePaths left.path right.path).isLE) :
    Snapshot.sortedKeys keys = keys.toList :=
  List.mergeSort_of_pairwise sorted

/-- The documents of a memory store, which the logged changes lead back from. -/
structure TracedMemory (state : State) (all : List Change) : Prop where
  indexed : state.Indexed
  window : state.window.Invariant all state.revision
  unwinds : Unwinds state.documents all.reverse
  sorted : all.Pairwise fun older newer => older.revision ≤ newer.revision
  bounded : ∀ change ∈ all, change.revision ≤ state.revision

theorem tracedMemory_new (options : StoreOptions) : TracedMemory (.new options) [] where
  indexed := State.indexed_new options
  window := ReplayWindow.invariant_emptyAt 0
  unwinds := fun first second stored => by simp [State.new] at stored
  sorted := .nil
  bounded := by simp

section

variable (traced : TracedMemory state all)
include traced

theorem TracedMemory.commit {next : State} {clock : ClockReading} {writes : List Write}
    (apart : Apart fun key => key ∈ state.documents ∨ key ∈ writes.map writeKey)
    {result : CommitResult} {changes : List Change}
    (success : state.commit clock writes = .ok (result, changes, next)) :
    TracedMemory next (all ++ changes) := by
  have indexed := traced.indexed.commit success
  obtain ⟨planned, isResult, plans, rfl⟩ := commit_cases success
  have revisions := plans.change_revision
  have logged := logged_append traced.sorted traced.bounded revisions
  refine ⟨indexed, ?_, ?_, ?_, ?_⟩
  · rw [installMetadata_eq, isResult]
    exact ((traced.window.mono (Nat.le_succ _)).foldl_pushChange _
      fun change member => (revisions change member).le).1
  · rw [List.reverse_append, installMetadata_eq]
    exact (plans.unwinds apart (fun _ => rfl) (fun key stored => .inl stored)
      (fun key member => .inr member) traced.unwinds).congr (plans.sameKeys fun _ => rfl)
  · exact logged.1
  · rw [installMetadata_eq, isResult]
    exact logged.2

theorem TracedMemory.listsScopes : state.snapshot.toSnapshot.ListsScopes :=
  traced.indexed.snapshot.listsScopes traced.unwinds.apart

theorem TracedMemory.listsScopes_atRevision {revision : Nat} {snapshot : MemorySnapshot}
    (offered : state.snapshotAtRevision revision = .ok snapshot) :
    snapshot.toSnapshot.ListsScopes := by
  apply (indexed_snapshotAtRevision traced.indexed.snapshot offered).listsScopes
  rw [State.snapshotAtRevision] at offered
  split_ifs at offered with future expired
  cases offered
  rw [foldl_undoChange, State.undoneChanges, List.filter_reverse,
    traced.window.retains.filter_eq (Nat.le_of_not_lt expired)]
  obtain ⟨older, split⟩ := filter_append_eq revision traced.sorted
  have unwinds := traced.unwinds
  rw [split, List.reverse_append] at unwinds
  exact unwinds.left.apart_undone

end

namespace Store

variable {store : Store} {snapshot : Snapshot}

def snapshotAt (revision : Nat) : Store → Except SnapshotError Snapshot
  | .memory state => (state.snapshotAtRevision revision).map MemorySnapshot.toSnapshot
  | .disk state => state.snapshotAt revision

inductive Offers (store : Store) : Snapshot → Prop
  | current : Offers store store.snapshot
  | atRevision {revision : Nat} {snapshot : Snapshot}
      (offered : store.snapshotAt revision = .ok snapshot) : Offers store snapshot
  | atTime {readTime : Timestamp} {snapshot : Snapshot}
      (offered : store.snapshotAtTime readTime = .ok snapshot) : Offers store snapshot

theorem exists_snapshotAt {readTime : Timestamp}
    (offered : store.snapshotAtTime readTime = .ok snapshot) :
    ∃ revision, store.snapshotAt revision = .ok snapshot := by
  cases store with
  | memory state =>
    rw [snapshotAtTime, State.snapshotAtTime] at offered
    split_ifs at offered
    · cases offered
    · exact ⟨_, offered⟩
  | disk state =>
    rw [snapshotAtTime, DiskState.snapshotAtTime] at offered
    split_ifs at offered
    exact ⟨_, offered⟩

def IsTraced : Store → Prop
  | .memory state => ∃ all, TracedMemory state all
  | .disk state => ∃ documents all, Traced state documents all

theorem IsTraced.listsScopes (traced : store.IsTraced)
    (offered : store.Offers snapshot) : snapshot.ListsScopes := by
  have atRevision : ∀ {revision}, store.snapshotAt revision = .ok snapshot →
      snapshot.ListsScopes := by
    intro revision offered
    cases store with
    | memory state =>
      obtain ⟨all, traced⟩ := traced
      rw [snapshotAt] at offered
      cases isOffered : state.snapshotAtRevision revision with
      | error error =>
        rw [isOffered] at offered
        cases offered
      | ok memory =>
        rw [isOffered] at offered
        cases offered
        exact traced.listsScopes_atRevision isOffered
    | disk state =>
      obtain ⟨documents, all, traced⟩ := traced
      exact traced.listsScopes (.inr ⟨revision, offered⟩)
  cases offered with
  | current =>
    cases store with
    | memory state =>
      obtain ⟨all, traced⟩ := traced
      exact traced.listsScopes
    | disk state =>
      obtain ⟨documents, all, traced⟩ := traced
      exact traced.listsScopes (.inl rfl)
  | atRevision offered => exact atRevision offered
  | atTime offered =>
    obtain ⟨revision, offered⟩ := exists_snapshotAt offered
    exact atRevision offered

/-! ## Runs -/

def step (crc32c : List UInt8 → UInt32) (store : Store) (request : Request) : Store :=
  (store.commit crc32c request.clock request.writes).1

def KeepsRequestApart (store : Store) (request : Request) : Prop := store.KeepsApart request.writes

theorem IsTraced.step {crc32c : List UInt8 → UInt32} {request : Request}
    (apart : store.KeepsRequestApart request) (traced : store.IsTraced) :
    (store.step crc32c request).IsTraced := by
  cases store with
  | memory state =>
    obtain ⟨all, traced⟩ := traced
    rw [Store.step, Store.commit]
    cases committed : state.commit request.clock request.writes with
    | error error => exact ⟨all, traced⟩
    | ok success =>
      refine ⟨_, traced.commit (apart.mono fun key live => ?_) committed⟩
      exact live.imp_left mem_iff_isSome.mp
  | disk state =>
    obtain ⟨documents, all, traced⟩ := traced
    rw [Store.step, commit_disk_fst]
    exact traced.commitObserved apart

theorem Created.isTraced (created : store.Created) : store.IsTraced := by
  cases created with
  | memory options => exact ⟨[], tracedMemory_new options⟩
  | disk options journal durability => exact ⟨∅, [], traced_created options journal durability⟩

theorem listsScopes_run {crc32c : List UInt8 → UInt32} (created : store.Created)
    {requests : List Request}
    (apart : Runs.AllSteps (Store.step crc32c) KeepsRequestApart store requests)
    (offered : (Runs.run (Store.step crc32c) store requests).Offers snapshot) :
    snapshot.ListsScopes := by
  have traced : (Runs.run (Store.step crc32c) store requests).IsTraced :=
    Runs.invariant_run IsTraced (fun _ _ apart traced => traced.step apart) created.isTraced apart
  exact traced.listsScopes offered

end Store
end Firenook
