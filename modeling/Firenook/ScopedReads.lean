import Firenook.Backends
import Firenook.DiskIndexes

/-!
# Scoped reads of the disk store

A disk snapshot lists a collection or a collection group from an index, merged with
the overlay of undone changes.  In a run whose stored and written keys stay apart,
every snapshot lists exactly the documents that point reads find in the scope.
-/

namespace Firenook

open OrderedEntries EncodedMaps Std List Runs DiskSnapshot

variable {writes : List Write} {changes : List Change} {tables : DiskTables} {state : DiskState}
  {all : List Change} {keys : KeySet}

/-- No two different keys that are stored or written share an index key. -/
def DiskState.KeepsApart (state : DiskState) (writes : List Write) : Prop :=
  Apart fun key => (state.snapshot.get key).isSome ∨ key ∈ writes.map writeKey

def Backends.KeepsApart (backends : Backends) (request : Request) : Prop :=
  backends.disk.KeepsApart request.writes

/-! ## Undoing changes -/

/-- Undoing the changes, newest first, leads through documents that are apart. -/
def Unwinds (documents : DocumentMap) : List Change → Prop
  | [] => Apart (· ∈ documents)
  | change :: older =>
    Apart (· ∈ documents) ∧ change.after.isSome = documents[change.key]?.isSome ∧
      (change.before.isSome ∨ change.after.isSome) ∧
      Unwinds (undoDocument documents change) older

def SameKeys (first second : DocumentMap) : Prop :=
  ∀ key : DocumentKey, first[key]?.isSome = second[key]?.isSome

theorem SameKeys.putDocument {first second : DocumentMap} (same : SameKeys first second)
    (key : DocumentKey) {next other : Option Document} (sameNext : next.isSome = other.isSome) :
    SameKeys (Firenook.putDocument first key next) (Firenook.putDocument second key other) := by
  intro asked
  rw [getElem?_putDocument, getElem?_putDocument]
  split_ifs
  · exact sameNext
  · exact same asked

theorem SameKeys.apart {first second : DocumentMap} (same : SameKeys first second)
    (apart : Apart (· ∈ second)) : Apart (· ∈ first) :=
  apart.mono fun key => by
    rw [mem_iff_isSome, mem_iff_isSome, same key]
    exact id

namespace Unwinds

variable {documents : DocumentMap} {newer older : List Change}

theorem apart (unwinds : Unwinds documents newer) : Apart (· ∈ documents) := by
  cases newer with
  | nil => exact unwinds
  | cons change newer => exact unwinds.1

theorem congr {others : DocumentMap} (unwinds : Unwinds documents newer)
    (same : SameKeys others documents) : Unwinds others newer := by
  induction newer generalizing documents others with
  | nil => exact same.apart unwinds
  | cons change newer ih =>
    obtain ⟨apart, after, some, rest⟩ := unwinds
    exact ⟨same.apart apart, after.trans (same change.key).symm, some,
      ih rest (same.putDocument change.key rfl)⟩

theorem left (unwinds : Unwinds documents (newer ++ older)) : Unwinds documents newer := by
  induction newer generalizing documents with
  | nil => exact unwinds.apart
  | cons change newer ih =>
    obtain ⟨apart, after, some, rest⟩ := unwinds
    exact ⟨apart, after, some, ih rest⟩

theorem apart_undone (unwinds : Unwinds documents newer) :
    Apart (· ∈ newer.foldl undoDocument documents) := by
  induction newer generalizing documents with
  | nil => exact unwinds
  | cons change newer ih => exact ih unwinds.2.2.2

/-- A key that shares its index key with a stored key that no change touches was
never stored meanwhile, so no change touches it either. -/
theorem untouched (unwinds : Unwinds documents newer) {key other : DocumentKey}
    (stored : key ∈ documents) (kept : ∀ change ∈ newer, change.key ≠ key)
    (sameDatabase : other.database = key.database)
    (equal : compareResourcePaths other.path key.path = .eq) (differs : other ≠ key) :
    ∀ change ∈ newer, change.key ≠ other := by
  induction newer generalizing documents with
  | nil => simp
  | cons change newer ih =>
    obtain ⟨apart, after, some, rest⟩ := unwinds
    rw [forall_mem_cons] at kept ⊢
    have stillStored : key ∈ undoDocument documents change := by
      rw [mem_iff_isSome, undoDocument, getElem?_putDocument, if_neg kept.1]
      exact mem_iff_isSome.mp stored
    refine ⟨?_, ih rest stillStored kept.2⟩
    rintro rfl
    rcases some with wasSome | isSome
    · have wasStored : change.key ∈ undoDocument documents change := by
        rw [mem_iff_isSome, undoDocument, getElem?_putDocument, if_pos rfl]
        exact wasSome
      exact differs (rest.apart _ _ wasStored stillStored sameDatabase equal)
    · have isStored : change.key ∈ documents := by
        rw [mem_iff_isSome, ← after]
        exact isSome
      exact differs (apart _ _ isStored stored sameDatabase equal)

end Unwinds

theorem Plans.unwinds {revision : Nat} {commitTime : Timestamp}
    {documents planned stored : DocumentMap} {older : List Change}
    (plans : Plans revision commitTime documents writes planned changes)
    {live : DocumentKey → Prop} (apart : Apart live) (same : SameKeys documents stored)
    (within : ∀ key ∈ stored, live key) (written : ∀ key ∈ writes.map writeKey, live key)
    (unwinds : Unwinds stored older) :
    Unwinds (mutatedDocuments stored (changes.map fun change => ⟨change.key, change.after⟩))
      (changes.reverse ++ older) := by
  induction plans generalizing stored older with
  | nil => exact unwinds
  | @silent documents planned write writes next changes applied equal rest ih =>
    rw [map_cons, forall_mem_cons] at written
    refine ih (fun key => ?_) within written.2 unwinds
    rw [getElem?_putDocument, ← same key]
    split_ifs with isKey
    · rw [← isSome_of_optionDocumentEq equal, isKey]
    · rfl
  | @logged documents planned write writes next changes applied differs rest ih =>
    rw [map_cons, forall_mem_cons] at written
    have stillWithin : ∀ key ∈ putDocument stored (writeKey write) next, live key :=
      live_of_mem_putDocument within written.1
    rw [reverse_cons, append_assoc]
    refine ih (same.putDocument _ rfl) stillWithin written.2
      ⟨apart.mono stillWithin, ?_, ?_, unwinds.congr ?_⟩
    · rw [getElem?_putDocument, if_pos rfl]
    · cases found : documents[writeKey write]? <;> cases next <;> simp_all [optionDocumentEq]
    · intro key
      rw [undoDocument, getElem?_putDocument, getElem?_putDocument]
      split_ifs with isKey
      · rw [← isKey, same]
      · rfl

/-! ## Snapshots -/

theorem isSome_overlay {key : DocumentKey} :
    (changes.foldl (fun (overlay : Overlay) change => overlay.insert change.key change.before)
      ∅)[key]?.isSome ↔ ∃ change ∈ changes, change.key = key := by
  have general : ∀ overlay : Overlay,
      (changes.foldl (fun (overlay : Overlay) change => overlay.insert change.key change.before)
        overlay)[key]?.isSome ↔ overlay[key]?.isSome ∨ ∃ change ∈ changes, change.key = key := by
    induction changes with
    | nil => simp
    | cons change changes ih =>
      intro overlay
      rw [foldl_cons, ih]
      by_cases isKey : change.key = key <;> simp [isKey]
  simpa using general ∅

/-- The scan lists the documents that point reads find in the scope: each once, in
resource order. -/
def Snapshot.Lists (snapshot : Snapshot) (inScope : DocumentKey → Prop)
    (scan : List (DocumentKey × LazyDocument)) : Prop :=
  ∃ listed, ShowsAll scan listed ∧
    Ascending (fun left right => compareResourcePaths left.path right.path) listed ∧
    ∀ key document, (key, document) ∈ listed ↔ inScope key ∧ snapshot.get key = some document

open Snapshot (sortedKeys)

def InCollection (database : DatabaseName) (collectionPath : Text) (key : DocumentKey) : Prop :=
  collectionKey key = ⟨database, collectionPath⟩

def InCollectionGroup (database : DatabaseName) (collectionId : Text) (ancestor : Option Text)
    (key : DocumentKey) : Prop :=
  collectionGroupKey key = ⟨database, collectionId⟩ ∧
    ∀ above, ancestor = some above → UnderAncestor above key.path

structure Snapshot.ListsScopes (snapshot : Snapshot) : Prop where
  collection : ∀ database collectionPath, snapshot.Lists (InCollection database collectionPath)
    (snapshot.iterCollection database collectionPath)
  collectionGroup : ∀ database collectionId ancestor,
    snapshot.Lists (InCollectionGroup database collectionId ancestor)
      (snapshot.iterCollectionGroup database collectionId ancestor)

abbrev overlayOf (changes : List Change) : Overlay :=
  changes.foldl (fun overlay change => overlay.insert change.key change.before) ∅

section

variable {documents : DocumentMap} (hold : TablesHold tables documents)
include hold

theorem get_overlay (newer : List Change) (key : DocumentKey) :
    get ⟨tables, overlayOf newer⟩ key =
      (newer.foldl undoDocument documents)[key]? := by
  rw [get_eq hold.stored]
  exact getElem?_overlay newer documents key

theorem exists_listed_overlay {newer : List Change} (unwinds : Unwinds documents newer)
    {scope : DiskDocumentScope} {source : DiskRange}
    (scans : Scans scope documents (scannedDocuments scope source))
    (order : ∀ first second, scope.compareKeys first second =
      compareResourcePaths first.path second.path)
    {database : DatabaseName}
    (inDatabase : ∀ key, scope.matchesKey key = true → key.database = database) :
    ∃ listed, ShowsAll (iterator ⟨tables, overlayOf newer⟩ scope source) listed ∧
      Ascending scope.compareKeys listed ∧
      ∀ key document, (key, document) ∈ listed ↔ scope.matchesKey key = true ∧
        get ⟨tables, overlayOf newer⟩ key = some document := by
  apply exists_listed hold.stored scans
  · intro key other stored patched inScope otherInScope equal
    rw [order] at equal
    rw [isSome_overlay] at patched ⊢
    by_contra unpatched
    obtain ⟨change, member, rfl⟩ := patched
    have kept : ∀ change ∈ newer, change.key ≠ key := fun change member isKey =>
      unpatched ⟨change, member, isKey⟩
    have equal' : compareResourcePaths change.key.path key.path = .eq := OrientedCmp.eq_symm equal
    exact unwinds.untouched (mem_iff_isSome.mpr stored) kept
      ((inDatabase _ otherInScope).trans (inDatabase _ inScope).symm) equal' (kept change member)
      change member rfl
  · intro first second firstFound secondFound inScope otherInScope equal
    rw [get_overlay hold] at firstFound secondFound
    exact unwinds.apart_undone first second (mem_iff_isSome.mpr firstFound)
      (mem_iff_isSome.mpr secondFound)
      ((inDatabase _ inScope).trans (inDatabase _ otherInScope).symm)
      ((order _ _).symm.trans equal)

theorem listsScopes_overlay {newer : List Change} (unwinds : Unwinds documents newer)
    (revision : Nat) (usage : LogicalMemoryUsage) :
    (⟨revision, .disk ⟨tables, overlayOf newer⟩, usage⟩ : Snapshot).ListsScopes := by
  constructor
  · intro database collectionPath
    have inDatabase : ∀ key,
        (DiskDocumentScope.collection database collectionPath).matchesKey key = true →
          key.database = database := fun key inScope =>
      (collectionKey_eq_iff.mp (matchesKey_collection.mp inScope)).1
    obtain ⟨listed, shows, ascending, mem⟩ := exists_listed_overlay hold unwinds
      (hold.scans_collection database collectionPath) (fun _ _ => rfl) inDatabase
    refine ⟨listed, shows, ascending, fun key document => ?_⟩
    rw [mem, matchesKey_collection]
    rfl
  · intro database collectionId ancestor
    have inDatabase : ∀ key,
        (DiskDocumentScope.collectionGroup ancestor collectionId database).matchesKey key = true →
          key.database = database := fun key inScope =>
      (collectionGroupKey_eq_iff.mp (matchesKey_collectionGroup.mp inScope).1).1
    obtain ⟨listed, shows, ascending, mem⟩ := exists_listed_overlay hold unwinds
      (hold.scans_collectionGroup database collectionId ancestor) (fun _ _ => rfl) inDatabase
    refine ⟨listed, shows, ascending, fun key document => ?_⟩
    rw [mem, matchesKey_collectionGroup]
    rfl

end

/-! ## Runs -/

/-- The tables hold documents that the logged changes lead back from. -/
structure Traced (state : DiskState) (documents : DocumentMap) (all : List Change) : Prop where
  hold : TablesHold state.database.current documents
  window : state.memory.window.Invariant all state.memory.revision
  unwinds : Unwinds documents all.reverse
  sorted : all.Pairwise fun older newer => older.revision ≤ newer.revision
  bounded : ∀ change ∈ all, change.revision ≤ state.memory.revision

theorem logged_append {all changes : List Change} {revision : Nat}
    (sorted : all.Pairwise fun older newer => older.revision ≤ newer.revision)
    (bounded : ∀ change ∈ all, change.revision ≤ revision)
    (revisions : ∀ change ∈ changes, change.revision = revision + 1) :
    ((all ++ changes).Pairwise fun older newer => older.revision ≤ newer.revision) ∧
      ∀ change ∈ all ++ changes, change.revision ≤ revision + 1 := by
  have older : ∀ change ∈ all, change.revision ≤ revision + 1 :=
    fun change member => (bounded change member).trans (Nat.le_succ _)
  refine ⟨pairwise_append.mpr ⟨sorted, ?_, ?_⟩,
    forall_mem_append.mpr ⟨older, fun change member => (revisions change member).le⟩⟩
  · refine pairwise_of_forall_mem_list fun first firstMember second secondMember => ?_
    rw [revisions first firstMember, revisions second secondMember]
  · intro first firstMember second secondMember
    rw [revisions second secondMember]
    exact older first firstMember

theorem traced_created (options : StoreOptions) (journal : Bool) (durability : DiskDurability) :
    Traced (.created options journal durability) ∅ [] where
  hold := tablesHold_empty
  window := ReplayWindow.invariant_emptyAt 0
  unwinds := fun first second stored => by simp at stored
  sorted := .nil
  bounded := by simp

theorem Traced.commitObserved {crc32c : List UInt8 → UInt32}
    {documents : DocumentMap} (traced : Traced state documents all)
    {clock : ClockReading} (apart : state.KeepsApart writes) :
    ∃ documents all, Traced (state.commitObserved crc32c clock writes).1 documents all := by
  cases outcome : (state.commitObserved crc32c clock writes).2 with
  | error error =>
    obtain ⟨sameMemory, sameDatabase⟩ := DiskState.commitObserved_error outcome
    refine ⟨documents, all, ?_, ?_, traced.unwinds, traced.sorted, ?_⟩
    · exact sameDatabase ▸ traced.hold
    · exact sameMemory ▸ traced.window
    · exact sameMemory ▸ traced.bounded
  | ok success =>
    obtain ⟨loaded, plan, tables, loads, plans, persists, rfl, memoryEq, tablesEq⟩ :=
      DiskState.commitObserved_ok outcome
    obtain ⟨_, resultEq, written⟩ := planWithDocuments_ok plans
    have agreeing := agreeing_loadWriteDocuments traced.hold.stored loads
    obtain ⟨planned, plansDocuments⟩ := exists_plans_of_agreeing agreeing written
    have within : ∀ key ∈ documents,
        (state.snapshot.get key).isSome ∨ key ∈ writes.map writeKey := by
      intro key stored
      left
      rw [DiskState.get_snapshot traced.hold.stored]
      exact mem_iff_isSome.mp stored
    have revisions := plansDocuments.change_revision
    have logged := logged_append traced.sorted traced.bounded revisions
    refine ⟨mutatedDocuments documents (WalRecord.fromPlan plan).mutations, all ++ plan.changes,
      ?_, ?_, ?_, ?_, ?_⟩
    · rw [tablesEq]
      apply traced.hold.persistRecord apart within _ persists
      intro mutation member
      obtain ⟨change, isChange, rfl⟩ := mem_map.mp member
      exact .inr (plansDocuments.change_key_mem change isChange)
    · rw [memoryEq, State.installDisk, installMetadata_eq, resultEq]
      exact ((traced.window.mono (Nat.le_succ _)).foldl_pushChange _
        fun change member => (revisions change member).le).1
    · rw [reverse_append]
      exact plansDocuments.unwinds apart (fun _ => rfl) within (fun key member => .inr member)
        traced.unwinds
    · exact logged.1
    · rw [memoryEq, State.installDisk, installMetadata_eq, resultEq]
      exact logged.2

theorem filter_append_eq (revision : Nat)
    (sorted : all.Pairwise fun older newer => older.revision ≤ newer.revision) :
    ∃ older, all = older ++ all.filter fun change => revision < change.revision := by
  induction all with
  | nil => exact ⟨[], rfl⟩
  | cons change all ih =>
    obtain ⟨least, sorted⟩ := pairwise_cons.mp sorted
    by_cases newer : revision < change.revision
    · refine ⟨[], ?_⟩
      rw [nil_append, filter_eq_self.mpr]
      rw [forall_mem_cons]
      exact ⟨by simpa using newer, fun other member => by
        simpa using newer.trans_le (least other member)⟩
    · obtain ⟨older, split⟩ := ih sorted
      refine ⟨change :: older, ?_⟩
      rw [filter_cons_of_neg (by simpa using newer), cons_append, ← split]

/-- A snapshot that the store hands out: the current one or one of a retained
revision. -/
def DiskState.Offers (state : DiskState) (snapshot : Snapshot) : Prop :=
  snapshot = state.snapshot ∨ ∃ revision, state.snapshotAt revision = .ok snapshot

section

variable {documents : DocumentMap} (traced : Traced state documents all)
include traced

variable {snapshot : Snapshot}

theorem Traced.offered (offered : state.Offers snapshot) :
    ∃ newer revision usage, Unwinds documents newer ∧
      snapshot = ⟨revision, .disk ⟨state.database.current, overlayOf newer⟩, usage⟩ := by
  rcases offered with rfl | ⟨revision, offered⟩
  · exact ⟨[], _, _, traced.unwinds.apart, rfl⟩
  · obtain ⟨overlay, isOverlay, offered⟩ := bind_eq_ok.mp offered
    cases offered
    rw [historicalOverlay] at isOverlay
    split_ifs at isOverlay with future expired
    cases isOverlay
    rw [State.undoneChanges, filter_reverse,
      traced.window.retains.filter_eq (Nat.le_of_not_lt expired)]
    obtain ⟨older, split⟩ := filter_append_eq revision traced.sorted
    refine ⟨_, _, _, ?_, rfl⟩
    have unwinds := traced.unwinds
    rw [split, reverse_append] at unwinds
    exact unwinds.left

theorem Traced.listsScopes (offered : state.Offers snapshot) : snapshot.ListsScopes := by
  obtain ⟨newer, revision, usage, unwinds, rfl⟩ := traced.offered offered
  exact listsScopes_overlay traced.hold unwinds revision usage

theorem Traced.apart (offered : state.Offers snapshot) :
    Apart fun key => (snapshot.get key).isSome := by
  obtain ⟨newer, revision, usage, unwinds, rfl⟩ := traced.offered offered
  refine unwinds.apart_undone.mono fun key found => ?_
  rw [mem_iff_isSome, ← get_overlay traced.hold]
  exact found

end

/-! ## The memory store -/

/-- Both memory indexes list exactly the keys of the documents. -/
structure MemorySnapshot.Indexed (snapshot : MemorySnapshot) : Prop where
  collections : IndexLists collectionKey snapshot.collections snapshot.documents
  collectionGroups : IndexLists collectionGroupKey snapshot.collectionGroups snapshot.documents

theorem indexed_snapshotAtRevision {state : State} (indexed : state.snapshot.Indexed)
    {revision : Nat} {snapshot : MemorySnapshot}
    (offered : state.snapshotAtRevision revision = .ok snapshot) : snapshot.Indexed := by
  rw [State.snapshotAtRevision] at offered
  split_ifs at offered
  cases offered
  rw [foldl_undoChange]
  exact ⟨indexed.collections.undo _, indexed.collectionGroups.undo _⟩

structure State.Indexed (state : State) : Prop where
  collections : ∃ index, state.collections = some index ∧
    IndexLists collectionKey index state.documents
  collectionGroups : ∃ index, state.collectionGroups = some index ∧
    IndexLists collectionGroupKey index state.documents

theorem State.indexed_new (options : StoreOptions) : (State.new options).Indexed :=
  ⟨⟨∅, rfl, indexLists_empty _⟩, ⟨∅, rfl, indexLists_empty _⟩⟩

theorem State.Indexed.snapshot {state : State} (indexed : state.Indexed) :
    state.snapshot.Indexed := by
  obtain ⟨⟨index, isIndex, lists⟩, groupIndex, isGroupIndex, groupLists⟩ := indexed
  constructor <;> simp only [State.snapshot, isIndex, isGroupIndex, Option.getD_some, lists,
    groupLists]

theorem State.Indexed.commit {state next : State} (indexed : state.Indexed)
    {clock : ClockReading} {result : CommitResult}
    (success : state.commit clock writes = .ok (result, changes, next)) : next.Indexed := by
  obtain ⟨⟨index, isIndex, lists⟩, groupIndex, isGroupIndex, groupLists⟩ := indexed
  obtain ⟨planned, _, plans, rfl⟩ := commit_cases success
  simp only [installMetadata_eq, isIndex, isGroupIndex]
  exact ⟨⟨_, rfl, plans.indexLists lists⟩, ⟨_, rfl, plans.indexLists groupLists⟩⟩

theorem State.Indexed.step {backends : Backends} (indexed : backends.memory.Indexed)
    (crc32c : List UInt8 → UInt32) (request : Request) :
    (backends.step crc32c request).memory.Indexed := by
  rw [Backends.step]
  cases outcome : backends.memory.commit request.clock request.writes with
  | error error => exact indexed
  | ok success => exact indexed.commit outcome

theorem mem_sortedKeys {key : DocumentKey} : key ∈ sortedKeys keys ↔ key ∈ keys := by
  rw [sortedKeys, mem_mergeSort, ExtTreeSet.mem_toList]

theorem pairwise_sortedKeys (apart : Apart (· ∈ keys))
    (sameDatabase : ∀ first ∈ keys, ∀ second ∈ keys, first.database = second.database) :
    (sortedKeys keys).Pairwise fun left right =>
      compareResourcePaths left.path right.path = .lt := by
  have sorted : (sortedKeys keys).Pairwise fun left right =>
      (compareResourcePaths left.path right.path).isLE := by
    apply pairwise_mergeSort
    · intro first second third
      exact TransCmp.isLE_trans
    · intro first second
      rw [show compareResourcePaths second.path first.path =
        (compareResourcePaths first.path second.path).swap from OrientedCmp.eq_swap]
      cases compareResourcePaths first.path second.path <;> rfl
  have nodup : keys.toList.Nodup := by
    refine ExtTreeSet.ordered_toList.imp ?_
    rintro first second less rfl
    rw [ReflOrd.compare_self] at less
    cases less
  refine (sorted.and ((mergeSort_perm _ _).nodup_iff.mpr nodup)).imp_of_mem ?_
  rintro first second firstMember secondMember ⟨notAfter, differs⟩
  have firstKey := mem_sortedKeys.mp firstMember
  have secondKey := mem_sortedKeys.mp secondMember
  cases order : compareResourcePaths first.path second.path with
  | lt => rfl
  | eq => exact absurd (apart first second firstKey secondKey
      (sameDatabase first firstKey second secondKey) order) differs
  | gt => simp [order] at notAfter

theorem lists_sortedKeys {snapshot : MemorySnapshot} (apart : Apart (· ∈ keys))
    {database : DatabaseName} (inDatabase : ∀ key ∈ keys, key.database = database)
    (keep : DocumentKey → Bool) :
    snapshot.toSnapshot.Lists (fun key => key ∈ keys ∧ keep key = true)
      ((sortedKeys keys).filterMap fun key =>
        if keep key then snapshot.documents[key]?.map fun document => (key, .decoded document)
        else none) := by
  let listing (key : DocumentKey) : Option (DocumentKey × Document) :=
    if keep key then snapshot.documents[key]?.map fun document => (key, document) else none
  have listing_eq_some : ∀ key entry, listing key = some entry ↔
      keep key = true ∧ snapshot.documents[key]? = some entry.2 ∧ key = entry.1 := by
    rintro key ⟨other, document⟩
    by_cases kept : keep key = true <;> simp [listing]
  refine ⟨(sortedKeys keys).filterMap listing, ?_, ?_, ?_⟩
  · have decoded := showsAll_decoded ((sortedKeys keys).filterMap listing)
    rw [map_filterMap] at decoded
    convert decoded using 2
    next key _ => by_cases kept : keep key = true <;> simp [listing, kept, Function.comp_def]
  · rw [Ascending, pairwise_filterMap]
    have sameDatabase := fun first firstMember second secondMember =>
      (inDatabase first firstMember).trans (inDatabase second secondMember).symm
    refine (pairwise_sortedKeys apart sameDatabase).imp fun less left isLeft right isRight => ?_
    rwa [← ((listing_eq_some _ left).mp isLeft).2.2, ← ((listing_eq_some _ right).mp isRight).2.2]
  · intro key document
    rw [mem_filterMap]
    constructor
    · rintro ⟨other, member, isListed⟩
      obtain ⟨kept, present, rfl⟩ := (listing_eq_some _ _).mp isListed
      exact ⟨⟨mem_sortedKeys.mp member, kept⟩, present⟩
    · rintro ⟨⟨member, kept⟩, present⟩
      exact ⟨key, mem_sortedKeys.mpr member, (listing_eq_some _ _).mpr ⟨kept, present, rfl⟩⟩

variable {scan : List (DocumentKey × LazyDocument)}

theorem Snapshot.Lists.congr {snapshot : Snapshot} {inScope inOther : DocumentKey → Prop}
    (lists : snapshot.Lists inScope scan)
    (same : ∀ key, (snapshot.get key).isSome → (inScope key ↔ inOther key)) :
    snapshot.Lists inOther scan := by
  obtain ⟨listed, shows, ascending, mem⟩ := lists
  refine ⟨listed, shows, ascending, fun key document => ?_⟩
  rw [mem]
  refine and_congr_left fun found => same key ?_
  rw [found]
  rfl

theorem MemorySnapshot.Indexed.listsScopes {snapshot : MemorySnapshot}
    (indexed : snapshot.Indexed) (apart : Apart (· ∈ snapshot.documents)) :
    snapshot.toSnapshot.ListsScopes := by
  constructor
  · intro database collectionPath
    have lists := indexed.collections.lists ⟨database, collectionPath⟩
    have inDatabase : ∀ key ∈ scopeKeys snapshot.collections ⟨database, collectionPath⟩,
        key.database = database := fun key member =>
      (collectionKey_eq_iff.mp ((lists key).mp member).2).1
    refine (lists_sortedKeys (apart.mono fun key member => ((lists key).mp member).1)
      inDatabase fun _ => true).congr fun key found => ?_
    rw [lists key, mem_iff_isSome]
    simp only [and_true, InCollection, and_iff_right_iff_imp]
    exact fun _ => found
  · intro database collectionId ancestor
    have lists := indexed.collectionGroups.lists ⟨database, collectionId⟩
    have inDatabase : ∀ key ∈ scopeKeys snapshot.collectionGroups ⟨database, collectionId⟩,
        key.database = database := fun key member =>
      (collectionGroupKey_eq_iff.mp ((lists key).mp member).2).1
    refine (lists_sortedKeys (apart.mono fun key member => ((lists key).mp member).1) inDatabase
      fun key => ancestor.all fun above => ancestorMatches above key.path).congr
      fun key found => ?_
    rw [lists key, mem_iff_isSome]
    refine and_congr ?_ ?_
    · simp only [and_iff_right_iff_imp]
      exact fun _ => found
    · cases ancestor <;> simp [ancestorMatches_iff]

structure SameScopes (disk memory : Snapshot) : Prop where
  collection : ∀ database collectionPath, ∃ listed,
    ShowsAll (disk.iterCollection database collectionPath) listed ∧
      ShowsAll (memory.iterCollection database collectionPath) listed
  collectionGroup : ∀ database collectionId ancestor, ∃ listed,
    ShowsAll (disk.iterCollectionGroup database collectionId ancestor) listed ∧
      ShowsAll (memory.iterCollectionGroup database collectionId ancestor) listed

theorem Snapshot.Lists.same {first second : Snapshot} {inScope : DocumentKey → Prop}
    {firstScan secondScan : List (DocumentKey × LazyDocument)}
    (sameGet : ∀ key, inScope key → first.get key = second.get key)
    (lists : first.Lists inScope firstScan) (listsSecond : second.Lists inScope secondScan) :
    ∃ listed, ShowsAll firstScan listed ∧ ShowsAll secondScan listed := by
  obtain ⟨listed, shows, ascending, mem⟩ := lists
  obtain ⟨others, showsOthers, ascendingOthers, memOthers⟩ := listsSecond
  have same : listed = others := by
    apply eq_of_pairwise_lt compareResourcePaths
      (fun entry : DocumentKey × Document => entry.1.path) ascending ascendingOthers
    rintro ⟨key, document⟩
    rw [mem, memOthers]
    apply and_congr_right
    intro inScope
    rw [sameGet key inScope]
  exact ⟨listed, shows, same ▸ showsOthers⟩

theorem Snapshot.Lists.mem {snapshot : Snapshot} {inScope : DocumentKey → Prop}
    (lists : snapshot.Lists inScope scan)
    {candidate : DocumentKey × LazyDocument} (member : candidate ∈ scan) :
    inScope candidate.1 ∧ candidate.2.intoDocument = snapshot.get candidate.1 := by
  obtain ⟨listed, shows, _, mem⟩ := lists
  obtain ⟨index, bound, rfl⟩ := getElem_of_mem member
  have bound' : index < listed.length := shows.length_eq ▸ bound
  obtain ⟨sameKey, shown⟩ : scan[index].1 = listed[index].1 ∧
      scan[index].2.Shows listed[index].2 := shows.get bound bound'
  obtain ⟨inScope, found⟩ := (mem listed[index].1 listed[index].2).mp (getElem_mem bound')
  rw [sameKey, found]
  exact ⟨inScope, shown.1⟩

theorem sameScopes {disk : Snapshot} {memory : MemorySnapshot} (same : SameReads disk memory.toSnapshot)
    (lists : disk.ListsScopes) (apart : Apart fun key => (disk.get key).isSome)
    (indexed : memory.Indexed) : SameScopes disk memory.toSnapshot := by
  have memoryApart : Apart (· ∈ memory.documents) := by
    refine apart.mono fun key member => ?_
    rw [same.get]
    exact mem_iff_isSome.mp member
  have memoryLists := indexed.listsScopes memoryApart
  exact ⟨fun database collectionPath =>
      (lists.collection database collectionPath).same (fun key _ => same.get key)
        (memoryLists.collection database collectionPath),
    fun database collectionId ancestor =>
      (lists.collectionGroup database collectionId ancestor).same (fun key _ => same.get key)
        (memoryLists.collectionGroup database collectionId ancestor)⟩

/-- In every run of commits whose stored and written keys are apart, the current
snapshot and every retained one list each scope completely, without duplicates and
in resource order; and as the memory store does, wherever both backends agree. -/
theorem scoped_reads_list_stored_documents (crc32c : List UInt8 → UInt32)
    (options : StoreOptions) (journal : Bool) (durability : DiskDurability)
    (requests : List Request)
    (apart : Runs.AllSteps (Backends.step crc32c) Backends.KeepsApart
      (.start options journal durability) requests) :
    let backends := run (Backends.step crc32c) (.start options journal durability) requests
    (∀ snapshot, backends.disk.Offers snapshot → snapshot.ListsScopes) ∧
      (AllSteps (Backends.step crc32c) (Backends.Aligned crc32c)
          (.start options journal durability) requests →
        SameScopes backends.disk.snapshot backends.memory.snapshot.toSnapshot ∧
          ∀ revision disk memory, backends.disk.snapshotAt revision = .ok disk →
            backends.memory.snapshotAtRevision revision = .ok memory →
            SameScopes disk memory.toSnapshot) := by
  intro backends
  obtain ⟨documents, all, traced⟩ : ∃ documents all, Traced backends.disk documents all := by
    apply invariant_run (fun backends => ∃ documents all, Traced backends.disk documents all)
      _ ⟨∅, [], traced_created options journal durability⟩ apart
    rintro state request keepsApart ⟨documents, all, traced⟩
    exact traced.commitObserved keepsApart
  refine ⟨fun snapshot offered => traced.listsScopes offered, fun aligned => ?_⟩
  have agree : Agree backends := by
    apply invariant_run Agree _ (agree_start options journal durability) aligned
    intro state request conditions before
    exact before.step request conditions.1 conditions.2
  have indexed : backends.memory.Indexed :=
    invariant_run_unconditional (fun backends : Backends => backends.memory.Indexed)
      (fun _ request indexed => indexed.step crc32c request) (State.indexed_new options) requests
  constructor
  · exact sameScopes agree.snapshot (traced.listsScopes (.inl rfl)) (traced.apart (.inl rfl))
      indexed.snapshot
  · intro revision disk memory onDisk inMemory
    have same := agree.snapshotAt revision
    rw [onDisk, inMemory] at same
    have offered : backends.disk.Offers disk := .inr ⟨revision, onDisk⟩
    exact sameScopes same (traced.listsScopes offered) (traced.apart offered)
      (indexed_snapshotAtRevision indexed.snapshot inMemory)

theorem scoped_reads_list_stored_documents_sample :
    let backends := run (Backends.step castagnoli)
      (.start Sample.options true .writeBehind) Sample.oneDouble
    (backends.disk.snapshot.iterCollection Sample.itemA.database "items".toList).map Prod.fst =
        [Sample.itemA] ∧
      backends.disk.snapshot.ListsScopes ∧
      SameScopes backends.disk.snapshot backends.memory.snapshot.toSnapshot := by
  have apart : AllSteps (Backends.step castagnoli) Backends.KeepsApart
      (.start Sample.options true .writeBehind) Sample.oneDouble := by
    refine ⟨?_, trivial⟩
    have onlyWritten : ∀ key, ((DiskState.created Sample.options true .writeBehind).snapshot.get
        key).isSome ∨ key ∈ [Sample.itemA] → key = Sample.itemA := by
      intro key live
      rw [DiskState.get_snapshot tablesHold_empty.stored] at live
      simpa using live
    intro first second firstLive secondLive _ _
    rw [onlyWritten first firstLive, onlyWritten second secondLive]
  obtain ⟨lists, same⟩ := scoped_reads_list_stored_documents castagnoli Sample.options true
    .writeBehind Sample.oneDouble apart
  exact ⟨by decide +kernel, lists _ (.inl rfl), (same Sample.aligned_oneDouble).1⟩

namespace Sample

def itemOne : DocumentKey := ⟨database, "items/__id1__".toList, by decide⟩

def itemPaddedOne : DocumentKey := ⟨database, "items/__id01__".toList, by decide⟩

def sameNumber : List Request := [⟨clock, [.create itemOne .empty, .create itemPaddedOne .empty]⟩]

end Sample

open Sample

/-- Both documents are stored, but the second replaces the first in the indexes. -/
theorem sameNumber_not_listsScopes :
    let disk := (run (Backends.step castagnoli)
      (.start options true .writeBehind) sameNumber).disk
    (disk.snapshot.get itemOne).isSome ∧
      (disk.snapshot.get itemPaddedOne).isSome ∧ ¬ disk.snapshot.ListsScopes := by
  intro disk
  have found : (disk.snapshot.get itemOne).isSome := by decide +kernel
  have scanned : (disk.snapshot.iterCollection database "items".toList).map Prod.fst =
      [itemPaddedOne] := by
    decide +kernel
  refine ⟨found, by decide +kernel, fun lists => ?_⟩
  obtain ⟨listed, shows, _, mem⟩ := lists.collection database "items".toList
  obtain ⟨document, isDocument⟩ := Option.isSome_iff_exists.mp found
  have inCollection : InCollection database "items".toList itemOne := by
    unfold InCollection
    decide
  have sameKeys : listed.map Prod.fst =
      (disk.snapshot.iterCollection database "items".toList).map Prod.fst := by
    rw [← forall₂_eq_eq_eq, forall₂_map_left_iff, forall₂_map_right_iff]
    exact shows.flip.imp fun entry scanned same => same.1.symm
  have member := mem_map_of_mem (f := Prod.fst)
    ((mem itemOne document).mpr ⟨inCollection, isDocument⟩)
  rw [sameKeys, scanned, mem_singleton] at member
  exact absurd (show itemOne = itemPaddedOne from member) (by decide)

end Firenook
