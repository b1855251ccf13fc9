import Firenook.Backends
import Firenook.DiskIndexes
import Firenook.RedoLogs

/-!
# Recovery of the disk store

What redb's tables and the journal say about the commits of a store.  Tables hold a
sequence of records when they show the documents and the state after it.  A store is
recoverable when its durable tables hold a prefix of its commits and the journal the
rest; opening it then replays exactly the missing records.
-/

namespace Firenook

open EncodedMaps RedoLogs List DiskTables Text

/-! ## Sequences of records -/

variable {records : List WalRecord} {tables : DiskTables}

def stateAfter (records : List WalRecord) : PersistedState :=
  match records.getLast? with
  | none => ⟨0, .epoch⟩
  | some record => ⟨record.revision, record.commitTime⟩

def documentsAfter (records : List WalRecord) : DocumentMap :=
  records.foldl (fun documents record => mutatedDocuments documents record.mutations) ∅

theorem stateAfter_append (records : List WalRecord) (record : WalRecord) :
    stateAfter (records ++ [record]) = ⟨record.revision, record.commitTime⟩ := by
  simp [stateAfter]

theorem documentsAfter_append (records : List WalRecord) (record : WalRecord) :
    documentsAfter (records ++ [record]) =
      mutatedDocuments (documentsAfter records) record.mutations := by
  simp [documentsAfter]

/-- The record is the next one: its revision follows and its time is later, below the
limit of the seconds counter. -/
structure Follows (records : List WalRecord) (record : WalRecord) : Prop where
  revision : record.revision = records.length + 1
  revisionBound : record.revision < 2 ^ 64
  later : (stateAfter records).lastCommitTime < record.commitTime
  timeBound : record.commitTime.seconds < Timestamp.maxSeconds

theorem revision_of_follows (records : List WalRecord) (record : WalRecord)
    (follows : Follows records record) : record.revision = records.length + 1 :=
  follows.revision

theorem stateAfter_of_chained (chained : Chained Follows records) :
    (stateAfter records).revision = records.length ∧ records.length < 2 ^ 64 ∧
      (stateAfter records).lastCommitTime.seconds < Timestamp.maxSeconds := by
  rcases eq_nil_or_concat records with rfl | ⟨front, record, rfl⟩
  · exact ⟨rfl, by decide, by decide⟩
  · rw [concat_eq_append] at chained ⊢
    have follows := chained.last
    rw [stateAfter_append, length_append, length_singleton, ← follows.revision]
    exact ⟨rfl, follows.revisionBound, follows.timeBound⟩

/-! ## Tables that hold records -/

structure Holds (tables : DiskTables) (records : List WalRecord) : Prop where
  stored : DocumentsStored tables.documents (documentsAfter records)
  metadata : tables.metadata = some (encodePersistedState (stateAfter records)) ∨
    tables.metadata = none ∧ records = []

theorem holds_empty : Holds .empty [] := ⟨image_empty, .inr ⟨rfl, rfl⟩⟩

theorem Holds.persistRecord {next : DiskTables} {record : WalRecord} (holds : Holds tables records)
    (persists : tables.persistRecord record = .ok next) : Holds next (records ++ [record]) := by
  refine ⟨?_, .inl ?_⟩
  · rw [documentsAfter_append]
    exact holds.stored.persistRecord persists
  · rw [stateAfter_append]
    obtain ⟨mutated, _, persisted⟩ := bind_eq_ok.mp persists
    cases persisted
    rfl

theorem decodeWhole_persistedState {state : PersistedState} (bounded : state.revision < 2 ^ 64) :
    decodeWhole decodePersistedState (encodePersistedState state) = .ok state :=
  decodeWhole_of_reads ((reads_decodeU64 bounded).bind
    ((reads_decodeTimestamp state.lastCommitTime).map fun time =>
      (⟨state.revision, time⟩ : PersistedState)))

theorem Holds.loadPersistedState
    (holds : Holds tables records) (chained : Chained Follows records) :
    tables.loadPersistedState = .ok (stateAfter records) := by
  obtain ⟨revision, bounded, _⟩ := stateAfter_of_chained chained
  rw [DiskTables.loadPersistedState]
  rcases holds.metadata with stored | ⟨absent, rfl⟩
  · rw [stored]
    exact decodeWhole_persistedState (by omega)
  · rw [absent]
    rfl

theorem exists_foldlM_loadEntry {entries : List (List UInt8 × List UInt8)}
    (holds : Holds tables records)
    (stored : ∀ entry ∈ entries, tables.documents[entry.1]? = some entry.2)
    (usage : LogicalMemoryUsage) :
    ∃ total, entries.foldlM loadEntry usage = .ok total := by
  induction entries generalizing usage with
  | nil => exact ⟨usage, rfl⟩
  | cons entry entries ih =>
    rw [forall_mem_cons] at stored
    obtain ⟨key, document, _, encodedKey, encoded⟩ := holds.stored.source _ _ stored.1
    have decoded := (encodes_of_encodeStoredDocument encoded).1
    obtain ⟨total, rest⟩ := ih stored.2 ⟨saturatingAdd usage.entries 1,
      saturatingAdd usage.logicalBytes (documentEntryLogicalBytes key document)⟩
    refine ⟨total, ?_⟩
    refine bind_eq_ok.mpr ⟨_, ?_, rest⟩
    refine bind_eq_ok.mpr ⟨key, decodeDocumentKey_of_encode encodedKey, ?_⟩
    exact bind_eq_ok.mpr ⟨document, by rw [decoded]; rfl, rfl⟩

theorem Holds.loaded
    (holds : Holds tables records) (chained : Chained Follows records) (options : StoreOptions)
    (durability : DiskDurability) (journal : Option (List UInt8)) :
    ∃ usage, DiskState.loaded options durability tables journal = .ok {
      memory := .fromPersisted options (stateAfter records).revision
        (stateAfter records).lastCommitTime ∅ usage
      database := ⟨tables, tables⟩
      journal := journal
      requiresRestart := false
      durability := durability
      unflushed := false } := by
  obtain ⟨usage, counted⟩ := exists_foldlM_loadEntry holds
    (fun entry member => Std.ExtTreeMap.mem_toList_iff_getElem?_eq_some.mp member) ⟨0, 0⟩
  have loads : tables.loadDatabase =
      .ok ((stateAfter records).revision, (stateAfter records).lastCommitTime, usage) := by
    refine bind_eq_ok.mpr ⟨usage, counted, ?_⟩
    rcases holds.metadata with stored | ⟨absent, rfl⟩
    · obtain ⟨revision, bounded, _⟩ := stateAfter_of_chained chained
      rw [stored]
      exact bind_eq_ok.mpr ⟨stateAfter records, decodeWhole_persistedState (by omega), rfl⟩
    · have noEntries : tables.documents.toList = [] := by
        rw [eq_nil_iff_forall_not_mem]
        intro entry member
        obtain ⟨key, document, present, _⟩ := holds.stored.source _ _
          (Std.ExtTreeMap.mem_toList_iff_getElem?_eq_some.mp member)
        simp [documentsAfter] at present
      rw [noEntries] at counted
      cases counted
      rw [absent]
      rfl
  exact ⟨usage, bind_eq_ok.mpr ⟨_, loads, rfl⟩⟩

/-! ## Replaying records -/

theorem byteLength_append (first second : Text) :
    byteLength (first ++ second) = first.byteLength + second.byteLength := by
  simp [byteLength]

theorem byteLength_le_of_rsplitOnce {text front last : Text}
    (splits : text.rsplitOnce '/' = some (front, last)) :
    front.byteLength ≤ text.byteLength ∧ last.byteLength ≤ text.byteLength := by
  obtain ⟨rfl, _⟩ := rsplitOnce_eq_some.mp splits
  have whole := byteLength_append front ('/' :: last)
  have tail := byteLength_append ['/'] last
  rw [singleton_append] at tail
  omega

theorem byteLength_lastPiece_le (text : Text) :
    (lastPiece '/' text).byteLength ≤ text.byteLength := by
  by_cases present : '/' ∈ text
  · cases splits : text.rsplitOnce '/' with
    | none =>
      obtain ⟨front, back, rfl⟩ := append_of_mem present
      have both := split_append_cons '/' front back
      have frontSome : 0 < (split '/' front).length := length_pos_iff.mpr (splitOn_ne_nil _ _)
      have backSome : 0 < (split '/' back).length := length_pos_iff.mpr (splitOn_ne_nil _ _)
      rw [rsplitOnce, both, length_append, if_neg (by omega)] at splits
      cases splits
    | some split =>
      have bound := (byteLength_le_of_rsplitOnce splits).2
      obtain ⟨rfl, absent⟩ := rsplitOnce_eq_some.mp splits
      rw [lastPiece, split_append_cons, split_of_not_mem absent]
      simpa using bound
  · rw [lastPiece, split_of_not_mem present]
    simp

theorem exists_applyMutation {mutation : PersistedMutation}
    (small : (encodeMutation mutation).length ≤ maxWalRecordBytes) (tables : DiskTables) :
    ∃ next, tables.applyMutation mutation = .ok next := by
  have project := length_encodeText mutation.key.database.projectId
  have database := length_encodeText mutation.key.database.databaseId
  have path := length_encodeText mutation.key.path
  simp only [encodeMutation, encodeKey, length_append, maxWalRecordBytes] at small
  have fits : mutation.key.database.Fits := ⟨by omega, by omega⟩
  obtain ⟨collection, documentId, splits⟩ := exists_rsplitOnce mutation.key
  have collectionBound := (byteLength_le_of_rsplitOnce splits).1
  have groupBound := byteLength_lastPiece_le collection
  have encodedKey := encodeDocumentKey_eq_ok.mpr ⟨fits, rfl⟩
  have encodedCollection := (collectionEncoding.eq_ok mutation.key _).mpr
    ⟨⟨fits, by simp only [collectionKey, splits, Option.map_some, Option.getD_some]; omega⟩, rfl⟩
  have encodedGroup := (collectionGroupEncoding.eq_ok mutation.key _).mpr
    ⟨⟨fits, by simp only [collectionGroupKey, splits, Option.map_some, Option.getD_some]; omega⟩,
      rfl⟩
  simp only [applyMutation, encodedKey, encodedCollection, encodedGroup]
  cases present : mutation.document with
  | none => exact ⟨_, rfl⟩
  | some document =>
    rw [present, encodeOptionDocument, length_cons] at small
    obtain ⟨value, encoded⟩ := exists_encodeStoredDocument
      (show (encodeDocument document).length < 2 ^ 32 by omega)
    simp only [encoded]
    exact ⟨_, rfl⟩

theorem exists_applyMutations {mutations : List PersistedMutation}
    (small : ∀ mutation ∈ mutations, (encodeMutation mutation).length ≤ maxWalRecordBytes)
    (tables : DiskTables) : ∃ next, tables.applyMutations mutations = .ok next := by
  induction mutations generalizing tables with
  | nil => exact ⟨tables, rfl⟩
  | cons mutation mutations ih =>
    rw [forall_mem_cons] at small
    obtain ⟨middle, first⟩ := exists_applyMutation small.1 tables
    obtain ⟨next, rest⟩ := ih small.2 middle
    exact ⟨next, bind_eq_ok.mpr ⟨middle, first, rest⟩⟩

theorem exists_persistRecord {record : WalRecord} (framable : Framable record)
    (tables : DiskTables) : ∃ next, tables.persistRecord record = .ok next := by
  have small : ∀ mutation ∈ record.mutations,
      (encodeMutation mutation).length ≤ maxWalRecordBytes := by
    intro mutation member
    have bound := framable.2
    have inside := length_le_flatMap encodeMutation member
    simp only [encodeRecord, length_append] at bound
    omega
  obtain ⟨mutated, applied⟩ := exists_applyMutations small tables
  exact ⟨_, bind_eq_ok.mpr ⟨mutated, applied, rfl⟩⟩

variable (replayed : DiskTables × PersistedState)

def Replayed (records : List WalRecord) : Prop :=
  Holds replayed.1 records ∧ replayed.2 = stateAfter records ∧ replayed.2.revision = records.length

theorem replayRecord_skips (base : List WalRecord)
    (record : WalRecord) (isReplayed : Replayed replayed base)
    (below : record.revision ≤ base.length) :
    replayRecord replayed record = .ok replayed := by
  rw [replayRecord, if_pos (by rw [isReplayed.2.2]; exact below)]
  rfl

theorem replayRecord_follows (base : List WalRecord)
    (record : WalRecord) (isReplayed : Replayed replayed base) (follows : Follows base record)
    (framable : Framable record) : ∃ next, replayRecord replayed record = .ok next ∧
      Replayed next (base ++ [record]) := by
  obtain ⟨tables, state⟩ := replayed
  obtain ⟨holds, isState, revision⟩ := isReplayed
  dsimp only at holds isState revision
  obtain ⟨next, persists⟩ := exists_persistRecord framable tables
  have later : ¬ record.commitTime ≤ state.lastCommitTime := by
    have less := follows.later
    rw [← isState, Timestamp.lt_iff_instant] at less
    rw [Timestamp.le_iff_instant]
    omega
  have recordRevision := follows.revision
  have revisionBound := follows.revisionBound
  refine ⟨(next, ⟨record.revision, record.commitTime⟩), ?_, holds.persistRecord persists,
    (stateAfter_append base record).symm, by simp [recordRevision]⟩
  simp only [replayRecord]
  rw [if_neg (by omega), if_neg (by omega), if_neg (by omega), if_neg later]
  exact bind_eq_ok.mpr ⟨next, persists, rfl⟩

/-! ## Recoverable stores -/

/-- The durable tables hold a prefix of the records, and the logged ones cover the
rest. -/
def Backed (durable : DiskTables) (logged records : List WalRecord) : Prop :=
  ∃ base tail, records = base ++ tail ∧ Holds durable base ∧
    Covers WalRecord.revision logged base tail

theorem Backed.replayRecords {durable : DiskTables} {logged : List WalRecord}
    (backed : Backed durable logged records) (chained : Chained Follows records)
    (framable : ∀ record ∈ logged, Framable record) :
    ∃ tables, durable.replayRecords logged = .ok tables ∧ Holds tables records := by
  obtain ⟨base, tail, rfl, holds, covers⟩ := backed
  have start : Replayed (durable, stateAfter base) base :=
    ⟨holds, rfl, (stateAfter_of_chained chained.left).1⟩
  obtain ⟨⟨tables, state⟩, redone, isReplayed⟩ := exists_foldlM_redo revision_of_follows
    replayRecord_skips replayRecord_follows framable start covers chained
  refine ⟨tables, ?_, isReplayed.1⟩
  refine bind_eq_ok.mpr ⟨_, holds.loadPersistedState chained.left, ?_⟩
  exact bind_eq_ok.mpr ⟨_, redone, rfl⟩

def Recovers (crc32c : List UInt8 → UInt32) (durable : DiskTables) (journal : List UInt8)
    (records : List WalRecord) : Prop :=
  ∃ logged torn, journal = frames crc32c logged ++ torn ∧ Torn crc32c torn ∧
    (∀ record ∈ logged, Framable record) ∧ Backed durable logged records ∧
    Chained Follows records

structure Shows (state : DiskState) (records : List WalRecord) : Prop where
  revision : state.memory.revision = records.length
  lastCommitTime : state.memory.lastCommitTime = (stateAfter records).lastCommitTime
  documents : ∀ key, state.snapshot.get key = (documentsAfter records)[key]?

theorem Recovers.openStore {crc32c : List UInt8 → UInt32} {durable : DiskTables}
    {journal : List UInt8}
    (recovers : Recovers crc32c durable journal records) (options : StoreOptions)
    (durability : DiskDurability) :
    ∃ store, DiskState.openStore crc32c options durability durable (some journal) = .ok store ∧
      Shows store records := by
  obtain ⟨logged, torn, rfl, isTorn, framable, backed, chained⟩ := recovers
  obtain ⟨tables, replayed, holds⟩ := backed.replayRecords chained framable
  obtain ⟨usage, loaded⟩ := holds.loaded chained options durability (some [])
  have read := readRecords_frames framable isTorn
  have journal : openJournal crc32c (frames crc32c logged ++ torn) =
      .ok ((frames crc32c logged ++ torn).take (frames crc32c logged).length, logged) :=
    bind_eq_ok.mpr ⟨_, read, rfl⟩
  have opens : DiskState.openStore crc32c options durability durable
      (some (frames crc32c logged ++ torn)) =
        DiskState.loaded options durability tables (some []) := by
    simp only [DiskState.openStore, journal]
    change (durable.replayRecords logged >>= _) = _
    rw [replayed]
    rfl
  exact ⟨_, opens.trans loaded, (stateAfter_of_chained chained).1, rfl,
    DiskState.get_snapshot holds.stored⟩

end Firenook
