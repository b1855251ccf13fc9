import Firenook.Journal

/-!
# The disk store

The state of an open disk store and its operations: commits, flushes, bulk loads and
snapshots.  Each operation is composed of the elementary steps between which the
process may die: journal append, redb commit, in-memory install and journal
checkpoint.  redb keeps the tables of its last durable commit beside the current
ones.
-/

namespace Firenook

inductive DiskDurability
  | perCommit
  | writeBehind
  deriving DecidableEq

inductive RedbDurability
  | immediate
  | none
  deriving DecidableEq

structure Database where
  durable : DiskTables
  current : DiskTables

def Database.commit (database : Database) (tables : DiskTables) : RedbDurability → Database
  | .immediate => ⟨tables, tables⟩
  | .none => ⟨database.durable, tables⟩

def redbDurability : DiskDurability → RedbDurability
  | .perCommit => .immediate
  | .writeBehind => .none

/-- An open store.  The journal is the content of its file, when there is one. -/
structure DiskState where
  memory : State
  database : Database
  journal : Option (List UInt8)
  requiresRestart : Bool
  durability : DiskDurability
  unflushed : Bool

variable (crc32c : List UInt8 → UInt32)

namespace DiskState

/-! ## Commits -/

variable (state : DiskState)

def planCommit (clock : ClockReading) (writes : List Write) : Except DiskError CommitPlan :=
  if state.requiresRestart then throw .requiresRestart
  else do
    let documents ← state.database.current.loadWriteDocuments writes
    (state.memory.planWithDocuments clock writes documents).mapError .commit

def appendJournal (state : DiskState) (record : WalRecord) : Except DiskError DiskState :=
  match state.journal with
  | none => pure state
  | some journal => do
    let journal ← appendRecord crc32c journal record
    pure { state with journal := some journal }

def persistCommit (record : WalRecord) : Except DiskError DiskState := do
  let tables ← state.database.current.persistRecord record
  pure { state with
    database := state.database.commit tables (redbDurability state.durability) }

def installCommit (plan : CommitPlan) : DiskState :=
  { state with memory := state.memory.installDisk plan }

def checkpointJournal : DiskState :=
  { state with journal := state.journal.map fun _ => [] }

/-- The last step of a commit: per-commit durability truncates the journal. -/
def settleCommit : DiskState :=
  match state.durability with
  | .perCommit => state.checkpointJournal
  | .writeBehind => { state with unflushed := true }

/-- A failure after planning fences the store until it is reopened. -/
def fence : DiskState := { state with requiresRestart := true }

def commitObserved (state : DiskState) (clock : ClockReading)
    (writes : List Write) : DiskState × Except DiskError (CommitResult × List Change) :=
  match state.planCommit clock writes with
  | .error error => (state, .error error)
  | .ok plan =>
    match state.appendJournal crc32c (.fromPlan plan) with
    | .error error => (state.fence, .error error)
    | .ok appended =>
      match appended.persistCommit (.fromPlan plan) with
      | .error error => (appended.fence, .error error)
      | .ok persisted =>
        ((persisted.installCommit plan).settleCommit, .ok (plan.result, plan.changes))

/-! ## Flushes -/

/-- An empty durable redb commit, which makes every earlier commit durable too. -/
def persistStateDurably : DiskState :=
  { state with database := state.database.commit (state.database.current.persistState
      state.memory.revision state.memory.lastCommitTime) .immediate }

def finishFlush : DiskState :=
  { state.checkpointJournal with unflushed := false }

/-- Syncing the journal changes nothing that a later read of the file could see. -/
def flushState : DiskState × Except DiskError Unit :=
  if !state.unflushed then (state, .ok ())
  else if state.requiresRestart then (state, .error .requiresRestart)
  else (state.persistStateDurably.finishFlush, .ok ())

end DiskState

/-! ## Bulk loads -/

structure DiskBulkCommit where
  state : DiskState
  transaction : Option DiskTables
  batches : Nat

def DiskState.beginBulkCommit (state : DiskState) : Except DiskError DiskBulkCommit :=
  if state.requiresRestart then throw .requiresRestart
  else pure ⟨state, some state.database.current, 0⟩

namespace DiskBulkCommit

variable (bulk : DiskBulkCommit)

/-- Aborts the transaction; installed batches have moved memory past the disk. -/
def abandon : DiskBulkCommit where
  state := if bulk.batches > 0 then bulk.state.fence else bulk.state
  transaction := none
  batches := bulk.batches

def commit (clock : ClockReading) (writes : List Write) :
    DiskBulkCommit × Except DiskError (CommitResult × List Change) :=
  match bulk.transaction with
  | none => (bulk, .error .requiresRestart)
  | some tables =>
    match tables.loadWriteDocuments writes with
    | .error error => (bulk, .error error)
    | .ok documents =>
      match bulk.state.memory.planWithDocuments clock writes documents with
      | .error error => (bulk, .error (.commit error))
      | .ok plan =>
        match tables.applyMutations (WalRecord.fromPlan plan).mutations with
        | .error error => (bulk.abandon, .error error)
        | .ok tables =>
          (⟨bulk.state.installCommit plan, some tables, saturatingAdd bulk.batches 1⟩,
            .ok (plan.result, plan.changes))

def finish : DiskState × Except DiskError Unit :=
  match bulk.transaction with
  | none => (bulk.state, .error .requiresRestart)
  | some tables =>
    if bulk.batches = 0 then (bulk.state, .ok ())
    else
      ({ bulk.state with database := bulk.state.database.commit (tables.persistState
          bulk.state.memory.revision bulk.state.memory.lastCommitTime) .immediate }, .ok ())

def drop : DiskState :=
  if bulk.transaction.isSome then bulk.abandon.state else bulk.state

end DiskBulkCommit

/-! ## Opening -/

namespace DiskTables

variable (tables : DiskTables)

def loadPersistedState : Except DiskError PersistedState :=
  match tables.metadata with
  | none => pure ⟨0, .epoch⟩
  | some bytes => decodeWhole decodePersistedState bytes

def loadEntry (usage : LogicalMemoryUsage) (entry : List UInt8 × List UInt8) :
    Except DiskError LogicalMemoryUsage := do
  let key ← decodeDocumentKey entry.1
  let document ← (decodeStoredDocument entry.2).mapError .decoding
  pure ⟨saturatingAdd usage.entries 1,
    saturatingAdd usage.logicalBytes (documentEntryLogicalBytes key document)⟩

def loadDatabase : Except DiskError (Nat × Timestamp × LogicalMemoryUsage) := do
  let usage ← tables.documents.toList.foldlM loadEntry ⟨0, 0⟩
  match tables.metadata with
  | some bytes => do
    let state ← decodeWhole decodePersistedState bytes
    pure (state.revision, state.lastCommitTime, usage)
  | none =>
    if usage.entries = 0 then pure (0, .epoch, usage)
    else throw (.corrupt "document table exists without store metadata".toList)

/-- One round of `replay_records`: records that redb already holds are skipped, all
others must follow without a gap. -/
def replayRecord (replayed : DiskTables × PersistedState) (record : WalRecord) :
    Except DiskError (DiskTables × PersistedState) :=
  let (tables, state) := replayed
  if record.revision ≤ state.revision then pure (tables, state)
  else if 2 ^ 64 ≤ state.revision + 1 then
    throw (.corrupt "persisted revision is exhausted".toList)
  else if record.revision ≠ state.revision + 1 then
    throw (.corrupt ("journal revision ".toList ++ (toString record.revision).toList ++
      " does not follow persisted revision ".toList ++ (toString state.revision).toList))
  else if record.commitTime ≤ state.lastCommitTime then
    throw (.corrupt "journal commit timestamps are not strictly increasing".toList)
  else do
    let tables ← tables.persistRecord record
    pure (tables, ⟨record.revision, record.commitTime⟩)

def replayRecords (records : List WalRecord) : Except DiskError DiskTables := do
  let state ← tables.loadPersistedState
  let (tables, _) ← records.foldlM replayRecord (tables, state)
  pure tables

end DiskTables

/-- The records of the journal, and the journal without a torn frame at its end. -/
def openJournal (journal : List UInt8) : Except DiskError (List UInt8 × List WalRecord) := do
  let (records, validLen) ← readRecords crc32c journal
  pure (journal.take validLen, records)

namespace DiskState

def loaded (options : StoreOptions) (durability : DiskDurability) (tables : DiskTables)
    (journal : Option (List UInt8)) : Except DiskError DiskState := do
  let (revision, lastCommitTime, currentDocuments) ← tables.loadDatabase
  pure {
    memory := .fromPersisted options revision lastCommitTime ∅ currentDocuments
    database := ⟨tables, tables⟩
    journal := journal
    requiresRestart := false
    durability := durability
    unflushed := false }

/-- `DiskStore::open` on the tables of redb's last durable commit and the bytes of the
journal file, if the journal is enabled. -/
def openStore (options : StoreOptions) (durability : DiskDurability) (durable : DiskTables) :
    Option (List UInt8) → Except DiskError DiskState
  | none => loaded options durability durable none
  | some journal => do
    let (_, records) ← openJournal crc32c journal
    let tables ← durable.replayRecords records
    loaded options durability tables (some [])

end DiskState

/-! ## Snapshots -/

inductive SnapshotDocuments
  | memory (snapshot : MemorySnapshot)
  | disk (snapshot : DiskSnapshot)

structure Snapshot where
  revision : Nat
  documents : SnapshotDocuments
  logicalUsage : LogicalMemoryUsage

namespace DiskState

variable (state : DiskState)

def snapshot : Snapshot :=
  ⟨state.memory.revision, .disk ⟨state.database.current, ∅⟩, state.memory.currentDocuments⟩

def snapshotAt (revision : Nat) : Except SnapshotError Snapshot := do
  let overlay ← historicalOverlay state.memory revision
  pure ⟨revision, .disk ⟨state.database.current, overlay⟩,
    state.memory.documentUsageAtRevision revision⟩

def snapshotAtTime (readTime : Timestamp) : Except SnapshotError Snapshot :=
  if readTime < state.memory.commitIndex.historyFloor.commitTime then
    throw (.readTimeExpired readTime state.memory.commitIndex.historyFloor.commitTime)
  else state.snapshotAt (state.memory.revisionAtTime readTime)

end DiskState

def MemorySnapshot.toSnapshot (snapshot : MemorySnapshot) : Snapshot :=
  ⟨snapshot.revision, .memory snapshot, snapshot.logicalUsage⟩

namespace Snapshot

variable (snapshot : Snapshot)

def get (key : DocumentKey) : Option Document :=
  match snapshot.documents with
  | .memory memory => memory.documents[key]?
  | .disk disk => disk.get key

variable (database : DatabaseName)

def iterDocuments : List (DocumentKey × LazyDocument) :=
  match snapshot.documents with
  | .memory memory => (memory.documents.toList.filter fun entry => entry.1.database == database).map
      fun entry => (entry.1, .decoded entry.2)
  | .disk disk => disk.iterDocuments database

def sortedKeys (keys : KeySet) : List DocumentKey :=
  keys.toList.mergeSort fun left right => (compareResourcePaths left.path right.path).isLE

def iterCollection (collectionPath : Text) : List (DocumentKey × LazyDocument) :=
  match snapshot.documents with
  | .memory memory =>
    (sortedKeys (scopeKeys memory.collections ⟨database, collectionPath⟩)).filterMap fun key =>
      memory.documents[key]?.map fun document => (key, .decoded document)
  | .disk disk => disk.iterCollection database collectionPath

def iterCollectionGroup (collectionId : Text)
    (ancestor : Option Text) : List (DocumentKey × LazyDocument) :=
  match snapshot.documents with
  | .memory memory =>
    (sortedKeys (scopeKeys memory.collectionGroups ⟨database, collectionId⟩)).filterMap fun key =>
      if ancestor.all fun ancestor => ancestorMatches ancestor key.path then
        memory.documents[key]?.map fun document => (key, .decoded document)
      else none
  | .disk disk => disk.iterCollectionGroup database collectionId ancestor

def allDocuments : Option (List (DocumentKey × Document)) :=
  match snapshot.documents with
  | .memory memory => some (memory.documents.toList.filter fun entry =>
    entry.1.database == database)
  | .disk disk => disk.documents database

def databases (project : Text) : List DatabaseName :=
  match snapshot.documents with
  | .memory memory => (Std.ExtTreeSet.ofList ((memory.documents.keys.filter fun key =>
    key.database.projectId == project).map fun key => key.database)).toList
  | .disk disk => disk.databases project

end Snapshot
end Firenook
