import Firenook.Backends
import Firenook.QueryEngine

/-!
# The Firestore service

The requests of the gRPC front over a store of either backend: transactions with
their read sets, point reads, queries, commits and the results they report.  What
Security Rules decide about a request is an argument of the request.
-/

namespace Firenook

/-! ## Stores -/

inductive Store
  | memory (state : State)
  | disk (state : DiskState)

variable (crc32c : List UInt8 → UInt32)

namespace Store

def bookkeeping : Store → State
  | .memory state => state
  | .disk state => state.memory

def snapshot : Store → Snapshot
  | .memory state => state.snapshot.toSnapshot
  | .disk state => state.snapshot

def snapshotAtTime (readTime : Timestamp) : Store → Except SnapshotError Snapshot
  | .memory state => (state.snapshotAtTime readTime).map MemorySnapshot.toSnapshot
  | .disk state => state.snapshotAtTime readTime

def commit (clock : ClockReading) (writes : List Write) :
    Store → Store × Except DiskError CommitResult
  | .memory state =>
    match state.commit clock writes with
    | .ok (result, _, next) => (.memory next, .ok result)
    | .error error => (.memory state, .error (.commit error))
  | .disk state =>
    match state.commitObserved crc32c clock writes with
    | (next, .ok (result, _)) => (.disk next, .ok result)
    | (next, .error error) => (.disk next, .error error)

end Store

/-! ## Requests -/

/-- An error status.  Texts that are rendered from another error are kept as that
error. -/
inductive Status
  | invalidArgument (message : Text)
  | failedPrecondition (message : Text)
  | aborted (message : Text)
  | notFound (message : Text)
  | alreadyExists (message : Text)
  | permissionDenied (message : Text)
  | internal (message : Text)
  | resourceExhausted (message : Text)
  | invalidOperand (key : DocumentKey) (field : FieldPath)
  | unavailable (error : DiskError)
  | snapshot (error : SnapshotError)
  | query (error : QueryEngine.QueryError)

def writeTransforms : Write → List FieldTransform
  | .create _ _ => []
  | .set _ _ transforms _ => transforms
  | .patch _ _ _ transforms _ => transforms
  | .delete _ _ => []
  | .verify _ _ => []

/-- A decoded write names the key and the transforms of its write. -/
structure DecodedWrite where
  write : Write
  key : DocumentKey
  transforms : List FieldTransform
  keyOfWrite : key = writeKey write
  transformsOfWrite : transforms = writeTransforms write

def DecodedWrite.of (write : Write) : DecodedWrite :=
  ⟨write, writeKey write, writeTransforms write, rfl, rfl⟩

structure WriteResult where
  updateTime : Option Timestamp
  transformResults : List Value

structure CommitResponse where
  writeResults : List WriteResult
  commitTime : Timestamp

structure TransactionState where
  database : DatabaseName
  snapshot : Snapshot
  readOnly : Bool
  reads : Std.ExtTreeMap DocumentKey (Option Timestamp)

def TransactionState.record (transaction : TransactionState) (key : DocumentKey)
    (document : Option Document) : TransactionState :=
  { transaction with
    reads := transaction.reads.insertIfNew key (document.map Document.updateTime) }

/-- The state that all requests share.  Transactions are keyed by their token. -/
structure FirestoreService where
  store : Store
  transactions : Std.ExtTreeMap (List UInt8) TransactionState
  nextId : Nat

inductive TransactionMode
  | readWrite
  | readOnly (readTime : Option Timestamp)

def commitStatus : DiskError → Status
  | .commit (.alreadyExists key) =>
    .alreadyExists ("document already exists: ".toList ++ key.toText)
  | .commit (.existencePrecondition key true) =>
    .notFound ("document not found: ".toList ++ key.toText)
  | .commit (.existencePrecondition key false) =>
    .alreadyExists ("document already exists: ".toList ++ key.toText)
  | .commit (.updateTimePrecondition key _ _) =>
    .failedPrecondition ("update time precondition failed: ".toList ++ key.toText)
  | .commit (.invalidNumericTransformOperand key field) => .invalidOperand key field
  | .commit .revisionExhausted => .resourceExhausted "store revision exhausted".toList
  | error => .unavailable error

/-- A read time must be a past microsecond of the last hour. -/
def decodeReadTime (readTime current : Timestamp) : Except Status Timestamp :=
  if readTime.nanos % 1000 ≠ 0 then
    throw (.invalidArgument "read_time cannot have more than microseconds precision".toList)
  else if current < readTime then
    throw (.invalidArgument "read_time cannot be in the future".toList)
  else if readTime.seconds < max (-2 ^ 63) (current.seconds - 3600) ∨
      readTime.seconds = max (-2 ^ 63) (current.seconds - 3600) ∧ readTime.nanos < current.nanos then
    throw (.failedPrecondition "read_time is too old".toList)
  else pure readTime

/-! ## Write results -/

def TransformOperation.isNumeric : TransformOperation → Bool
  | .increment _ => true
  | .maximum _ => true
  | .minimum _ => true
  | _ => false

/-- Encoding the value for the response never fails. -/
def transformResult (transform : FieldTransform) (document : Option Document)
    (commitTime : Timestamp) : Except Status Value :=
  match transform.operation with
  | .arrayUnion _ => pure .null
  | .arrayRemove _ => pure .null
  | .serverTimestamp => pure (.timestamp commitTime)
  | _ =>
    match document.bind fun document => nestedValue document.fields transform.path.segments with
    | none => throw (.internal "transform result field is missing".toList)
    | some value => pure value

def writeResult (snapshot : Snapshot) (commit : CommitResult) (decoded : DecodedWrite) :
    Except Status WriteResult := do
  let document := snapshot.get decoded.key
  let transformResults ← decoded.transforms.mapM (transformResult · document commit.commitTime)
  pure ⟨document.map Document.updateTime, transformResults⟩

namespace FirestoreService

def applyWrites (service : FirestoreService) (clock : ClockReading)
    (decoded : List DecodedWrite) : FirestoreService × Except Status CommitResponse :=
  match service.store.commit crc32c clock (decoded.map DecodedWrite.write) with
  | (store, .error error) => ({ service with store := store }, .error (commitStatus error))
  | (store, .ok result) =>
    ({ service with store := store }, do
      let writeResults ← decoded.mapM (writeResult store.snapshot result)
      pure ⟨writeResults, result.commitTime⟩)

/-! ## Transactions -/

def transactionToken (sequence : Nat) : List UInt8 :=
  Text.bytes "firenook-txn-".toList ++ ByteOrder.bigEndian 8 sequence

variable (service : FirestoreService)

def beginSnapshot (now : Timestamp) : TransactionMode → Except Status (Bool × Snapshot)
  | .readWrite => pure (false, service.store.snapshot)
  | .readOnly none => pure (true, service.store.snapshot)
  | .readOnly (some readTime) => do
    let readTime ← decodeReadTime readTime now
    let snapshot ← (service.store.snapshotAtTime readTime).mapError .snapshot
    pure (true, snapshot)

def takeId : FirestoreService :=
  { service with nextId := (service.nextId + 1) % 2 ^ 64 }

variable (database : DatabaseName)

def beginTransaction
    (mode : TransactionMode) (now : Timestamp) : Except Status (List UInt8 × FirestoreService) := do
  let (readOnly, snapshot) ← service.beginSnapshot now mode
  let token := transactionToken service.nextId
  pure (token, { service.takeId with
    transactions := service.transactions.insert token ⟨database, snapshot, readOnly, ∅⟩ })

def snapshotForTransaction (token : List UInt8) : Except Status (Snapshot × Bool) :=
  match service.transactions[token]? with
  | none => throw (.invalidArgument "unknown transaction".toList)
  | some transaction =>
    if transaction.database ≠ database then
      throw (.invalidArgument "transaction belongs to a different database".toList)
    else pure (transaction.snapshot, !transaction.readOnly)

/-- The snapshot of a read, and whether a read-write transaction makes it. -/
def readSnapshot (token : List UInt8) : Except Status (Snapshot × Bool) :=
  if token = [] then pure (service.store.snapshot, false)
  else service.snapshotForTransaction database token

def recordRead (token : List UInt8) (key : DocumentKey)
    (document : Option Document) : FirestoreService :=
  if token = [] then service
  else
    match service.transactions[token]? with
    | none => service
    | some transaction =>
      { service with
        transactions := service.transactions.insert token (transaction.record key document) }

def batchReads (snapshot : Snapshot) (database : DatabaseName) (keys : List DocumentKey) :
    Except Status (List (DocumentKey × Option Document)) :=
  if keys.any fun key => key.database ≠ database then
    throw (.invalidArgument "batch document belongs to a different database".toList)
  else pure (keys.eraseDups.map fun key => (key, snapshot.get key))

def recordReads (token : List UInt8)
    (reads : List (DocumentKey × Option Document)) : FirestoreService :=
  reads.foldl (fun service read => service.recordRead token read.1 read.2) service

def batchGetDocuments (keys : List DocumentKey) (token : List UInt8)
    (authorize : Snapshot → Bool → Except Status Unit) :
    FirestoreService × Except Status (List (DocumentKey × Option Document)) :=
  match service.readSnapshot database token with
  | .error error => (service, .error error)
  | .ok (snapshot, readWrite) =>
    match batchReads snapshot database keys with
    | .error error => (service, .error error)
    | .ok reads =>
      match authorize snapshot readWrite with
      | .error error => (service, .error error)
      | .ok () => (service.recordReads token reads, .ok reads)

def rollback (token : List UInt8) : FirestoreService × Except Status Unit :=
  match service.transactions[token]? with
  | none => (service, .error (.invalidArgument "unknown transaction".toList))
  | some transaction =>
    ({ service with transactions := service.transactions.erase token },
      if transaction.database ≠ database then
        throw (.invalidArgument "transaction belongs to a different database".toList)
      else pure ())

structure CommitRequest where
  database : DatabaseName
  token : List UInt8
  decoded : List DecodedWrite
  clock : ClockReading
  authorize : Snapshot → Except Status Unit

def validateTransaction (transaction : TransactionState) (current : Snapshot)
    (request : CommitRequest) : Except Status Unit :=
  if transaction.database ≠ request.database then
    throw (.invalidArgument "transaction belongs to a different database".toList)
  else if transaction.readOnly && !request.decoded.isEmpty then
    throw (.failedPrecondition "read-only transaction cannot contain writes".toList)
  else
    match transaction.reads.toList.find? fun read =>
        (current.get read.1).map Document.updateTime ≠ read.2 with
    | some read => throw (.aborted ("transaction document changed: ".toList ++ read.1.toText))
    | none => pure ()

def authorizeAndApply (service : FirestoreService) (current : Snapshot) (request : CommitRequest) :
    FirestoreService × Except Status CommitResponse :=
  match request.authorize current with
  | .error error => (service, .error error)
  | .ok () => service.applyWrites crc32c request.clock request.decoded

/-- Runs under the write lock, so that the current snapshot stays current until the
writes are applied. -/
def commit (service : FirestoreService) (request : CommitRequest) :
    FirestoreService × Except Status CommitResponse :=
  let current := service.store.snapshot
  if request.token = [] then service.authorizeAndApply crc32c current request
  else
    match service.transactions[request.token]? with
    | none => (service, .error (.invalidArgument "unknown transaction".toList))
    | some transaction =>
      let removed := { service with transactions := service.transactions.erase request.token }
      match validateTransaction transaction current request with
      | .error error => (removed, .error error)
      | .ok () => removed.authorizeAndApply crc32c current request

end FirestoreService

/-! ## Commits of either backend -/

namespace Store

def Holds : Store → DocumentMap → Prop
  | .memory state, documents => state.documents = documents
  | .disk state, documents => DocumentsStored state.database.current.documents documents

variable {crc32c : List UInt8 → UInt32} {store next : Store} {clock : ClockReading}
  {writes : List Write} {documents : DocumentMap}

theorem get_snapshot (holds : store.Holds documents) (key : DocumentKey) :
    store.snapshot.get key = documents[key]? := by
  cases store with
  | memory state =>
    cases holds
    rfl
  | disk state => exact DiskState.get_snapshot holds key

section

variable {result : CommitResult} (success : store.commit crc32c clock writes = (next, .ok result))
include success

theorem commit_cases_of_ok :
    (∃ state outcome, store = .memory state ∧ state.commit clock writes = .ok (result, outcome) ∧
        next = .memory outcome.2) ∨
      ∃ state changes, store = .disk state ∧
        (state.commitObserved crc32c clock writes).2 = .ok (result, changes) ∧
        next = .disk (state.commitObserved crc32c clock writes).1 := by
  cases store with
  | memory state =>
    simp only [commit] at success
    split at success <;> cases success
    exact .inl ⟨state, _, rfl, ‹_›, rfl⟩
  | disk state =>
    simp only [commit] at success
    split at success <;> cases success
    next committed => exact .inr ⟨state, _, rfl, by rw [committed], by rw [committed]⟩

theorem commit_bookkeeping :
    result = ⟨store.bookkeeping.revision + 1, store.bookkeeping.nextCommitTime clock⟩ ∧
    next.bookkeeping.revision = result.revision ∧
    next.bookkeeping.lastCommitTime = result.commitTime := by
  rcases commit_cases_of_ok success with
    ⟨state, outcome, rfl, committed, rfl⟩ | ⟨state, changes, rfl, committed, rfl⟩
  · obtain ⟨planned, isResult, _, isNext⟩ := commit_cases committed
    simp [bookkeeping, isNext, isResult, installMetadata_eq]
  · obtain ⟨loaded, plan, tables, _, plans, _, ⟨⟩, memory, _⟩ :=
      DiskState.commitObserved_ok committed
    obtain ⟨_, isResult, _⟩ := planWithDocuments_ok plans
    simp [bookkeeping, memory, isResult, State.installDisk, installMetadata_eq]

theorem commit_ok (holds : store.Holds documents) :
    result = ⟨store.bookkeeping.revision + 1, store.bookkeeping.nextCommitTime clock⟩ ∧
    next.bookkeeping.revision = result.revision ∧
    next.bookkeeping.lastCommitTime = result.commitTime ∧
    ∃ planned changes final,
      Plans result.revision result.commitTime documents writes planned changes ∧
      next.Holds final ∧ (final = planned ∨ final = mutatedDocuments documents
        (changes.map fun change => ⟨change.key, change.after⟩)) := by
  obtain ⟨isResult, nextRevision, nextTime⟩ := commit_bookkeeping success
  refine ⟨isResult, nextRevision, nextTime, ?_⟩
  rcases commit_cases_of_ok success with
    ⟨state, outcome, rfl, committed, rfl⟩ | ⟨state, changes, rfl, committed, rfl⟩
  · cases holds
    obtain ⟨planned, _, plans, isNext⟩ := commit_cases committed
    refine ⟨planned, outcome.1, planned, ?_, ?_, .inl rfl⟩
    · rw [isResult]
      exact plans
    · simp [Holds, isNext, installMetadata_eq]
  · obtain ⟨loaded, plan, tables, loads, plans, persists, ⟨⟩, memory, current⟩ :=
      DiskState.commitObserved_ok committed
    obtain ⟨_, _, planned⟩ := planWithDocuments_ok plans
    have agreeing := agreeing_loadWriteDocuments holds loads
    obtain ⟨plannedWhole, plansWhole⟩ := exists_plans_of_agreeing agreeing planned
    refine ⟨plannedWhole, plan.changes, _, ?_, ?_, .inr rfl⟩
    · rw [isResult]
      exact plansWhole
    · rw [Holds, current]
      exact DocumentsStored.persistRecord holds persists

end

theorem commit_error {error : DiskError}
    (failure : store.commit crc32c clock writes = (next, .error error)) :
    next.bookkeeping = store.bookkeeping ∧ next.snapshot = store.snapshot := by
  revert failure
  fun_cases commit crc32c clock writes store
  case case2 =>
    rintro ⟨⟩
    exact ⟨rfl, rfl⟩
  case case4 next error observed =>
    rintro ⟨⟩
    obtain ⟨memory, database⟩ := DiskState.commitObserved_error (congrArg Prod.snd observed)
    simp only [observed] at memory database
    exact ⟨memory, by simp only [snapshot, DiskState.snapshot, memory, database]⟩
  all_goals rintro ⟨⟩

end Store
end Firenook
