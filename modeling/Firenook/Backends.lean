import Firenook.DiskScans
import Firenook.DiskStore
import Firenook.StoreHistory

/-!
# The two backends

A memory store and a disk store that execute the same commits.  The disk store plans
from the few documents it loads and keeps what the change records say; as long as no
write replaces a document by a different one that compares equal to it, both backends
answer every read alike, at the current revision and at every retained one.
-/

namespace Firenook

open OrderedEntries EncodedMaps State

variable {revision : Nat} {commitTime : Timestamp} {documents : DocumentMap}

structure Backends where
  memory : State
  disk : DiskState

def DiskState.created (options : StoreOptions) (journal : Bool) (durability : DiskDurability) :
    DiskState where
  memory := .fromPersisted options 0 .epoch ∅ ⟨0, 0⟩
  database := ⟨.empty, .empty⟩
  journal := if journal then some [] else none
  requiresRestart := false
  durability := durability
  unflushed := false

namespace Backends

variable (crc32c : List UInt8 → UInt32)

def start (options : StoreOptions) (journal : Bool) (durability : DiskDurability) : Backends :=
  ⟨.new options, .created options journal durability⟩

variable (backends : Backends) (request : Request)

def step : Backends :=
  ⟨match backends.memory.commit request.clock request.writes with
    | .ok (_, _, next) => next
    | .error _ => backends.memory,
   (backends.disk.commitObserved crc32c request.clock request.writes).1⟩

def SameOutcome : Prop :=
  (backends.disk.commitObserved crc32c request.clock request.writes).2.isOk =
    (backends.memory.commit request.clock request.writes).isOk

instance (backends : Backends) (request : Request) :
    Decidable (backends.SameOutcome crc32c request) :=
  inferInstanceAs (Decidable (_ = _))

/-- No write replaces a document by a different one that compares equal to it. -/
def KeepsEqualDocuments : Prop :=
  AlongWrites (backends.memory.nextCommitTime request.clock)
    (fun documents key next => optionDocumentEq documents[key]? next = true →
      next = documents[key]?) backends.memory.documents request.writes

end Backends

/-! ## Planning from the loaded documents -/

variable {writes : List Write}

theorem planWrites_congr {loaded : DocumentMap}
    (agree : ∀ key ∈ writes.map writeKey, loaded[key]? = documents[key]?) :
    (planWrites revision commitTime loaded writes).map Prod.snd =
      (planWrites revision commitTime documents writes).map Prod.snd := by
  induction writes generalizing documents loaded with
  | nil => rfl
  | cons write writes ih =>
    rw [List.map_cons, List.forall_mem_cons] at agree
    simp only [planWrites, applyWrite, agree.1]
    cases applied : nextDocument documents[writeKey write]? commitTime write with
    | error error => rfl
    | ok next =>
      have rest := @ih (putDocument documents (writeKey write) next)
        (putDocument loaded (writeKey write) next) (by
          intro key member
          rw [getElem?_putDocument, getElem?_putDocument, agree.2 key member])
      cases fromLoaded : planWrites revision commitTime
          (putDocument loaded (writeKey write) next) writes <;>
        cases fromDocuments : planWrites revision commitTime
          (putDocument documents (writeKey write) next) writes <;>
        simp_all [Except.map, bind, Except.bind, pure, Except.pure]

theorem exists_plans_of_agreeing {loaded planned : DocumentMap} {changes : List Change}
    (agree : ∀ key ∈ writes.map writeKey, loaded[key]? = documents[key]?)
    (written : planWrites revision commitTime loaded writes = .ok (planned, changes)) :
    ∃ planned, Plans revision commitTime documents writes planned changes := by
  have congruent := congrArg (Except.map Prod.snd) written
  rw [planWrites_congr agree] at congruent
  cases fromDocuments : planWrites revision commitTime documents writes with
  | error error =>
    rw [fromDocuments] at congruent
    cases congruent
  | ok outcome =>
    rw [fromDocuments] at congruent
    cases congruent
    exact ⟨outcome.1, plans_of_planWrites fromDocuments⟩

theorem Plans.mutatedDocuments_eq {planned : DocumentMap} {changes : List Change}
    (plans : Plans revision commitTime documents writes planned changes)
    (keeps : AlongWrites commitTime (fun documents key next =>
      optionDocumentEq documents[key]? next = true → next = documents[key]?) documents writes) :
    mutatedDocuments documents (changes.map fun change => ⟨change.key, change.after⟩) =
      planned := by
  induction plans with
  | nil documents => rfl
  | silent applied same rest ih =>
    obtain ⟨kept, keeps⟩ := keeps.cons applied
    have unchanged := ih keeps
    rwa [kept same, putDocument_self] at unchanged
  | logged applied differs rest ih => exact ih (keeps.cons applied).2

/-! ## Disk commits -/

namespace DiskState

variable {crc32c : List UInt8 → UInt32} {state : DiskState} {clock : ClockReading}
  {writes : List Write}

theorem appendJournal_ok {record : WalRecord} {appended : DiskState}
    (success : state.appendJournal crc32c record = .ok appended) :
    ∃ journal, appended = { state with journal := journal } := by
  rw [appendJournal] at success
  cases journal : state.journal with
  | none =>
    rw [journal] at success
    cases success
    exact ⟨state.journal, rfl⟩
  | some bytes =>
    rw [journal] at success
    obtain ⟨next, _, success⟩ := bind_eq_ok.mp success
    cases success
    exact ⟨some next, rfl⟩

theorem settleCommit_frame (state : DiskState) :
    state.settleCommit.memory = state.memory ∧ state.settleCommit.database = state.database := by
  rw [settleCommit]
  cases state.durability <;> exact ⟨rfl, rfl⟩

theorem planCommit_ok {plan : CommitPlan} (success : state.planCommit clock writes = .ok plan) :
    state.requiresRestart = false ∧
      ∃ loaded, state.database.current.loadWriteDocuments writes = .ok loaded ∧
        state.memory.planWithDocuments clock writes loaded = .ok plan := by
  rw [planCommit] at success
  split_ifs at success with fenced
  obtain ⟨loaded, loads, success⟩ := bind_eq_ok.mp success
  exact ⟨by simpa using fenced, loaded, loads, mapError_eq_ok.mp success⟩

theorem commitObserved_ok {outcome : CommitResult × List Change}
    (success : (state.commitObserved crc32c clock writes).2 = .ok outcome) :
    ∃ loaded plan tables,
      state.database.current.loadWriteDocuments writes = .ok loaded ∧
      state.memory.planWithDocuments clock writes loaded = .ok plan ∧
      state.database.current.persistRecord (.fromPlan plan) = .ok tables ∧
      outcome = (plan.result, plan.changes) ∧
      (state.commitObserved crc32c clock writes).1.memory = state.memory.installDisk plan ∧
      (state.commitObserved crc32c clock writes).1.database.current = tables := by
  revert success
  fun_cases commitObserved crc32c state clock writes
  case case4 plan planned appended append persisted persist =>
    rintro ⟨⟩
    obtain ⟨_, loaded, loads, plans⟩ := planCommit_ok planned
    obtain ⟨journal, rfl⟩ := appendJournal_ok append
    obtain ⟨tables, persists, ⟨⟩⟩ := bind_eq_ok.mp persist
    refine ⟨loaded, plan, tables, loads, plans, persists, rfl, ?_, ?_⟩
    · rw [(settleCommit_frame _).1]
      rfl
    · cases state.durability <;> rfl
  all_goals nofun

theorem commitObserved_error {error : DiskError}
    (failure : (state.commitObserved crc32c clock writes).2 = .error error) :
    (state.commitObserved crc32c clock writes).1.memory = state.memory ∧
      (state.commitObserved crc32c clock writes).1.database = state.database := by
  revert failure
  fun_cases commitObserved crc32c state clock writes
  case case3 append _ _ =>
    obtain ⟨journal, rfl⟩ := appendJournal_ok append
    exact fun _ => ⟨rfl, rfl⟩
  case case4 => nofun
  all_goals exact fun _ => ⟨rfl, rfl⟩

end DiskState

/-! ## The backends agree -/

/-- Equal bookkeeping: everything except the documents and the memory indexes. -/
structure SameBookkeeping (first second : State) : Prop where
  options : first.options = second.options
  revision : first.revision = second.revision
  lastCommitTime : first.lastCommitTime = second.lastCommitTime
  window : first.window = second.window
  commitIndex : first.commitIndex = second.commitIndex
  currentDocuments : first.currentDocuments = second.currentDocuments

theorem SameBookkeeping.installMetadata {first second : State}
    (same : SameBookkeeping first second) (result : CommitResult) (changes : List Change) :
    SameBookkeeping (first.installMetadata result changes)
      (second.installMetadata result changes) := by
  rw [installMetadata_eq, installMetadata_eq]
  exact ⟨same.options, rfl, rfl, by simp only [same.options, same.window],
    by simp only [same.options, same.window, same.commitIndex],
    by simp only [same.currentDocuments]⟩

structure Agree (backends : Backends) : Prop where
  bookkeeping : SameBookkeeping backends.disk.memory backends.memory
  documents : DocumentsStored backends.disk.database.current.documents backends.memory.documents

theorem agree_start (options : StoreOptions) (journal : Bool) (durability : DiskDurability) :
    Agree (.start options journal durability) where
  bookkeeping := ⟨rfl, rfl, rfl, rfl, rfl, rfl⟩
  documents := image_empty

theorem planWithDocuments_ok {state : State} {clock : ClockReading}
    {plan : CommitPlan} (success : state.planWithDocuments clock writes documents = .ok plan) :
    state.revision + 1 < 2 ^ 64 ∧
      plan.result = ⟨state.revision + 1, state.nextCommitTime clock⟩ ∧
      planWrites (state.revision + 1) (state.nextCommitTime clock) documents writes =
        .ok (plan.documents, plan.changes) := by
  simp only [planWithDocuments] at success
  split_ifs at success with room
  obtain ⟨⟨planned, changes⟩, written, success⟩ := bind_eq_ok.mp success
  cases success
  exact ⟨room, rfl, written⟩

theorem SameBookkeeping.nextCommitTime {first second : State}
    (same : SameBookkeeping first second) (clock : ClockReading) :
    first.nextCommitTime clock = second.nextCommitTime clock := by
  rw [State.nextCommitTime, State.nextCommitTime, same.lastCommitTime]

theorem DocumentsStored.persistRecord {tables result : DiskTables}
    {record : WalRecord} (stored : DocumentsStored tables.documents documents)
    (persists : tables.persistRecord record = .ok result) :
    DocumentsStored result.documents (mutatedDocuments documents record.mutations) := by
  obtain ⟨mutated, applied, persisted⟩ := bind_eq_ok.mp persists
  cases persisted
  have mutatedStored : DocumentsStored mutated.documents _ := stored.applyMutations applied
  exact mutatedStored

variable {backends : Backends}

theorem Agree.step {crc32c : List UInt8 → UInt32} (agree : Agree backends)
    (request : Request) (sameOutcome : backends.SameOutcome crc32c request)
    (keeps : backends.KeepsEqualDocuments request) : Agree (backends.step crc32c request) := by
  rw [Backends.SameOutcome] at sameOutcome
  cases onDisk : (backends.disk.commitObserved crc32c request.clock request.writes).2 with
  | error error =>
    obtain ⟨sameMemory, sameDatabase⟩ := DiskState.commitObserved_error onDisk
    cases inMemory : backends.memory.commit request.clock request.writes with
    | error failure =>
      simp only [Backends.step, inMemory]
      exact ⟨sameMemory ▸ agree.bookkeeping, sameDatabase ▸ agree.documents⟩
    | ok success =>
      rw [onDisk, inMemory] at sameOutcome
      cases sameOutcome
  | ok outcome =>
    obtain ⟨loaded, plan, tables, loads, plans, persists, rfl, diskMemory, diskTables⟩ :=
      DiskState.commitObserved_ok onDisk
    cases inMemory : backends.memory.commit request.clock request.writes with
    | error failure =>
      rw [onDisk, inMemory] at sameOutcome
      cases sameOutcome
    | ok success =>
      obtain ⟨memoryPlan, memoryPlans, success⟩ := bind_eq_ok.mp inMemory
      cases success
      obtain ⟨_, diskResult, diskWrites⟩ := planWithDocuments_ok plans
      obtain ⟨_, memoryResult, memoryWrites⟩ := planWithDocuments_ok memoryPlans
      rw [agree.bookkeeping.revision, agree.bookkeeping.nextCommitTime] at diskResult diskWrites
      have sameChanges : plan.changes = memoryPlan.changes := by
        have agreeing := agreeing_loadWriteDocuments agree.documents loads
        have congruent := congrArg (Except.map Prod.snd) diskWrites
        rw [planWrites_congr agreeing, memoryWrites] at congruent
        exact (Except.ok.inj congruent).symm
      have sameResult : plan.result = memoryPlan.result := diskResult.trans memoryResult.symm
      have stored := agree.documents.persistRecord persists
      rw [WalRecord.fromPlan, sameChanges,
        (plans_of_planWrites memoryWrites).mutatedDocuments_eq keeps] at stored
      simp only [Backends.step, inMemory]
      constructor
      · rw [diskMemory, installDisk, sameResult, sameChanges]
        apply SameBookkeeping.installMetadata
        exact ⟨agree.bookkeeping.options, agree.bookkeeping.revision,
          agree.bookkeeping.lastCommitTime, agree.bookkeeping.window,
          agree.bookkeeping.commitIndex, agree.bookkeeping.currentDocuments⟩
      · rw [diskTables, install, installMetadata_eq]
        exact stored

/-! ## Reads -/

/-- Both snapshots answer every whole-database read alike. -/
structure SameReads (disk memory : Snapshot) : Prop where
  revision : disk.revision = memory.revision
  get : ∀ key, disk.get key = memory.get key
  iterDocuments : ∀ database, ∃ listed, ShowsAll (disk.iterDocuments database) listed ∧
    ShowsAll (memory.iterDocuments database) listed
  allDocuments : ∀ database, disk.allDocuments database = memory.allDocuments database
  databases : ∀ project, disk.databases project = memory.databases project
  logicalUsage : disk.logicalUsage = memory.logicalUsage

theorem ShowsAll.mapM_intoDocument {scan : List (DocumentKey × LazyDocument)}
    {listed : List (DocumentKey × Document)} (shows : ShowsAll scan listed) :
    (scan.mapM fun (key, document) =>
      document.intoDocument.map fun document => (key, document)) = some listed := by
  induction shows with
  | nil => rfl
  | cons here rest ih =>
    obtain ⟨sameKey, shown⟩ := here
    rw [List.mapM_cons, ih]
    simp [shown.1, sameKey]

theorem showsAll_decoded (listed : List (DocumentKey × Document)) :
    ShowsAll (listed.map fun entry => (entry.1, .decoded entry.2)) listed := by
  induction listed with
  | nil => exact .nil
  | cons entry listed ih => exact .cons ⟨rfl, shows_decoded entry.2⟩ ih

theorem sameReads_of_get (disk : DiskSnapshot) (memory : MemorySnapshot)
    {usage : LogicalMemoryUsage} (stored : DocumentsStored disk.tables.documents documents)
    (sameGet : ∀ key, disk.get key = memory.documents[key]?) (sameUsage : usage = memory.logicalUsage) :
    SameReads ⟨memory.revision, .disk disk, usage⟩ memory.toSnapshot := by
  have sameList : ∀ database, ShowsAll (disk.iterDocuments database)
      (memory.documents.toList.filter fun entry => entry.1.database == database) := by
    intro database
    obtain ⟨listed, shows, ascending, mem⟩ := disk.exists_listed_database stored database
    have same : listed =
        memory.documents.toList.filter fun entry => entry.1.database == database := by
      refine ascending_ext ascending (Std.ExtTreeMap.ordered_keys_toList.filter _) ?_
      rintro ⟨key, document⟩
      rw [mem, List.mem_filter, Std.ExtTreeMap.mem_toList_iff_getElem?_eq_some, sameGet,
        beq_iff_eq, and_comm]
    rwa [← same]
  refine ⟨rfl, sameGet, fun database => ⟨_, sameList database, showsAll_decoded _⟩,
    fun database => (sameList database).mapM_intoDocument, fun project => ?_, sameUsage⟩
  have ascending : (memory.toSnapshot.databases project).Pairwise
      fun left right => compare left right = .lt :=
    Std.ExtTreeSet.ordered_toList
  refine eq_of_pairwise_lt compare id (disk.ascending_databases project) ascending
    fun database => ?_
  simp only [MemorySnapshot.toSnapshot, Snapshot.databases, DiskSnapshot.mem_databases stored,
    Std.ExtTreeSet.mem_toList, Std.ExtTreeSet.mem_ofList, List.contains_iff_mem,
    List.mem_map, List.mem_filter, Std.ExtTreeMap.mem_keys, beq_iff_eq, sameGet, mem_iff_isSome,
    Option.isSome_iff_exists]
  constructor
  · rintro ⟨rfl, key, document, rfl, present⟩
    exact ⟨key, ⟨⟨document, present⟩, rfl⟩, rfl⟩
  · rintro ⟨key, ⟨⟨document, present⟩, rfl⟩, rfl⟩
    exact ⟨rfl, key, document, rfl, present⟩

theorem getElem?_overlay (changes : List Change) (base : DocumentMap) (key : DocumentKey) :
    (changes.foldl (fun (overlay : Overlay) change => overlay.insert change.key change.before)
      ∅)[key]?.getD base[key]? = (changes.foldl undoDocument base)[key]? := by
  have general : ∀ (overlay : Overlay) (documents : DocumentMap),
      (∀ key : DocumentKey, overlay[key]?.getD base[key]? = documents[key]?) →
      ∀ key : DocumentKey, (changes.foldl (fun (overlay : Overlay) change =>
        overlay.insert change.key change.before) overlay)[key]?.getD base[key]? =
          (changes.foldl undoDocument documents)[key]? := by
    induction changes with
    | nil => exact fun overlay documents same => same
    | cons change changes ih =>
      intro overlay documents same
      apply ih
      intro other
      rw [OrderedMaps.getElem?_insert_eq, undoDocument, getElem?_putDocument]
      split_ifs
      · rfl
      · exact same other
  exact general ∅ base (by simp) key

theorem DiskState.get_snapshot {state : DiskState}
    (stored : DocumentsStored state.database.current.documents documents) (key : DocumentKey) :
    state.snapshot.get key = documents[key]? := by
  change DiskSnapshot.get ⟨state.database.current, ∅⟩ key = _
  rw [DiskSnapshot.get_eq stored]
  simp

theorem Agree.snapshot (agree : Agree backends) :
    SameReads backends.disk.snapshot backends.memory.snapshot.toSnapshot := by
  rw [DiskState.snapshot, agree.bookkeeping.revision, agree.bookkeeping.currentDocuments]
  exact sameReads_of_get ⟨backends.disk.database.current, ∅⟩ backends.memory.snapshot
    agree.documents (DiskState.get_snapshot agree.documents) rfl

theorem Agree.snapshotAt (agree : Agree backends) (revision : Nat) :
    match backends.disk.snapshotAt revision, backends.memory.snapshotAtRevision revision with
    | .ok disk, .ok memory => SameReads disk memory.toSnapshot
    | .error onDisk, .error inMemory => onDisk = inMemory
    | _, _ => False := by
  have sameChanges : backends.disk.memory.undoneChanges revision =
      backends.memory.undoneChanges revision := by
    rw [undoneChanges, undoneChanges, agree.bookkeeping.window]
  have sameUsage : backends.disk.memory.documentUsageAtRevision revision =
      backends.memory.documentUsageAtRevision revision := by
    rw [documentUsageAtRevision, documentUsageAtRevision, sameChanges,
      agree.bookkeeping.currentDocuments]
  simp only [DiskState.snapshotAt, historicalOverlay, snapshotAtRevision,
    agree.bookkeeping.revision, agree.bookkeeping.window, sameChanges, sameUsage,
    foldl_undoChange]
  split_ifs
  · rfl
  · rfl
  · refine sameReads_of_get ⟨backends.disk.database.current, _⟩ ⟨_, _, _, _, _⟩ agree.documents
      (fun key => ?_) rfl
    rw [DiskSnapshot.get_eq agree.documents]
    exact getElem?_overlay _ _ key

/-- Every commit succeeds on both backends or fails on both, and no write replaces a
document by a different one that compares equal to it. -/
def Backends.Aligned (crc32c : List UInt8 → UInt32) (backends : Backends) (request : Request) :
    Prop :=
  backends.SameOutcome crc32c request ∧ backends.KeepsEqualDocuments request

/-- In every run of commits on both backends, the disk store answers each
whole-database read as the memory store does, currently and at every retained
revision. -/
theorem disk_reads_equal_memory_reads (crc32c : List UInt8 → UInt32) (options : StoreOptions)
    (journal : Bool) (durability : DiskDurability) (requests : List Request)
    (aligned : Runs.AllSteps (Backends.step crc32c) (Backends.Aligned crc32c)
      (.start options journal durability) requests) :
    let backends := Runs.run (Backends.step crc32c) (.start options journal durability) requests
    SameReads backends.disk.snapshot backends.memory.snapshot.toSnapshot ∧
      ∀ revision,
        match backends.disk.snapshotAt revision, backends.memory.snapshotAtRevision revision with
        | .ok disk, .ok memory => SameReads disk memory.toSnapshot
        | .error onDisk, .error inMemory => onDisk = inMemory
        | _, _ => False := by
  intro backends
  have agree : Agree backends := by
    apply Runs.invariant_run Agree _ (agree_start options journal durability) aligned
    intro state request conditions before
    exact before.step request conditions.1 conditions.2
  exact ⟨agree.snapshot, agree.snapshotAt⟩

open Sample

def Sample.oneDouble : List Request := [⟨clock, [patchDouble 0]⟩]

theorem Sample.aligned_oneDouble : Runs.AllSteps (Backends.step castagnoli)
    (Backends.Aligned castagnoli) (.start options true .writeBehind) oneDouble := by
  refine ⟨⟨by decide +kernel, ?_⟩, trivial⟩
  exact ⟨fun same => absurd same Bool.false_ne_true, trivial⟩

def Sample.shownBits (snapshot : Snapshot) : Option UInt64 :=
  (snapshot.get itemA).bind fun document =>
    match document.fields.entries with
    | [(_, .double value)] => some value.bits
    | _ => none

theorem disk_reads_equal_memory_reads_sample :
    let backends := Runs.run (Backends.step castagnoli)
      (.start options true .writeBehind) oneDouble
    shownBits backends.disk.snapshot = some 0 ∧
      SameReads backends.disk.snapshot backends.memory.snapshot.toSnapshot ∧
      ∃ disk memory, backends.disk.snapshotAt 0 = .ok disk ∧
        backends.memory.snapshotAtRevision 0 = .ok memory ∧ SameReads disk memory.toSnapshot := by
  intro backends
  obtain ⟨current, retained⟩ := disk_reads_equal_memory_reads castagnoli options true .writeBehind
    _ aligned_oneDouble
  refine ⟨by decide +kernel, current, ?_⟩
  have earlier : match backends.disk.snapshotAt 0, backends.memory.snapshotAtRevision 0 with
    | .ok disk, .ok memory => SameReads disk memory.toSnapshot
    | .error onDisk, .error inMemory => onDisk = inMemory
    | _, _ => False := retained 0
  have diskKeeps : (backends.disk.snapshotAt 0).isOk = true := by decide +kernel
  have memoryKeeps : (backends.memory.snapshotAtRevision 0).isOk = true := by decide +kernel
  clear_value backends
  cases onDisk : backends.disk.snapshotAt 0 with
  | error => rw [onDisk] at diskKeeps; cases diskKeeps
  | ok disk =>
    cases inMemory : backends.memory.snapshotAtRevision 0 with
    | error => rw [inMemory] at memoryKeeps; cases memoryKeeps
    | ok memory =>
      rw [onDisk, inMemory] at earlier
      exact ⟨disk, memory, rfl, rfl, earlier⟩

def Sample.signedZeros : List Request := [⟨clock, [patchDouble 0, patchDouble 0x8000000000000000]⟩]

/-- The second write compares equal to the first and is not logged: the memory store
keeps it and the disk store does not. -/
theorem signedZeros_split_backends :
    let backends := Runs.run (Backends.step castagnoli)
      (.start options true .writeBehind) signedZeros
    Runs.AllSteps (Backends.step castagnoli) (Backends.SameOutcome castagnoli)
        (.start options true .writeBehind) signedZeros ∧
      ¬ SameReads backends.disk.snapshot backends.memory.snapshot.toSnapshot := by
  intro backends
  have onDisk : shownBits backends.disk.snapshot = some 0 := by decide +kernel
  refine ⟨by decide +kernel, fun same => ?_⟩
  rw [shownBits, same.get] at onDisk
  exact absurd onDisk (by decide)

end Firenook
