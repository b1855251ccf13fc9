import Firenook.CrashRecovery

/-!
# Crashes of the disk store

A disk store process as a machine that advances by the elementary steps of its
operations: journal append, redb commit, in-memory install and journal checkpoint of
a commit; the durable redb commit and the checkpoint of a flush; the batches and the
one durable commit of a bulk load; and the replayed records, the checkpoint and the
load of an opening store.  The process can be killed between any two steps, and while
it appends to the journal.  Durable tables and journal bytes survive.  In every state
the next open succeeds with the acknowledged commits and at most the one in flight.
-/

namespace Firenook

open EncodedMaps RedoLogs List Runs DiskBulkCommit DiskState

/-! ## The machine -/

/-- The last finished step of the operation that a serving process executes. -/
inductive Task
  | idle
  | planned (plan : CommitPlan)
  | appended (plan : CommitPlan)
  | persisted (plan : CommitPlan)
  | installed (plan : CommitPlan)
  | settled (plan : CommitPlan)
  | flushing
  | flushed

inductive Phase
  | down (durable : DiskTables) (journal : List UInt8)
  | replaying (options : StoreOptions) (durability : DiskDurability) (tables : DiskTables)
      (journal : List UInt8) (state : PersistedState) (remaining : List WalRecord)
  | replayed (options : StoreOptions) (durability : DiskDurability) (tables : DiskTables)
  | serving (state : DiskState) (task : Task)
  | loading (bulk : DiskBulkCommit)

def Phase.durable : Phase → DiskTables
  | .down durable _ => durable
  | .replaying _ _ tables _ _ _ => tables
  | .replayed _ _ tables => tables
  | .serving state _ => state.database.durable
  | .loading bulk => bulk.state.database.durable

def Phase.journal : Phase → List UInt8
  | .down _ journal => journal
  | .replaying _ _ _ journal _ _ => journal
  | .replayed _ _ _ => []
  | .serving state _ => state.journal.getD []
  | .loading bulk => bulk.state.journal.getD []

/-- The process and what its clients know: the acknowledged commits in order, the
commit in flight, and the batches of an unfinished bulk load. -/
structure Machine where
  phase : Phase
  acknowledged : List WalRecord
  inFlight : Option WalRecord
  unfinished : List WalRecord

inductive Event
  | proceed
  | commit (clock : ClockReading) (writes : List Write)
  | flush
  | beginBulkCommit
  | bulkCommit (clock : ClockReading) (writes : List Write)
  | finish
  | dropBulk
  | kill
  | tear (written : Nat)
  | openStore (options : StoreOptions) (durability : DiskDurability)

namespace Machine

def start : Machine := ⟨.down .empty [], [], none, []⟩

def killed (machine : Machine) (journal : List UInt8) : Machine :=
  { machine with phase := .down machine.phase.durable journal, unfinished := [] }

/-- The store is open again; a commit in flight that it comes back with has
happened. -/
def recovered (machine : Machine) (state : DiskState) : Machine where
  phase := .serving state .idle
  acknowledged := machine.acknowledged ++
    (machine.inFlight.filter fun record => record.revision ≤ state.memory.revision).toList
  inFlight := none
  unfinished := []

variable (crc32c : List UInt8 → UInt32)

def proceedTask (machine : Machine) (state : DiskState) : Task → Machine
  | .idle => machine
  | .planned plan =>
    match state.appendJournal crc32c (.fromPlan plan) with
    | .ok appended => { machine with phase := .serving appended (.appended plan) }
    | .error _ => { machine with phase := .serving state.fence .idle, inFlight := none }
  | .appended plan =>
    match state.persistCommit (.fromPlan plan) with
    | .ok persisted => { machine with phase := .serving persisted (.persisted plan) }
    | .error _ => { machine with phase := .serving state.fence .idle }
  | .persisted plan =>
    { machine with phase := .serving (state.installCommit plan) (.installed plan) }
  | .installed plan => { machine with phase := .serving state.settleCommit (.settled plan) }
  | .settled plan =>
    { machine with
      phase := .serving state .idle
      acknowledged := machine.acknowledged ++ [.fromPlan plan]
      inFlight := none }
  | .flushing => { machine with phase := .serving state.persistStateDurably .flushed }
  | .flushed => { machine with phase := .serving state.finishFlush .idle }

def proceed (machine : Machine) : Machine :=
  match machine.phase with
  | .replaying options durability tables journal state (record :: remaining) =>
    match DiskTables.replayRecord (tables, state) record with
    | .ok (tables, state) =>
      { machine with phase := .replaying options durability tables journal state remaining }
    | .error _ => { machine with phase := .down tables journal }
  | .replaying options durability tables _ _ [] =>
    { machine with phase := .replayed options durability tables }
  | .replayed options durability tables =>
    match loaded options durability tables (some []) with
    | .ok state => machine.recovered state
    | .error _ => { machine with phase := .down tables [] }
  | .serving state task => machine.proceedTask crc32c state task
  | _ => machine

def startOpen (machine : Machine) (options : StoreOptions) (durability : DiskDurability)
    (durable : DiskTables) (journal : List UInt8) : Machine :=
  match openJournal crc32c journal, durable.loadPersistedState with
  | .ok (journal, records), .ok state =>
    { machine with phase := .replaying options durability durable journal state records }
  | _, _ => machine

def startCommit (machine : Machine) (state : DiskState) (clock : ClockReading)
    (writes : List Write) : Machine :=
  match state.planCommit clock writes with
  | .ok plan =>
    { machine with phase := .serving state (.planned plan), inFlight := some (.fromPlan plan) }
  | .error _ => machine

def loadBatch (machine : Machine) (bulk : DiskBulkCommit) (clock : ClockReading)
    (writes : List Write) : Machine :=
  match bulk.commit clock writes with
  | (next, .ok (result, changes)) =>
    { machine with
      phase := .loading next
      unfinished := machine.unfinished ++ [⟨result.revision, result.commitTime,
        changes.map fun change => ⟨change.key, change.after⟩⟩] }
  | (next, .error _) =>
    { machine with
      phase := .loading next
      unfinished := if next.transaction.isSome then machine.unfinished else [] }

def finishLoad (machine : Machine) (bulk : DiskBulkCommit) : Machine :=
  match bulk.finish with
  | (state, .ok ()) =>
    { machine with
      phase := .serving state .idle
      acknowledged := machine.acknowledged ++ machine.unfinished
      unfinished := [] }
  | (state, .error _) => { machine with phase := .serving state .idle, unfinished := [] }

/-- One event; an event that does not apply changes nothing. -/
def step (machine : Machine) (event : Event) : Machine :=
  match event, machine.phase with
  | .proceed, _ => machine.proceed crc32c
  | .kill, phase => machine.killed phase.journal
  | .tear written, .serving state (.planned plan) =>
    -- the process dies after some bytes of the frame
    match appendRecord crc32c (state.journal.getD []) (.fromPlan plan) with
    | .ok journal => machine.killed (journal.take ((state.journal.getD []).length + written))
    | .error _ => machine
  | .openStore options durability, .down durable journal =>
    machine.startOpen crc32c options durability durable journal
  | .commit clock writes, .serving state .idle => machine.startCommit state clock writes
  | .flush, .serving state .idle =>
    if state.unflushed && !state.requiresRestart then
      { machine with phase := .serving state .flushing }
    else machine
  | .beginBulkCommit, .serving state .idle =>
    match state.beginBulkCommit with
    | .ok bulk => { machine with phase := .loading bulk, unfinished := [] }
    | .error _ => machine
  | .bulkCommit clock writes, .loading bulk => machine.loadBatch bulk clock writes
  | .finish, .loading bulk => machine.finishLoad bulk
  | .dropBulk, .loading bulk => { machine with phase := .serving bulk.drop .idle, unfinished := [] }
  | _, _ => machine

/-- A commit that starts now is stamped below the limit of the seconds counter. -/
def BelowTimeLimit (machine : Machine) (event : Event) : Prop :=
  match event, machine.phase with
  | .commit clock _, .serving state .idle =>
    (state.memory.nextCommitTime clock).seconds < Timestamp.maxSeconds
  | .bulkCommit clock _, .loading bulk =>
    (bulk.state.memory.nextCommitTime clock).seconds < Timestamp.maxSeconds
  | _, _ => True

instance (machine : Machine) (event : Event) : Decidable (machine.BelowTimeLimit event) := by
  unfold BelowTimeLimit
  split <;> infer_instance

end Machine

open Machine (step proceed proceedTask)

/-! ## What the files of a running store hold -/

/-- The durable tables and the journal of the store hold the records together. -/
def Logged (crc32c : List UInt8 → UInt32) (state : DiskState) (records : List WalRecord) : Prop :=
  ∃ log, state.journal = some (frames crc32c log) ∧ (∀ record ∈ log, Framable record) ∧
    Backed state.database.durable log records

/-- A store whose current tables, whose files and whose memory stand after the given
records.  The memory of a fenced store is not used any more. -/
structure Serving (crc32c : List UInt8 → UInt32) (state : DiskState)
    (current logged memory : List WalRecord) : Prop where
  holds : Holds state.database.current current
  safe : Logged crc32c state logged
  chained : Chained Follows logged
  ready : state.requiresRestart = false →
    ⟨state.memory.revision, state.memory.lastCommitTime⟩ = stateAfter memory

variable {record : WalRecord}

section

variable {crc32c : List UInt8 → UInt32} {durable : DiskTables} {log records : List WalRecord}
  {tables : DiskTables}

theorem Backed.covers (backed : Backed durable log records) (chained : Chained Follows records) :
    Covers WalRecord.revision log records [] := by
  obtain ⟨base, tail, rfl, _, covers⟩ := backed
  exact Covers.advance revision_of_follows (by simpa using covers) (by simpa using chained)

theorem Backed.durably (backed : Backed durable log records) (chained : Chained Follows records)
    (holds : Holds tables records) : Backed tables log records :=
  ⟨records, [], by simp, holds, backed.covers chained⟩

theorem Holds.backed (holds : Holds tables records) : Backed tables [] records :=
  ⟨records, [], by simp, holds, covers_nil _ _⟩

theorem Backed.append (backed : Backed durable log records) (next : Follows records record) :
    Backed durable (log ++ [record]) (records ++ [record]) := by
  obtain ⟨base, tail, rfl, holds, covers⟩ := backed
  exact ⟨base, tail ++ [record], by simp, holds, covers.append revision_of_follows next⟩

theorem Holds.persistState
    {state : PersistedState} (stored : DocumentsStored tables.documents (documentsAfter records))
    (isState : state = stateAfter records) :
    Holds (tables.persistState state.revision state.lastCommitTime) records :=
  ⟨stored, .inl (by rw [← isState]; rfl)⟩

theorem Logged.recovers {state : DiskState}
    (logged : Logged crc32c state records) (chained : Chained Follows records) :
    Recovers crc32c state.database.durable (state.journal.getD []) records := by
  obtain ⟨log, journal, framable, backed⟩ := logged
  refine ⟨log, [], ?_, .inl rfl, framable, backed, chained⟩
  rw [journal, Option.getD_some, append_nil]

theorem Holds.recovers (holds : Holds tables records) (chained : Chained Follows records) :
    Recovers crc32c tables [] records :=
  ⟨[], [], rfl, .inl rfl, by simp, holds.backed, chained⟩

theorem frames_append (log : List WalRecord) (record : WalRecord) :
    frames crc32c (log ++ [record]) = frames crc32c log ++ frame crc32c (encodeRecord record) := by
  simp [frames]

end

/-! ## The invariant -/

namespace Machine

variable {records : List WalRecord} {clock : ClockReading} {writes : List Write} {plan : CommitPlan}
  {state : DiskState} {bulk : DiskBulkCommit} {journal : List UInt8}

/-- The acknowledged commits, or those and the one in flight. -/
def Survives (machine : Machine) (records : List WalRecord) : Prop :=
  records = machine.acknowledged ∨
    ∃ record, machine.inFlight = some record ∧ records = machine.acknowledged ++ [record]

variable (crc32c : List UInt8 → UInt32)

def TaskHolds (machine : Machine) (state : DiskState) : Task → Prop
  | .idle => machine.inFlight = none ∧
      Serving crc32c state machine.acknowledged machine.acknowledged machine.acknowledged
  | .planned plan => machine.inFlight = some (.fromPlan plan) ∧
      Serving crc32c state machine.acknowledged machine.acknowledged machine.acknowledged
  | .appended plan => machine.inFlight = some (.fromPlan plan) ∧ Framable (.fromPlan plan) ∧
      Serving crc32c state machine.acknowledged (machine.acknowledged ++ [.fromPlan plan])
        machine.acknowledged
  | .persisted plan => machine.inFlight = some (.fromPlan plan) ∧
      Serving crc32c state (machine.acknowledged ++ [.fromPlan plan])
        (machine.acknowledged ++ [.fromPlan plan]) machine.acknowledged ∧
      (state.durability = .perCommit →
        Holds state.database.durable (machine.acknowledged ++ [.fromPlan plan]))
  | .installed plan => machine.inFlight = some (.fromPlan plan) ∧
      Serving crc32c state (machine.acknowledged ++ [.fromPlan plan])
        (machine.acknowledged ++ [.fromPlan plan]) (machine.acknowledged ++ [.fromPlan plan]) ∧
      (state.durability = .perCommit →
        Holds state.database.durable (machine.acknowledged ++ [.fromPlan plan]))
  | .settled plan => machine.inFlight = some (.fromPlan plan) ∧
      Serving crc32c state (machine.acknowledged ++ [.fromPlan plan])
        (machine.acknowledged ++ [.fromPlan plan]) (machine.acknowledged ++ [.fromPlan plan])
  | .flushing => machine.inFlight = none ∧ state.requiresRestart = false ∧
      Serving crc32c state machine.acknowledged machine.acknowledged machine.acknowledged
  | .flushed => machine.inFlight = none ∧ Holds state.database.durable machine.acknowledged ∧
      Serving crc32c state machine.acknowledged machine.acknowledged machine.acknowledged

/-- The open transaction of a bulk load is ahead of the files by the unfinished
batches. -/
def LoadHolds (machine : Machine) (bulk : DiskBulkCommit) : Prop :=
  machine.inFlight = none ∧
    Holds bulk.state.database.current machine.acknowledged ∧
    Logged crc32c bulk.state machine.acknowledged ∧
    Chained Follows (machine.acknowledged ++ machine.unfinished) ∧
    (bulk.state.requiresRestart = false →
      ⟨bulk.state.memory.revision, bulk.state.memory.lastCommitTime⟩ =
        stateAfter (machine.acknowledged ++ machine.unfinished)) ∧
    match bulk.transaction with
    | none => machine.unfinished = []
    | some tables => bulk.state.requiresRestart = false ∧
        (bulk.batches = 0 ↔ machine.unfinished = []) ∧
        DocumentsStored tables.documents
          (documentsAfter (machine.acknowledged ++ machine.unfinished))

/-- The replay has reached `base`; the rest of the journal, and the journal as a whole,
cover the records that are still missing. -/
def ReplayHolds (machine : Machine) (tables : DiskTables) (journal : List UInt8)
    (state : PersistedState) (remaining : List WalRecord) : Prop :=
  ∃ base tail logged, machine.Survives (base ++ tail) ∧ Chained Follows (base ++ tail) ∧
    Replayed (tables, state) base ∧
    (∀ record ∈ remaining, Framable record) ∧ Covers WalRecord.revision remaining base tail ∧
    journal = frames crc32c logged ∧ (∀ record ∈ logged, Framable record) ∧
    Covers WalRecord.revision logged base tail

structure Consistent (machine : Machine) : Prop where
  next : ∀ record, machine.inFlight = some record → Follows machine.acknowledged record
  holds : match machine.phase with
    | .down durable journal =>
      ∃ records, machine.Survives records ∧ Recovers crc32c durable journal records
    | .replaying _ _ tables journal state remaining =>
      machine.ReplayHolds crc32c tables journal state remaining
    | .replayed _ _ tables =>
      ∃ records, machine.Survives records ∧ Chained Follows records ∧ Holds tables records
    | .serving state task => machine.TaskHolds crc32c state task
    | .loading bulk => machine.LoadHolds crc32c bulk

variable {crc32c} {machine : Machine}

theorem consistent_start : start.Consistent crc32c where
  next _ := nofun
  holds := ⟨[], .inl rfl, holds_empty.recovers chained_nil⟩

theorem survives_acknowledged : machine.Survives machine.acknowledged := .inl rfl

theorem survives_inFlight (inFlight : machine.inFlight = some record) :
    machine.Survives (machine.acknowledged ++ [record]) :=
  .inr ⟨record, inFlight, rfl⟩

theorem Consistent.recovers (consistent : machine.Consistent crc32c) :
    ∃ records, machine.Survives records ∧
      Recovers crc32c machine.phase.durable machine.phase.journal records := by
  have holds := consistent.holds
  cases phase : machine.phase with
  | down durable journal => rwa [phase] at holds
  | replaying options durability tables journal state remaining =>
    rw [phase] at holds
    obtain ⟨base, tail, logged, survives, chained, isReplayed, _, _, rfl, framable, covers⟩ := holds
    refine ⟨base ++ tail, survives, logged, [], by simp [Phase.journal], .inl rfl, framable,
      ⟨base, tail, rfl, isReplayed.1, covers⟩, chained⟩
  | replayed options durability tables =>
    rw [phase] at holds
    obtain ⟨records, survives, chained, holds⟩ := holds
    exact ⟨records, survives, holds.recovers chained⟩
  | serving state task =>
    rw [phase] at holds
    cases task with
    | idle | planned plan => exact ⟨_, survives_acknowledged, holds.2.safe.recovers holds.2.chained⟩
    | appended plan =>
      exact ⟨_, survives_inFlight holds.1, holds.2.2.safe.recovers holds.2.2.chained⟩
    | persisted plan | installed plan =>
      exact ⟨_, survives_inFlight holds.1, holds.2.1.safe.recovers holds.2.1.chained⟩
    | settled plan =>
      exact ⟨_, survives_inFlight holds.1, holds.2.safe.recovers holds.2.chained⟩
    | flushing | flushed =>
      exact ⟨_, survives_acknowledged, holds.2.2.safe.recovers holds.2.2.chained⟩
  | loading bulk =>
    rw [phase] at holds
    obtain ⟨_, _, logged, chained, _⟩ := holds
    exact ⟨_, survives_acknowledged, logged.recovers chained.left⟩

/-! ## Steps of a commit and a flush -/

theorem follows_of_plan {memory : State}
    {documents : DocumentMap} (chained : Chained Follows records)
    (ready : (⟨memory.revision, memory.lastCommitTime⟩ : PersistedState) = stateAfter records)
    (plans : memory.planWithDocuments clock writes documents = .ok plan)
    (below : (memory.nextCommitTime clock).seconds < Timestamp.maxSeconds) :
    Follows records (.fromPlan plan) := by
  obtain ⟨revision, _, timeBound⟩ := stateAfter_of_chained chained
  obtain ⟨room, result, _⟩ := planWithDocuments_ok plans
  rw [← ready] at revision timeBound
  dsimp only at revision timeBound
  have planRevision : (WalRecord.fromPlan plan).revision = memory.revision + 1 :=
    congrArg CommitResult.revision result
  have planTime : (WalRecord.fromPlan plan).commitTime = memory.nextCommitTime clock :=
    congrArg CommitResult.commitTime result
  refine ⟨by omega, by omega, ?_, by rwa [planTime]⟩
  rw [planTime, ← ready]
  exact lt_nextCommitTime timeBound clock

section

variable (consistent : machine.Consistent crc32c)
include consistent

theorem Consistent.taskHolds {task : Task} (phase : machine.phase = .serving state task) :
    machine.TaskHolds crc32c state task := by
  have holds := consistent.holds
  rwa [phase] at holds

theorem Consistent.loadHolds (phase : machine.phase = .loading bulk) :
    machine.LoadHolds crc32c bulk := by
  have holds := consistent.holds
  rwa [phase] at holds

theorem Consistent.startCommit (phase : machine.phase = .serving state .idle)
    (below : (state.memory.nextCommitTime clock).seconds < Timestamp.maxSeconds) :
    (machine.startCommit state clock writes).Consistent crc32c := by
  rw [Machine.startCommit]
  cases planned : state.planCommit clock writes with
  | error error => exact consistent
  | ok plan =>
    obtain ⟨_, serving⟩ := consistent.taskHolds phase
    obtain ⟨running, loaded, _, plans⟩ := planCommit_ok planned
    refine ⟨?_, rfl, serving⟩
    rintro record ⟨⟩
    exact follows_of_plan serving.chained (serving.ready running) plans below

theorem Consistent.proceedPlanned (phase : machine.phase = .serving state (.planned plan)) :
    (machine.proceedTask crc32c state (.planned plan)).Consistent crc32c := by
  obtain ⟨inFlight, serving⟩ := consistent.taskHolds phase
  have follows := consistent.next _ inFlight
  obtain ⟨log, journal, framable, backed⟩ := serving.safe
  simp only [proceedTask]
  cases appends : state.appendJournal crc32c (.fromPlan plan) with
  | error error => exact ⟨fun _ => nofun, rfl, serving.holds, serving.safe, serving.chained, nofun⟩
  | ok appended =>
    rw [appendJournal, journal] at appends
    obtain ⟨next, appended, same⟩ := bind_eq_ok.mp appends
    cases same
    obtain ⟨small, rfl⟩ := appendRecord_eq_ok.mp appended
    have nextFramable : Framable (.fromPlan plan) := ⟨follows.revisionBound, small⟩
    refine ⟨consistent.next, inFlight, nextFramable, serving.holds, ?_,
      serving.chained.append follows, serving.ready⟩
    refine ⟨log ++ [.fromPlan plan], by rw [frames_append], ?_, backed.append follows⟩
    rw [forall_mem_append, forall_mem_singleton]
    exact ⟨framable, nextFramable⟩

theorem Consistent.proceedAppended (phase : machine.phase = .serving state (.appended plan)) :
    (machine.proceedTask crc32c state (.appended plan)).Consistent crc32c := by
  obtain ⟨inFlight, planFramable, serving⟩ := consistent.taskHolds phase
  obtain ⟨log, journal, framable, backed⟩ := serving.safe
  obtain ⟨tables, persists⟩ := exists_persistRecord planFramable state.database.current
  have holdsNext := serving.holds.persistRecord persists
  have persisted : state.persistCommit (.fromPlan plan) = .ok { state with
      database := state.database.commit tables (redbDurability state.durability) } :=
    bind_eq_ok.mpr ⟨tables, persists, rfl⟩
  simp only [proceedTask, persisted]
  cases durability : state.durability with
  | perCommit =>
    exact ⟨consistent.next, inFlight, ⟨holdsNext, ⟨log, journal, framable,
      backed.durably serving.chained holdsNext⟩, serving.chained, serving.ready⟩, fun _ => holdsNext⟩
  | writeBehind =>
    exact ⟨consistent.next, inFlight,
      ⟨holdsNext, ⟨log, journal, framable, backed⟩, serving.chained, serving.ready⟩, nofun⟩

theorem Consistent.proceedInstalled (phase : machine.phase = .serving state (.installed plan)) :
    (machine.proceedTask crc32c state (.installed plan)).Consistent crc32c := by
  obtain ⟨inFlight, serving, durable⟩ := consistent.taskHolds phase
  obtain ⟨log, journal, framable, backed⟩ := serving.safe
  simp only [proceedTask, settleCommit]
  cases durability : state.durability with
  | perCommit =>
    refine ⟨consistent.next, inFlight, serving.holds, ⟨[], ?_, by simp, ?_⟩, serving.chained,
      serving.ready⟩
    · simp [checkpointJournal, journal, frames]
    · exact (durable durability).backed
  | writeBehind =>
    exact ⟨consistent.next, inFlight, serving.holds, serving.safe, serving.chained, serving.ready⟩

end

theorem state_installCommit (state : DiskState) (plan : CommitPlan) (records : List WalRecord) :
    ⟨(state.installCommit plan).memory.revision, (state.installCommit plan).memory.lastCommitTime⟩ =
      stateAfter (records ++ [.fromPlan plan]) := by
  rw [stateAfter_append, installCommit, State.installDisk, installMetadata_eq]
  rfl

section

variable (consistent : machine.Consistent crc32c)
include consistent

theorem Consistent.proceedTask {task : Task} (phase : machine.phase = .serving state task) :
    (machine.proceedTask crc32c state task).Consistent crc32c := by
  have holds := consistent.taskHolds phase
  cases task with
  | idle => exact consistent
  | planned plan => exact consistent.proceedPlanned phase
  | appended plan => exact consistent.proceedAppended phase
  | persisted plan =>
    obtain ⟨inFlight, serving, durable⟩ := holds
    refine ⟨consistent.next, inFlight, ⟨serving.holds, serving.safe, serving.chained, ?_⟩, durable⟩
    intro _
    exact state_installCommit state plan _
  | installed plan => exact consistent.proceedInstalled phase
  | settled plan =>
    obtain ⟨_, serving⟩ := holds
    exact ⟨fun _ => nofun, rfl, serving⟩
  | flushing =>
    obtain ⟨inFlight, running, serving⟩ := holds
    obtain ⟨log, journal, framable, backed⟩ := serving.safe
    have durable := Holds.persistState serving.holds.stored (serving.ready running)
    exact ⟨consistent.next, inFlight, durable, durable,
      ⟨log, journal, framable, backed.durably serving.chained durable⟩, serving.chained,
      serving.ready⟩
  | flushed =>
    obtain ⟨inFlight, durable, serving⟩ := holds
    obtain ⟨log, journal, framable, backed⟩ := serving.safe
    refine ⟨consistent.next, inFlight, serving.holds, ⟨[], ?_, by simp, durable.backed⟩,
      serving.chained, serving.ready⟩
    simp [finishFlush, checkpointJournal, journal, frames]

/-! ## Bulk loads -/

theorem Consistent.beginBulkCommit (phase : machine.phase = .serving state .idle)
    (begins : state.beginBulkCommit = .ok bulk) :
    Consistent crc32c { machine with phase := .loading bulk, unfinished := [] } := by
  obtain ⟨inFlight, serving⟩ := consistent.taskHolds phase
  rw [DiskState.beginBulkCommit] at begins
  split_ifs at begins with fenced
  cases begins
  refine ⟨consistent.next, inFlight, serving.holds, serving.safe, ?_, ?_, ?_⟩
  · simpa using serving.chained
  · simpa using serving.ready
  · simpa [Bool.eq_false_iff.mpr fenced] using serving.holds.stored

section

variable (phase : machine.phase = .loading bulk)
include phase

/-- Abandoning a load leaves the files at the acknowledged commits, and fences the
store if batches were installed. -/
theorem Consistent.abandoned {tables : DiskTables} (transaction : bulk.transaction = some tables) :
    machine.inFlight = none ∧ Serving crc32c bulk.abandon.state machine.acknowledged
      machine.acknowledged machine.acknowledged := by
  obtain ⟨inFlight, holds, logged, chained, ready, load⟩ := consistent.loadHolds phase
  rw [transaction] at load
  obtain ⟨running, batches, _⟩ := load
  refine ⟨inFlight, ?_⟩
  rw [abandon]
  split_ifs with installed
  · exact ⟨holds, logged, chained.left, nofun⟩
  · have none : machine.unfinished = [] := batches.mp (by omega)
    rw [none, append_nil] at ready
    exact ⟨holds, logged, chained.left, ready⟩

theorem Consistent.loadBatch
    (below : (bulk.state.memory.nextCommitTime clock).seconds < Timestamp.maxSeconds) :
    (machine.loadBatch bulk clock writes).Consistent crc32c := by
  have whole := consistent.loadHolds phase
  obtain ⟨inFlight, holds, logged, chained, ready, load⟩ := id whole
  have refused : Consistent crc32c { machine with phase := .loading bulk } :=
    ⟨consistent.next, whole⟩
  rw [Machine.loadBatch]
  fun_cases commit bulk clock writes
  case case1 transaction =>
    rw [transaction] at load
    simp only [transaction, Option.isSome_none, Bool.false_eq_true, ↓reduceIte]
    rw [load] at chained ready
    refine ⟨consistent.next, inFlight, holds, logged, chained, ready, ?_⟩
    rw [transaction]
  case case2 transaction _ _ => simpa [transaction] using refused
  case case3 transaction _ _ _ _ => simpa [transaction] using refused
  case case4 transaction _ _ _ _ _ _ =>
    obtain ⟨_, serving⟩ := consistent.abandoned phase transaction
    refine ⟨consistent.next, inFlight, serving.holds, serving.safe, ?_, ?_, rfl⟩
    · simpa [abandon] using serving.chained
    · simpa [abandon] using serving.ready
  case case5 transaction _ _ plan plans next applies =>
    rw [transaction] at load
    obtain ⟨running, batches, stored⟩ := load
    have follows := follows_of_plan chained (ready running) plans below
    refine ⟨consistent.next, inFlight, holds, logged, ?_, ?_, running, ?_, ?_⟩
    · rw [← append_assoc]
      exact chained.append follows
    · intro _
      rw [← append_assoc]
      exact state_installCommit bulk.state plan _
    · simp [saturatingAdd, u64Max]
    · rw [← append_assoc, documentsAfter_append]
      exact stored.applyMutations applies

theorem Consistent.finishLoad : (machine.finishLoad bulk).Consistent crc32c := by
  obtain ⟨inFlight, holds, logged, chained, ready, load⟩ := consistent.loadHolds phase
  rw [Machine.finishLoad]
  fun_cases finish bulk
  case case1 transaction =>
    rw [transaction] at load
    rw [load, append_nil] at chained ready
    exact ⟨consistent.next, inFlight, holds, logged, chained, ready⟩
  case case2 transaction empty =>
    rw [transaction] at load
    rw [load.2.1.mp empty, append_nil] at chained ready ⊢
    exact ⟨consistent.next, inFlight, holds, logged, chained, ready⟩
  case case3 transaction _ =>
    rw [transaction] at load
    obtain ⟨running, _, stored⟩ := load
    obtain ⟨log, journal, framable, backed⟩ := logged
    have durable := Holds.persistState stored (ready running)
    refine ⟨?_, inFlight, durable, ⟨log, journal, framable, ?_⟩, chained, ready⟩
    · intro record some
      cases inFlight.symm.trans some
    · exact ⟨_, [], by simp, durable, (backed.covers chained.left).extend _⟩

theorem Consistent.dropBulk :
    Consistent crc32c { machine with phase := .serving bulk.drop .idle, unfinished := [] } := by
  refine ⟨consistent.next, ?_⟩
  rw [DiskBulkCommit.drop]
  cases transaction : bulk.transaction with
  | some tables => exact consistent.abandoned phase transaction
  | none =>
    obtain ⟨inFlight, holds, logged, chained, ready, load⟩ := consistent.loadHolds phase
    rw [transaction] at load
    rw [load, append_nil] at chained ready
    exact ⟨inFlight, holds, logged, chained, ready⟩

end

/-! ## Opening and dying -/

theorem Consistent.startOpen {durable : DiskTables} (phase : machine.phase = .down durable journal)
    (options : StoreOptions) (durability : DiskDurability) :
    (machine.startOpen crc32c options durability durable journal).Consistent crc32c := by
  have holds := consistent.holds
  rw [phase] at holds
  obtain ⟨records, survives, logged, torn, rfl, isTorn, framable, backed, chained⟩ := holds
  obtain ⟨base, tail, rfl, holds, covers⟩ := backed
  have opened : openJournal crc32c (frames crc32c logged ++ torn) =
      .ok (frames crc32c logged, logged) :=
    bind_eq_ok.mpr ⟨_, readRecords_frames framable isTorn, by simp [pure, Except.pure]⟩
  simp only [Machine.startOpen, opened, holds.loadPersistedState chained.left]
  exact ⟨consistent.next, base, tail, logged, survives, chained,
    ⟨holds, rfl, (stateAfter_of_chained chained.left).1⟩, framable, covers, rfl, framable, covers⟩

theorem Consistent.replayRecord {options : StoreOptions} {durability : DiskDurability}
    {tables : DiskTables} {state : PersistedState} {remaining : List WalRecord}
    (phase : machine.phase =
      .replaying options durability tables journal state (record :: remaining)) :
    (machine.proceed crc32c).Consistent crc32c := by
  have holds := consistent.holds
  rw [phase] at holds
  obtain ⟨base, tail, logged, survives, chained, isReplayed, framable, covers, journal,
    loggedFramable, loggedCovers⟩ := holds
  rw [forall_mem_cons] at framable
  rw [proceed, phase]
  rcases covers.cons revision_of_follows chained with ⟨below, covers⟩ | ⟨rest, rfl, next, covers⟩
  · simp only [replayRecord_skips _ base record isReplayed below]
    exact ⟨consistent.next, base, tail, logged, survives, chained, isReplayed, framable.2, covers,
      journal, loggedFramable, loggedCovers⟩
  · obtain ⟨⟨nextTables, nextState⟩, replays, nextReplayed⟩ :=
      replayRecord_follows _ base record isReplayed next framable.1
    simp only [replays]
    have regroup : base ++ record :: rest = base ++ [record] ++ rest := by simp
    rw [regroup] at survives chained
    exact ⟨consistent.next, base ++ [record], rest, logged, survives, chained, nextReplayed,
      framable.2, covers, journal, loggedFramable,
      Covers.advance revision_of_follows (by simpa using loggedCovers) chained⟩

theorem Consistent.acknowledged_recovered (survives : machine.Survives records)
    (revision : state.memory.revision = records.length) :
    (machine.recovered state).acknowledged = records := by
  rw [Machine.recovered, revision]
  rcases survives with rfl | ⟨record, inFlight, rfl⟩
  · cases inFlight : machine.inFlight with
    | none => simp
    | some record => simp [(consistent.next record inFlight).revision]
  · simp [inFlight, (consistent.next record inFlight).revision]

theorem Consistent.recovered (survives : machine.Survives records)
    (revision : state.memory.revision = records.length)
    (serving : Serving crc32c state records records records) :
    (machine.recovered state).Consistent crc32c := by
  refine ⟨fun _ => nofun, rfl, ?_⟩
  rwa [consistent.acknowledged_recovered survives revision]

theorem Consistent.proceed : (machine.proceed crc32c).Consistent crc32c := by
  have holds := consistent.holds
  cases phase : machine.phase with
  | down durable journal | loading bulk => simpa only [Machine.proceed, phase] using consistent
  | serving state task =>
    simpa only [Machine.proceed, phase] using consistent.proceedTask phase
  | replaying options durability tables journal state remaining =>
    cases remaining with
    | cons record remaining => exact consistent.replayRecord phase
    | nil =>
      rw [phase] at holds
      obtain ⟨base, tail, logged, survives, chained, isReplayed, _, covers, _⟩ := holds
      cases covers
      rw [filter_nil, append_nil] at survives chained
      rw [Machine.proceed, phase]
      exact ⟨consistent.next, base, survives, chained, isReplayed.1⟩
  | replayed options durability tables =>
    rw [phase] at holds
    obtain ⟨records, survives, chained, holds⟩ := holds
    obtain ⟨usage, loaded⟩ := holds.loaded chained options durability (some [])
    simp only [Machine.proceed, phase, loaded]
    refine consistent.recovered survives (stateAfter_of_chained chained).1
      ⟨holds, ⟨[], rfl, by simp, holds.backed⟩, chained, fun _ => rfl⟩

theorem Consistent.killed (survives : machine.Survives records)
    (recovers : Recovers crc32c machine.phase.durable journal records) :
    (machine.killed journal).Consistent crc32c :=
  ⟨consistent.next, records, survives, recovers⟩

/-- A death during the append: the journal ends in a part of the frame, or has all of
it. -/
theorem Consistent.tear (phase : machine.phase = .serving state (.planned plan))
    (appends : appendRecord crc32c (state.journal.getD []) (.fromPlan plan) = .ok journal)
    (written : Nat) :
    (machine.killed (journal.take ((state.journal.getD []).length + written))).Consistent
      crc32c := by
  obtain ⟨inFlight, serving⟩ := consistent.taskHolds phase
  have follows := consistent.next _ inFlight
  obtain ⟨log, logged, framable, backed⟩ := serving.safe
  obtain ⟨small, rfl⟩ := appendRecord_eq_ok.mp appends
  have nextFramable : Framable (.fromPlan plan) := ⟨follows.revisionBound, small⟩
  rw [logged, Option.getD_some, take_length_add_append]
  have durable : machine.phase.durable = state.database.durable := by rw [phase]; rfl
  by_cases whole : (frame crc32c (encodeRecord (.fromPlan plan))).length ≤ written
  · apply consistent.killed (survives_inFlight inFlight)
    rw [durable, take_of_length_le whole, ← frames_append]
    refine ⟨log ++ [.fromPlan plan], [], by simp, .inl rfl, ?_, backed.append follows,
      serving.chained.append follows⟩
    rw [forall_mem_append, forall_mem_singleton]
    exact ⟨framable, nextFramable⟩
  · apply consistent.killed survives_acknowledged
    rw [durable]
    refine ⟨log, _, rfl, .inr ⟨.fromPlan plan, _, nextFramable, ?_,
      (take_append_drop written _).symm⟩, framable, backed, serving.chained⟩
    rw [ne_eq, drop_eq_nil_iff]
    exact whole

/-! ## Runs -/

theorem Consistent.step (event : Event)
    (below : machine.BelowTimeLimit event) : (machine.step crc32c event).Consistent crc32c := by
  fun_cases Machine.step crc32c machine event
  case case1 => exact consistent.proceed
  case case2 =>
    obtain ⟨records, survives, recovers⟩ := consistent.recovers
    exact consistent.killed survives recovers
  case case3 written state plan phase journal appends => exact consistent.tear phase appends written
  case case5 phase => exact consistent.startOpen phase _ _
  case case6 phase =>
    simp only [BelowTimeLimit, phase] at below
    exact consistent.startCommit phase below
  case case7 state phase unflushed =>
    have holds := consistent.taskHolds phase
    rw [Bool.and_eq_true, Bool.not_eq_true'] at unflushed
    exact ⟨consistent.next, holds.1, unflushed.2, holds.2⟩
  case case9 phase bulk begins => exact consistent.beginBulkCommit phase begins
  case case11 phase =>
    simp only [BelowTimeLimit, phase] at below
    exact consistent.loadBatch phase below
  case case12 phase => exact consistent.finishLoad phase
  case case13 phase => exact consistent.dropBulk phase
  -- the events that were refused or do not apply
  all_goals exact consistent

end

theorem consistent_run {events : List Event}
    (below : AllSteps (step crc32c) BelowTimeLimit start events) :
    (run (step crc32c) start events).Consistent crc32c :=
  invariant_run (Consistent crc32c)
    (fun _ event limited consistent => consistent.step event limited) consistent_start below

/-- The elementary steps of a commit or a flush, without a death between them, are the operation,
and a commit is acknowledged exactly if it succeeds. -/
theorem uninterrupted_steps_are_operations (crc32c : List UInt8 → UInt32) (machine : Machine)
    (state : DiskState) (clock : ClockReading) (writes : List Write) :
    let idle : Machine := { machine with phase := .serving state .idle }
    let committed := run (step crc32c) idle
      [.commit clock writes, .proceed, .proceed, .proceed, .proceed, .proceed]
    let flushed := run (step crc32c) idle [.flush, .proceed, .proceed]
    committed.phase = .serving (state.commitObserved crc32c clock writes).1 .idle ∧
    committed.acknowledged.length = machine.acknowledged.length +
      (if (state.commitObserved crc32c clock writes).2.isOk then 1 else 0) ∧
    flushed = { machine with phase := .serving state.flushState.1 .idle } := by
  intro idle committed flushed
  rw [← and_assoc]
  constructor
  · simp only [committed, idle, run, foldl_cons, foldl_nil, step, startCommit]
    fun_cases commitObserved crc32c state clock writes
    all_goals simp [*, proceed, proceedTask, Except.isOk, Except.toBool]
  · simp only [flushed, idle, run, foldl_cons, foldl_nil, step]
    fun_cases flushState state
    all_goals simp_all [proceed, proceedTask]

end Machine

/-! ## Crash safety -/

theorem Serving.documents {crc32c : List UInt8 → UInt32} {state : DiskState}
    {current logged memory : List WalRecord}
    (serving : Serving crc32c state current logged memory) (key : DocumentKey) :
    state.snapshot.get key = (documentsAfter current)[key]? :=
  get_snapshot serving.holds.stored key

/-- After every run the store opens again, with the acknowledged commits and at most
the one in flight. -/
theorem opens_with_acknowledged_commits (crc32c : List UInt8 → UInt32) (events : List Event)
    (below : Runs.AllSteps (step crc32c) Machine.BelowTimeLimit .start events)
    (options : StoreOptions) (durability : DiskDurability) :
    let machine := run (step crc32c) .start events
    (∃ store extra, DiskState.openStore crc32c options durability machine.phase.durable
        (some machine.phase.journal) = .ok store ∧
      (extra = [] ∨ ∃ record, machine.inFlight = some record ∧ extra = [record]) ∧
      Shows store (machine.acknowledged ++ extra)) ∧
    ∀ state, machine.phase = .serving state .idle → machine.inFlight = none ∧
      (∀ key, state.snapshot.get key = (documentsAfter machine.acknowledged)[key]?) ∧
      (state.requiresRestart = false → Shows state machine.acknowledged) := by
  intro machine
  have consistent : machine.Consistent crc32c := Machine.consistent_run below
  constructor
  · obtain ⟨records, survives, recovers⟩ := consistent.recovers
    obtain ⟨store, opens, shows⟩ := recovers.openStore options durability
    rcases survives with rfl | ⟨record, inFlight, rfl⟩
    · exact ⟨store, [], opens, .inl rfl, by simpa using shows⟩
    · exact ⟨store, [record], opens, .inr ⟨record, inFlight, rfl⟩, shows⟩
  · intro state phase
    obtain ⟨inFlight, serving⟩ := consistent.taskHolds phase
    refine ⟨inFlight, serving.documents, ?_⟩
    intro running
    have ready := serving.ready running
    refine ⟨?_, congrArg PersistedState.lastCommitTime ready, serving.documents⟩
    exact (congrArg PersistedState.revision ready).trans (stateAfter_of_chained serving.chained).1

namespace Sample

def opening : List Event := [.openStore options .writeBehind, .proceed, .proceed]

def committing (clock : ClockReading) : List Event :=
  [.commit clock [], .proceed, .proceed, .proceed, .proceed, .proceed]

end Sample

open Sample

/-- A kill between the redb commit and the in-memory install of a commit. -/
theorem opens_with_acknowledged_commits_sample :
    let machine := run (step castagnoli) .start
      (opening ++ [.commit clock [patchDouble 0], .proceed, .proceed, .kill])
    ∃ store extra, DiskState.openStore castagnoli options .writeBehind
        machine.phase.durable (some machine.phase.journal) = .ok store ∧
      (extra = [] ∨ ∃ record, machine.inFlight = some record ∧ extra = [record]) ∧
      Shows store (machine.acknowledged ++ extra) :=
  (opens_with_acknowledged_commits castagnoli _ (by decide +kernel) options .writeBehind).1

/-- Two acknowledged commits whose times both saturate: the replay refuses the second,
and the store does not open again. -/
theorem saturated_times_block_opening :
    let machine := run (step castagnoli) .start
      (opening ++ committing .last ++ committing .last)
    machine.acknowledged.length = 2 ∧
      (DiskState.openStore castagnoli options .writeBehind machine.phase.durable
        (some machine.phase.journal)).toOption.isNone := by
  decide +kernel

end Firenook
