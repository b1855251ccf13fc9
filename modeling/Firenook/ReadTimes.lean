import Firenook.Transactions

/-!
# Read times

A read captures a snapshot first and is stamped later with a reading of the wall
clock, while commits are stamped by the store.  Requests and listen streams interleave
with commits; what was sent and what was committed is kept beside the service.
-/

namespace Firenook

def encodeSystemReadTime (value : Timestamp) : Timestamp :=
  ⟨value.seconds, value.nanos - value.nanos % 1000, value.secondsBound,
    (Nat.sub_le _ _).trans_lt value.nanosBound⟩

/-- A snapshot that has been captured for a response that is still to be stamped. -/
structure OpenRead where
  snapshot : Snapshot
  listen : Bool

/-- The stamp of a response: a listen stream keeps the nanoseconds. -/
def OpenRead.stamp (read : OpenRead) (now : Timestamp) : Timestamp :=
  if read.listen then now else encodeSystemReadTime now

/-- A response with the revision of the snapshot that it was computed from. -/
structure ReadResponse where
  revision : Nat
  readTime : Timestamp

structure Readers where
  service : FirestoreService
  reading : List OpenRead
  sent : List ReadResponse
  commits : List CommitResult

inductive ReaderEvent
  | beginTransaction (database : DatabaseName) (mode : TransactionMode) (now : Timestamp)
  | rollback (database : DatabaseName) (token : List UInt8)
  | capture (database : DatabaseName) (token : List UInt8)
  | captureAt (readTime now : Timestamp)
  | poll
  | send (index : Nat) (now : Timestamp)
  | finish (index : Nat)
  | commit (request : FirestoreService.CommitRequest)

namespace Readers

def start (store : Store) : Readers := ⟨⟨store, ∅, 1⟩, [], [], []⟩

def opened (readers : Readers) (snapshot : Snapshot) (listen : Bool) : Readers :=
  { readers with reading := readers.reading ++ [⟨snapshot, listen⟩] }

/-- A unary response is stamped once, a listen stream as often as it sends. -/
def send (readers : Readers) (index : Nat) (now : Timestamp) : Readers :=
  match readers.reading[index]? with
  | none => readers
  | some read => { readers with
      reading := if read.listen then readers.reading else readers.reading.eraseIdx index
      sent := readers.sent ++ [⟨read.snapshot.revision, read.stamp now⟩] }

/-- Notes the commit if the store has moved to a new revision. -/
def noted (readers : Readers) (service : FirestoreService) : Readers :=
  if service.store.bookkeeping.revision = readers.service.store.bookkeeping.revision then
    { readers with service := service }
  else { readers with
    service := service
    commits := readers.commits ++
      [⟨service.store.bookkeeping.revision, service.store.bookkeeping.lastCommitTime⟩] }

variable (crc32c : List UInt8 → UInt32)

def step (readers : Readers) : ReaderEvent → Readers
  | .beginTransaction database mode now =>
    match readers.service.beginTransaction database mode now with
    | .error _ => readers
    | .ok (_, service) => { readers with service := service }
  | .rollback database token =>
    { readers with service := (readers.service.rollback database token).1 }
  | .capture database token =>
    match readers.service.readSnapshot database token with
    | .error _ => readers
    | .ok (snapshot, _) => readers.opened snapshot false
  | .captureAt readTime now =>
    match decodeReadTime readTime now with
    | .error _ => readers
    | .ok readTime =>
      match readers.service.store.snapshotAtTime readTime with
      | .error _ => readers
      | .ok snapshot => readers.opened snapshot false
  | .poll => readers.opened readers.service.store.snapshot true
  | .send index now => readers.send index now
  | .finish index => { readers with reading := readers.reading.eraseIdx index }
  | .commit request => readers.noted (readers.service.commit crc32c request).1

/-! ## Consistency -/

/-- A response reflects exactly the commits up to its read time. -/
def ReadsConsistently (readers : Readers) : Prop :=
  ∀ response ∈ readers.sent, ∀ commit ∈ readers.commits,
    commit.commitTime ≤ response.readTime ↔ commit.revision ≤ response.revision

instance (readers : Readers) : Decidable readers.ReadsConsistently :=
  inferInstanceAs (Decidable (∀ response ∈ readers.sent, ∀ commit ∈ readers.commits,
    commit.commitTime ≤ response.readTime ↔ commit.revision ≤ response.revision))

/-- A response is stamped while its snapshot is still current, by a clock that is not
behind the last commit; a commit is stamped later than every response, and below the
time limit. -/
def InStep (readers : Readers) : ReaderEvent → Prop
  | .send index now => ∀ read, readers.reading[index]? = some read →
      read.snapshot.revision = readers.service.store.bookkeeping.revision ∧
        readers.service.store.bookkeeping.lastCommitTime ≤ read.stamp now
  | .commit request =>
    readers.service.store.bookkeeping.lastCommitTime.seconds < Timestamp.maxSeconds ∧
      ∀ response ∈ readers.sent,
        response.readTime < readers.service.store.bookkeeping.nextCommitTime request.clock
  | _ => True

structure Timed (readers : Readers) : Prop where
  committed : ∀ commit ∈ readers.commits,
    commit.revision ≤ readers.service.store.bookkeeping.revision ∧
      commit.commitTime ≤ readers.service.store.bookkeeping.lastCommitTime
  sent : ∀ response ∈ readers.sent, response.revision ≤ readers.service.store.bookkeeping.revision
  consistent : readers.ReadsConsistently

theorem timed_start (store : Store) : (start store).Timed where
  committed := by simp [start]
  sent := by simp [start]
  consistent := by simp [start, ReadsConsistently]

section

variable {readers : Readers} {crc32c : List UInt8 → UInt32}

theorem Timed.frame {other : Readers} (timed : readers.Timed)
    (sameStore : other.service.store = readers.service.store) (sameSent : other.sent = readers.sent)
    (sameCommits : other.commits = readers.commits) : other.Timed := by
  obtain ⟨committed, sent, consistent⟩ := timed
  refine ⟨?_, ?_, ?_⟩
  · rwa [sameStore, sameCommits]
  · rwa [sameStore, sameSent]
  · rwa [ReadsConsistently, sameSent, sameCommits]

theorem Timed.send (timed : readers.Timed) {index : Nat} {now : Timestamp}
    (inStep : readers.InStep (.send index now)) : (readers.send index now).Timed := by
  rw [Readers.send]
  cases found : readers.reading[index]? with
  | none => exact timed
  | some read =>
    obtain ⟨current, notBehind⟩ := inStep read found
    refine ⟨timed.committed, ?_, ?_⟩
    · intro response member
      rcases List.mem_append.mp member with member | member
      · exact timed.sent response member
      · cases List.mem_singleton.mp member
        exact current.le
    · intro response member commit isCommit
      rcases List.mem_append.mp member with member | member
      · exact timed.consistent response member commit isCommit
      · -- every commit so far is part of the current snapshot
        cases List.mem_singleton.mp member
        obtain ⟨revisionBound, timeBound⟩ := timed.committed commit isCommit
        exact iff_of_true (timeBound.trans notBehind) (revisionBound.trans current.ge)

theorem bookkeeping_commit (crc32c : List UInt8 → UInt32) (service : FirestoreService)
    (request : FirestoreService.CommitRequest) :
    (service.commit crc32c request).1.store.bookkeeping = service.store.bookkeeping ∨
      (service.commit crc32c request).1.store.bookkeeping.revision =
          service.store.bookkeeping.revision + 1 ∧
        (service.commit crc32c request).1.store.bookkeeping.lastCommitTime =
          service.store.bookkeeping.nextCommitTime request.clock := by
  rcases Clients.store_commit crc32c service request with same | committed
  · rw [same]
    exact .inl rfl
  · rw [committed]
    rcases outcome : service.store.commit crc32c request.clock
      (request.decoded.map DecodedWrite.write) with ⟨next, error | result⟩
    · exact .inl (Store.commit_error outcome).1
    · obtain ⟨rfl, isRevision, isTime⟩ := Store.commit_bookkeeping outcome
      exact .inr ⟨isRevision, isTime⟩

theorem Timed.commit (timed : readers.Timed) {request : FirestoreService.CommitRequest}
    (inStep : readers.InStep (.commit request)) :
    (readers.noted (readers.service.commit crc32c request).1).Timed := by
  obtain ⟨below, later⟩ := inStep
  rw [noted]
  rcases bookkeeping_commit crc32c readers.service request with same | ⟨isRevision, isTime⟩
  · rw [if_pos (by rw [same])]
    obtain ⟨committed, sent, consistent⟩ := timed
    refine ⟨?_, ?_, consistent⟩
    · rwa [same]
    · rwa [same]
  · rw [if_neg (by omega)]
    have increases := lt_nextCommitTime below request.clock
    refine ⟨?_, ?_, ?_⟩
    · intro commit member
      rw [isRevision, isTime]
      rcases List.mem_append.mp member with member | member
      · obtain ⟨revisionBound, timeBound⟩ := timed.committed commit member
        exact ⟨revisionBound.trans (Nat.le_succ _), timeBound.trans increases.le⟩
      · cases List.mem_singleton.mp member
        exact ⟨isRevision.le, isTime.le⟩
    · intro response member
      rw [isRevision]
      exact (timed.sent response member).trans (Nat.le_succ _)
    · intro response member commit isCommit
      rcases List.mem_append.mp isCommit with isCommit | isCommit
      · exact timed.consistent response member commit isCommit
      · -- the new commit comes after the response in both orders
        cases List.mem_singleton.mp isCommit
        have earlier := timed.sent response member
        apply iff_of_false
        · rw [isTime]
          exact not_le_of_gt (later response member)
        · simp only
          omega

theorem Timed.step (timed : readers.Timed) {event : ReaderEvent}
    (inStep : readers.InStep event) : (readers.step crc32c event).Timed := by
  cases event with
  | beginTransaction database mode now =>
    simp only [Readers.step]
    split
    · exact timed
    · next begun =>
      rw [FirestoreService.beginTransaction, bind_eq_ok] at begun
      obtain ⟨_, _, begun⟩ := begun
      cases begun
      exact timed.frame rfl rfl rfl
  | rollback database token =>
    simp only [Readers.step, FirestoreService.rollback]
    split
    · exact timed
    · exact timed.frame rfl rfl rfl
  | capture database token =>
    simp only [Readers.step]
    split
    · exact timed
    · exact timed.frame rfl rfl rfl
  | captureAt readTime now =>
    simp only [Readers.step]
    split
    · exact timed
    · split
      · exact timed
      · exact timed.frame rfl rfl rfl
  | poll => exact timed.frame rfl rfl rfl
  | send index now => exact timed.send inStep
  | finish index => exact timed.frame rfl rfl rfl
  | commit request => exact timed.commit inStep

end

/-- In every interleaving in which each response is stamped while its snapshot is
current and the clocks are in step, each response reflects exactly the commits up to
its read time. -/
theorem read_times_consistent (crc32c : List UInt8 → UInt32) (store : Store)
    (events : List ReaderEvent)
    (inStep : Runs.AllSteps (step crc32c) InStep (start store) events) :
    (Runs.run (step crc32c) (start store) events).ReadsConsistently :=
  (Runs.invariant_run Timed (fun _ _ inStep timed => timed.step inStep) (timed_start store)
    inStep).consistent

end Readers

namespace Sample

def sixSeconds : Timestamp := { Timestamp.epoch with seconds := 6, secondsBound := by decide }

/-- A batch read of the empty store that is stamped after a commit. -/
def lateStamp : List ReaderEvent :=
  [.capture itemA.database [], .commit (commitRequest [] [increment itemA]), .send 0 sixSeconds]

/-- A batch read that is stamped at once, and a later commit. -/
def promptStamp : List ReaderEvent :=
  [.capture itemA.database [], .send 0 .epoch, .commit (commitRequest [] [increment itemA])]

end Sample

namespace Readers

open Sample

theorem read_times_consistent_sample :
    (Runs.run (step castagnoli) (start (.memory (.new options))) promptStamp).ReadsConsistently :=
  read_times_consistent castagnoli (.memory (.new options)) promptStamp
    ⟨trivial, by rintro read ⟨⟩; exact ⟨rfl, by decide⟩, ⟨by decide, by decide⟩, trivial⟩

/-- The response is computed from revision 0 and stamped after a commit that it has not
seen. -/
theorem late_stamp_inconsistent :
    let readers := Runs.run (step castagnoli) (start (.memory (.new options))) lateStamp
    readers.sent.map (fun response => (response.revision, response.readTime)) =
        [(0, sixSeconds)] ∧
      readers.commits.map (fun commit => (commit.revision, commit.commitTime)) =
        [(1, clock.observed)] ∧
      ¬ readers.ReadsConsistently := by
  decide +kernel

end Readers
end Firenook
