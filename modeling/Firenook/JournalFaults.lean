import Firenook.WritePlans

/-!
# Faults at the journal

What a damaged end of the journal does to the next open, and what a commit that fails before
anything was written does to the open store.  A tail that only lost bytes ends the replay; a
complete frame with a wrong magic word, length or checksum is reported as corruption.  A
record that is too large for the journal fences the store although nothing was written.
-/

namespace Firenook

open List

/-! ## Damaged tails -/

variable {bytes : List UInt8}

section

variable {crc32c : List UInt8 → UInt32}

/-- The magic word, the length and the checksum of the first frame are all right. -/
def PassesChecks (crc32c : List UInt8 → UInt32) (bytes : List UInt8) : Prop :=
  frameHeaderLen ≤ bytes.length ∧ bytes.take 8 = frameMagic ∧
    frameLength bytes ≤ maxWalRecordBytes ∧
    frameLength bytes ≤ (bytes.drop frameHeaderLen).length ∧
    (crc32c ((bytes.drop frameHeaderLen).take (frameLength bytes))).toNat = frameChecksum bytes

instance decidablePassesChecks (bytes : List UInt8) : Decidable (PassesChecks crc32c bytes) :=
  inferInstanceAs (Decidable (_ ∧ _ ∧ _ ∧ _ ∧ _))

/-- What a power cut made of the last frame: its end was lost or overwritten, so that one of
its checks fails. -/
structure Damaged (crc32c : List UInt8 → UInt32) (record : WalRecord)
    (kept garbage : List UInt8) : Prop where
  framable : Framable record
  within : ∃ lost, lost ≠ [] ∧ garbage.length ≤ lost.length ∧
    frame crc32c (encodeRecord record) = kept ++ lost
  fails : ¬ PassesChecks crc32c (kept ++ garbage)

theorem readRecordsFrom_corrupt (complete : ¬ EndsEarly bytes)
    (fails : ¬ PassesChecks crc32c bytes) (rounds : Nat) :
    ∃ error, readRecordsFrom crc32c (rounds + 1) bytes = .error error := by
  rw [EndsEarly, not_or] at complete
  by_cases magic : bytes.take 8 = frameMagic
  · by_cases small : frameLength bytes ≤ maxWalRecordBytes
    · have whole : ¬ (bytes.drop frameHeaderLen).length < frameLength bytes :=
        fun cut => complete.2 ⟨magic, small, cut⟩
      have mismatch : (crc32c ((bytes.drop frameHeaderLen).take (frameLength bytes))).toNat ≠
          frameChecksum bytes :=
        fun same => fails ⟨by omega, magic, small, by omega, same⟩
      rw [readRecordsFrom_succ (by omega) magic small]
      simp only [if_neg whole, if_pos mismatch]
      exact ⟨_, rfl⟩
    · rw [readRecordsFrom, if_neg complete.1, if_neg (by simp [magic])]
      change ∃ error, (if frameLength bytes > maxWalRecordBytes then _ else _) = _
      rw [if_pos (by omega)]
      exact ⟨_, rfl⟩
  · rw [readRecordsFrom, if_neg complete.1, if_pos magic]
    exact ⟨_, rfl⟩

theorem openJournal_endsEarly {records : List WalRecord}
    (framable : ∀ record ∈ records, Framable record) {tail : List UInt8}
    (ends : EndsEarly tail) :
    openJournal crc32c (frames crc32c records ++ tail) = .ok (frames crc32c records, records) := by
  obtain ⟨rounds, read⟩ := readRecords_append framable tail
  rw [openJournal, read, readRecordsFrom_endsEarly ends]
  simp [Except.map, bind, Except.bind, pure, Except.pure]

theorem openJournal_corrupt {records : List WalRecord}
    (framable : ∀ record ∈ records, Framable record) {tail : List UInt8}
    (complete : ¬ EndsEarly tail) (fails : ¬ PassesChecks crc32c tail) :
    ∃ error, openJournal crc32c (frames crc32c records ++ tail) = .error error := by
  obtain ⟨rounds, read⟩ := readRecords_append framable tail
  obtain ⟨error, corrupt⟩ := readRecordsFrom_corrupt complete fails rounds
  rw [openJournal, read, corrupt]
  exact ⟨error, rfl⟩

end

/-- The journal opens on a damaged last frame, to exactly the records before it and truncated
to their frames, if and only if the damage reads as a frame cut short; a frame that only lost
bytes always does. -/
theorem damaged_tail_ends_replay (crc32c : List UInt8 → UInt32) (records : List WalRecord)
    (framable : ∀ record ∈ records, Framable record) (last : WalRecord)
    (kept garbage : List UInt8) (damaged : Damaged crc32c last kept garbage) :
    (openJournal crc32c (frames crc32c records ++ (kept ++ garbage)) =
        .ok (frames crc32c records, records) ↔ EndsEarly (kept ++ garbage)) ∧
      (garbage = [] → EndsEarly (kept ++ garbage)) := by
  refine ⟨⟨?_, openJournal_endsEarly framable⟩, ?_⟩
  · intro opens
    by_contra complete
    obtain ⟨error, fails⟩ := openJournal_corrupt framable complete damaged.fails
    rw [fails] at opens
    cases opens
  · rintro rfl
    obtain ⟨lost, lostSome, _, split⟩ := damaged.within
    rw [List.append_nil]
    exact endsEarly_of_torn (.inr ⟨last, lost, damaged.framable, lostSome, split⟩)

open Sample

def Sample.record : WalRecord := ⟨1, .epoch, []⟩

theorem Sample.framable_record : Framable record := by
  unfold Framable
  decide +kernel

theorem damaged_tail_ends_replay_sample :
    openJournal castagnoli (frames castagnoli [record] ++ (frameMagic ++ [])) =
      .ok (frames castagnoli [record], [record]) :=
  ((damaged_tail_ends_replay castagnoli [record]
    (by simpa using framable_record) record frameMagic []
    ⟨framable_record, ⟨_, by decide, Nat.zero_le _, rfl⟩, by decide⟩).1).mpr (by decide)

/-- A last frame whose payload reads as zeros after a power cut: the journal does not open. -/
theorem zeroed_payload_is_corrupt :
    let kept := frameHeader castagnoli (encodeRecord record)
    let garbage := List.replicate (encodeRecord record).length 0
    Damaged castagnoli record kept garbage ∧
      (openJournal castagnoli (frames castagnoli [record] ++ (kept ++ garbage))).isOk =
        false := by
  refine ⟨⟨framable_record, ⟨encodeRecord record, by decide, ?_, frame_eq _⟩, ?_⟩, ?_⟩
  · exact (List.length_replicate).le
  · decide +kernel
  · decide +kernel

/-! ## Rejected commits -/

structure NothingWritten (before after : DiskState) : Prop where
  journal : after.journal = before.journal
  database : after.database = before.database

namespace DiskState

variable (state : DiskState)

/-- The journal, if there is one, takes the record of the plan. -/
def Frames (plan : CommitPlan) : Prop :=
  state.journal.isSome = true → (encodeRecord (.fromPlan plan)).length ≤ maxWalRecordBytes

def Persists (plan : CommitPlan) : Prop :=
  ∃ tables, state.database.current.persistRecord (.fromPlan plan) = .ok tables

def Valid (clock : ClockReading) (writes : List Write) : Prop :=
  ∃ loaded plan, state.database.current.loadWriteDocuments writes = .ok loaded ∧
    state.memory.planWithDocuments clock writes loaded = .ok plan ∧
    state.Frames plan ∧ state.Persists plan

variable {crc32c : List UInt8 → UInt32} {state : DiskState} {clock : ClockReading}
  {writes : List Write} {plan : CommitPlan}

theorem appendJournal_of_frames (fits : state.Frames plan) :
    ∃ journal, state.appendJournal crc32c (.fromPlan plan) =
        .ok { state with journal := journal } ∧
      (state.journal.isSome = true → journal ≠ state.journal) := by
  cases journal : state.journal with
  | none =>
    refine ⟨none, ?_, nofun⟩
    simp only [appendJournal, journal]
    rw [← journal]
    rfl
  | some bytes =>
    have small := fits (by rw [journal]; rfl)
    refine ⟨some (bytes ++ frame crc32c (encodeRecord (.fromPlan plan))), ?_, fun _ same => ?_⟩
    · rw [appendJournal, journal]
      exact bind_eq_ok.mpr ⟨_, appendRecord_eq_ok.mpr ⟨small, rfl⟩, rfl⟩
    · have length := congrArg length (Option.some.inj same)
      rw [length_append, length_frame, frameHeaderLen] at length
      omega

/-- The append and the encoding for the tables both fence the store, whatever was written. -/
theorem requiresRestart_of_unfit (plans : state.planCommit clock writes = .ok plan)
    (unfit : ¬ (state.Frames plan ∧ (state.journal = none → state.Persists plan))) :
    (state.commitObserved crc32c clock writes).1.requiresRestart = true := by
  by_cases framed : state.Frames plan
  · obtain ⟨journal, append, -⟩ := @appendJournal_of_frames crc32c state plan framed
    have lacks : ¬ state.Persists plan := fun persists => unfit ⟨framed, fun _ => persists⟩
    cases persists : state.database.current.persistRecord (.fromPlan plan) with
    | ok tables => exact absurd ⟨tables, persists⟩ lacks
    | error error =>
      have persist : { state with journal := journal }.persistCommit (.fromPlan plan) =
          .error error := by
        rw [persistCommit, persists]
        rfl
      simp only [commitObserved, plans, append, persist]
      rfl
  · obtain ⟨hasJournal, large⟩ := Classical.not_imp.mp framed
    obtain ⟨bytes, isJournal⟩ := Option.isSome_iff_exists.mp hasJournal
    have refused : state.appendJournal crc32c (.fromPlan plan) =
        .error (.recordTooLarge (encodeRecord (.fromPlan plan)).length maxWalRecordBytes) := by
      rw [appendJournal, isJournal]
      simp only [appendRecord, if_pos (not_le.mp large)]
      rfl
    simp only [commitObserved, plans, refused]
    rfl

theorem commitObserved_of_valid (accepts : state.requiresRestart = false)
    (valid : state.Valid clock writes) :
    ∃ outcome, (state.commitObserved crc32c clock writes).2 = .ok outcome := by
  obtain ⟨loaded, plan, loads, planned, fits, tables, persists⟩ := valid
  have plans : state.planCommit clock writes = .ok plan := by
    rw [planCommit, accepts, loads]
    exact mapError_eq_ok.mpr planned
  obtain ⟨journal, append, _⟩ := @appendJournal_of_frames crc32c state plan fits
  have persist : { state with journal := journal }.persistCommit (.fromPlan plan) =
      .ok { state with
        journal := journal
        database := state.database.commit tables (redbDurability state.durability) } := by
    rw [persistCommit, persists]
    rfl
  simp only [commitObserved, plans, append, persist]
  exact ⟨_, rfl⟩

end DiskState

/-- A commit that fails with nothing written leaves the whole store as it was, and the next
valid commit succeeds, exactly if its record, once planned, fits a frame of the journal, and
encodes for the tables of a store without a journal. -/
theorem rejected_commit_keeps_store (crc32c : List UInt8 → UInt32) (state : DiskState)
    (clock : ClockReading) (writes : List Write) (error : DiskError)
    (accepts : state.requiresRestart = false)
    (failed : (state.commitObserved crc32c clock writes).2 = .error error)
    (nothing : NothingWritten state (state.commitObserved crc32c clock writes).1) :
    ((state.commitObserved crc32c clock writes).1 = state ∧
      ∀ later more, state.Valid later more → ∃ outcome,
        ((state.commitObserved crc32c clock writes).1.commitObserved crc32c later more).2 =
          .ok outcome) ↔
    ∀ plan, state.planCommit clock writes = .ok plan →
      state.Frames plan ∧ (state.journal = none → state.Persists plan) := by
  refine ⟨fun ⟨unchanged, _⟩ plan plans => ?_, fun fits => ?_⟩
  · by_contra unfit
    have fenced := @DiskState.requiresRestart_of_unfit crc32c _ _ _ _ plans unfit
    rw [unchanged, accepts] at fenced
    cases fenced
  have unchanged : (state.commitObserved crc32c clock writes).1 = state := by
    cases plans : state.planCommit clock writes with
    | error error => simp only [DiskState.commitObserved, plans]
    | ok plan =>
      obtain ⟨framed, persists⟩ := fits plan plans
      obtain ⟨journal, append, grows⟩ := @DiskState.appendJournal_of_frames crc32c state plan framed
      cases persist : { state with journal := journal }.persistCommit (.fromPlan plan) with
      | ok persisted =>
        simp only [DiskState.commitObserved, plans, append, persist] at failed
        cases failed
      | error error =>
        -- with a journal the frame was written; without one the record encodes
        have same := nothing.journal
        simp only [DiskState.commitObserved, plans, append, persist] at same
        cases hasJournal : state.journal with
        | some bytes => exact absurd same (grows (by rw [hasJournal]; rfl))
        | none =>
          obtain ⟨tables, encodes⟩ := persists hasJournal
          rw [DiskState.persistCommit, encodes] at persist
          cases persist
  refine ⟨unchanged, ?_⟩
  intro later more valid
  rw [unchanged]
  exact DiskState.commitObserved_of_valid accepts valid

def Sample.emptyDisk : DiskState := .created options true .writeBehind

theorem rejected_commit_keeps_store_sample :
    (emptyDisk.commitObserved castagnoli clock
        [.verify itemA (.exists true)]).1 = emptyDisk := by
  have fails : (emptyDisk.commitObserved castagnoli clock
      [.verify itemA (.exists true)]).2.isOk = false := by decide +kernel
  have rejected : (emptyDisk.planCommit clock
      [.verify itemA (.exists true)]).isOk = false := by decide +kernel
  cases failed : (emptyDisk.commitObserved castagnoli clock
      [.verify itemA (.exists true)]).2 with
  | ok outcome =>
    rw [failed] at fails
    cases fails
  | error error =>
    refine ((rejected_commit_keeps_store castagnoli emptyDisk clock _ error rfl
      failed ⟨rfl, rfl⟩).mpr ?_).1
    intro plan planned
    rw [planned] at rejected
    cases rejected

def Sample.createBytes (bytes : List UInt8) : Write := .create itemA (bytesFields bytes)

theorem planCommit_createBytes (bytes : List UInt8) :
    ∃ plan, emptyDisk.planCommit clock [createBytes bytes] = .ok plan ∧
      bytes.length ≤ (encodeRecord (.fromPlan plan)).length := by
  let time := emptyDisk.memory.nextCommitTime clock
  let document : Document := ⟨bytesFields bytes, time, time⟩
  refine ⟨⟨⟨1, time⟩, (∅ : DocumentMap).insert itemA document,
    [⟨1, itemA, none, some document⟩]⟩, rfl, ?_⟩
  simp only [WalRecord.fromPlan, encodeRecord, map_cons, flatMap_cons,
    length_append, encodeMutation, encodeOptionDocument, length_cons, encodeDocument,
    encodeFields, document, bytesFields, encodeEntries, encodeValue, encodeBytes]
  omega

theorem createBytes_fences (long : maxWalRecordBytes < bytes.length) :
    ∃ length, emptyDisk.commitObserved castagnoli clock
      [createBytes bytes] =
        (emptyDisk.fence, .error (.recordTooLarge length maxWalRecordBytes)) := by
  obtain ⟨plan, planned, length⟩ := planCommit_createBytes bytes
  have refused : emptyDisk.appendJournal castagnoli (.fromPlan plan) =
      .error (.recordTooLarge (encodeRecord (.fromPlan plan)).length maxWalRecordBytes) := by
    change (appendRecord castagnoli [] (.fromPlan plan) >>= _ : Except DiskError DiskState) = _
    rw [appendRecord, if_pos (by omega)]
    rfl
  simp only [DiskState.commitObserved, planned, refused]
  exact ⟨_, rfl⟩

/-- A commit is refused before anything is written, and the store then refuses a commit that
it would have taken before. -/
def FencesUnwritten (state : DiskState) (clock : ClockReading) (writes more : List Write) : Prop :=
  let failed := state.commitObserved castagnoli clock writes
  (∃ length, failed.2 = .error (.recordTooLarge length maxWalRecordBytes)) ∧
    NothingWritten state failed.1 ∧ state.Valid clock more ∧
    (failed.1.commitObserved castagnoli clock more).2 = .error .requiresRestart

theorem fencesUnwritten_createBytes (long : maxWalRecordBytes < bytes.length) :
    FencesUnwritten emptyDisk clock [createBytes bytes]
      [.create itemB .empty] := by
  obtain ⟨length, refused⟩ := createBytes_fences long
  have valid : emptyDisk.Valid clock [.create itemB .empty] := by
    refine ⟨∅, _, rfl, rfl, ?_, _, rfl⟩
    intro _
    decide +kernel
  rw [FencesUnwritten, refused]
  exact ⟨⟨length, rfl⟩, ⟨rfl, rfl⟩, valid, rfl⟩

/-- One byte more than a frame holds. -/
theorem record_too_large_fences_store :
    FencesUnwritten emptyDisk clock
      [createBytes (List.replicate (maxWalRecordBytes + 1) 0)]
      [.create itemB .empty] := by
  apply fencesUnwritten_createBytes
  rw [List.length_replicate]
  exact Nat.lt_succ_self _

end Firenook
