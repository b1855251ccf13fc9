import Firenook.StorageMetadata

/-!
# Crashes of the storage metadata

What the next open finds after a kill.  The durable tables and the journal together hold
the acknowledged operations, as long as no journal write failed part-way, no flush commits
between the journal write and the redb commit of an update, and the process is not killed
between the truncation and the commit of a replacement.
-/

namespace Firenook.Storage

open List Journal

variable {Object Upload : Type}

/-! ## Replaying a journal -/

def Consecutive : Nat → List (JournalEntry Object Upload) → Prop
  | _, [] => True
  | first, entry :: entries => entry.seq = first ∧ Consecutive (first + 1) entries

section Consecutive

variable {entries : List (JournalEntry Object Upload)}

theorem consecutive_nil (first : Nat) :
    Consecutive first ([] : List (JournalEntry Object Upload)) :=
  trivial

section

variable {first : Nat} (numbered : Consecutive first entries)
include numbered

theorem Consecutive.append
    {entry : JournalEntry Object Upload} (next : entry.seq = first + entries.length) :
    Consecutive first (entries ++ [entry]) := by
  induction entries generalizing first with
  | nil => exact ⟨next, trivial⟩
  | cons head entries ih =>
    refine ⟨numbered.1, ih numbered.2 ?_⟩
    rw [next, length_cons]
    omega

theorem Consecutive.drop (count : Nat) : Consecutive (first + count) (entries.drop count) := by
  induction entries generalizing first count with
  | nil =>
    rw [drop_nil]
    trivial
  | cons head entries ih =>
    cases count with
    | zero => exact numbered
    | succ count =>
      rw [show first + (count + 1) = first + 1 + count by omega]
      exact ih numbered.2 count

theorem Consecutive.filter (applied : Nat) :
    entries.filter (fun entry => applied < entry.seq) = entries.drop (applied + 1 - first) := by
  induction entries generalizing first with
  | nil => rw [filter_nil, drop_nil]
  | cons head entries ih =>
    obtain ⟨seq, rest⟩ := numbered
    rw [filter_cons, ih rest, seq]
    by_cases newer : applied < first
    · rw [if_pos (by simpa using newer), show applied + 1 - first = 0 by omega,
        show applied + 1 - (first + 1) = 0 by omega, drop_zero, drop_zero]
    · rw [if_neg (by simpa using newer),
        show applied + 1 - first = applied + 1 - (first + 1) + 1 by omega, drop_succ_cons]

end

theorem replayPending_consecutive {tables : Tables Object Upload}
    (numbered : Consecutive (tables.appliedSeq + 1) entries) :
    replayPending entries tables =
      .ok ⟨entries.foldl redo tables.data, tables.appliedSeq + entries.length⟩ := by
  induction entries generalizing tables with
  | nil => rfl
  | cons head entries ih =>
    obtain ⟨seq, rest⟩ := numbered
    rw [replayPending, if_neg (not_not.mpr seq)]
    have next : Consecutive ((⟨redo tables.data head, head.seq⟩ : Tables Object Upload).appliedSeq
        + 1) entries := by
      rw [seq]
      exact rest
    rw [ih next, length_cons]
    dsimp only
    congr 2
    omega

end Consecutive

variable (entries : List (JournalEntry Object Upload))

def Journal.clean : Journal Object Upload :=
  ⟨entries.map fun entry => [.whole entry], []⟩

theorem Journal.entries_clean : (clean entries).entries = entries := by
  induction entries with
  | nil => rfl
  | cons entry entries ih =>
    exact congrArg (cons entry) ih

theorem Journal.write_clean (entry : JournalEntry Object Upload) :
    (clean entries).write entry = clean (entries ++ [entry]) := by
  simp [clean, write]

/-- Redoing the logged entries from the tables yields the data. -/
structure Redoable (durable : Tables Object Upload) (first : Nat)
    (logged : List (JournalEntry Object Upload)) (data : StorageData Object Upload) : Prop where
  numbered : Consecutive first logged
  begins : first ≤ durable.appliedSeq + 1
  reaches : durable.appliedSeq + 1 ≤ first + logged.length
  redone : (logged.drop (durable.appliedSeq + 1 - first)).foldl redo durable.data = data

namespace Redoable

variable {durable : Tables Object Upload} {first : Nat}
  {logged : List (JournalEntry Object Upload)} {data : StorageData Object Upload}

theorem applied (numbered : Consecutive first logged) {seq : Nat} (data : StorageData Object Upload)
    (last : first + logged.length = seq + 1) : Redoable ⟨data, seq⟩ first logged data where
  numbered := numbered
  begins := by dsimp only; omega
  reaches := by dsimp only; omega
  redone := by
    rw [drop_of_length_le (by dsimp only; omega)]
    rfl

theorem append (redoable : Redoable durable first logged data)
    (entry : JournalEntry Object Upload) (next : entry.seq = first + logged.length) :
    Redoable durable first (logged ++ [entry]) (redo data entry) where
  numbered := redoable.numbered.append next
  begins := redoable.begins
  reaches := by
    have reaches := redoable.reaches
    rw [length_append]
    omega
  redone := by
    have reaches := redoable.reaches
    rw [drop_append_of_le_length (by omega), foldl_append, redoable.redone]
    rfl

theorem replay (redoable : Redoable durable first logged data) {seq : Nat}
    (last : first + logged.length = seq + 1) :
    replayJournal (.clean logged) durable = .ok ⟨data, seq⟩ := by
  have begins := redoable.begins
  have reaches := redoable.reaches
  have numbered := redoable.numbered.drop (durable.appliedSeq + 1 - first)
  rw [show first + (durable.appliedSeq + 1 - first) = durable.appliedSeq + 1 by omega] at numbered
  unfold replayJournal
  rw [entries_clean, redoable.numbered.filter, replayPending_consecutive numbered,
    redoable.redone, length_drop]
  congr 2
  omega

end Redoable

theorem redo_eq_perform {data : StorageData Object Upload} {change : Change Object Upload}
    {seq nextId : Nat} (grows : data.nextId ≤ nextId) :
    redo data ⟨seq, change, nextId⟩ = data.perform (.mutate change nextId) := by
  unfold redo StorageData.perform
  rw [max_eq_right grows]

theorem produced_append (operations : List (Operation Object Upload))
    (operation : Operation Object Upload) :
    produced (operations ++ [operation]) = (produced operations).perform operation := by
  unfold produced
  rw [foldl_append]
  rfl

/-! ## The invariant -/

namespace Foreground

def committed : Foreground Object Upload → Bool
  | .updated .. | .replaced .. => true
  | _ => false

def isJournaled : Foreground Object Upload → Bool
  | .journaled .. => true
  | _ => false

def isTruncated : Foreground Object Upload → Bool
  | .truncated .. => true
  | _ => false

def count (foreground : Foreground Object Upload) (counts : Bool)
    (acknowledged : List (Operation Object Upload)) : List (Operation Object Upload) :=
  acknowledged ++ if counts then foreground.operation.toList else []

/-- How the id counter in memory relates to the acknowledged operations. -/
def Counted (acknowledged : List (Operation Object Upload)) (nextId : Nat) :
    Foreground Object Upload → Prop
  | .idle => (produced acknowledged).nextId ≤ nextId
  | .updating _ id | .journaled _ id | .updated _ id =>
    (produced acknowledged).nextId ≤ id ∧ id = nextId
  | .replacing data | .truncated data | .replaced data => data.nextId = nextId

end Foreground

/-- A serving process: what its memory, the tables and the journal hold. -/
structure Serving (machine : Machine Object Upload) (process : Process Object Upload) (first : Nat)
    (logged : List (JournalEntry Object Upload)) : Prop where
  numbered : Consecutive first logged
  last : first + logged.length = process.seq + 1
  inFlight : machine.inFlight = process.foreground.operation
  current : process.current.data =
    produced (process.foreground.count process.foreground.committed machine.acknowledged)
  recoverable : process.foreground.isTruncated = false →
    Redoable machine.durable first logged
      (produced (process.foreground.count process.foreground.effective machine.acknowledged))
  empty : process.foreground.isTruncated = true → logged = []
  flushed : process.flusher = .committed → process.foreground.isJournaled = false ∧
    machine.durable = ⟨process.current.data, process.seq⟩
  counted : process.foreground.Counted machine.acknowledged process.nextId

namespace Machine

variable (machine : Machine Object Upload)

def outcome : List (Operation Object Upload) :=
  machine.acknowledged ++ if machine.happened then machine.inFlight.toList else []

def Consistent : Prop :=
  ∃ first logged, machine.journal = .clean logged ∧
    match machine.phase with
    | .down => Redoable machine.durable first logged (produced machine.outcome)
    | .opening => Consecutive first logged ∧
      ∃ seq, machine.durable = ⟨produced machine.outcome, seq⟩ ∧ first + logged.length = seq + 1
    | .serving process => Serving machine process first logged

/-- The flush is about to commit between the two steps of an update. -/
def overtakes : Bool :=
  match machine.phase with
  | .serving { flusher := .locked, foreground, .. } => foreground.isJournaled
  | _ => false

/-- A replacement has truncated the journal and not committed yet. -/
def halfReplaced : Bool :=
  match machine.phase with
  | .serving process => process.foreground.isTruncated
  | _ => false

/-- No part of a failed write stays in the journal; no flush commits between the two steps
of an update; no kill falls between the two steps of a replacement. -/
def Careful : Event Object Upload → Prop
  | .failWrite fragments => fragments.isEmpty = true
  | .proceedFlush => machine.overtakes = false
  | .kill => machine.halfReplaced = false
  | _ => True

instance (machine : Machine Object Upload) : DecidablePred machine.Careful
  | .failWrite _ | .proceedFlush | .kill => inferInstanceAs (Decidable (_ = _))
  | .update .. | .replace _ | .proceed | .noteUnsyncedFile _ | .flush | .openStore | .proceedOpen =>
    inferInstanceAs (Decidable True)

variable {machine : Machine Object Upload} {process : Process Object Upload} {first : Nat}
  {logged : List (JournalEntry Object Upload)}

theorem Consistent.serving (first : Nat) (logged : List (JournalEntry Object Upload))
    (journal : machine.journal = .clean logged) (phase : machine.phase = .serving process)
    (serving : Serving machine process first logged) :
    machine.Consistent := by
  refine ⟨first, logged, journal, ?_⟩
  rw [phase]
  exact serving

theorem effective_eq_committed {foreground : Foreground Object Upload}
    (between : foreground.isJournaled = false) : foreground.effective = foreground.committed := by
  cases foreground <;> first | rfl | cases between

/-! ## The steps of operations -/

section

variable (journal : machine.journal = .clean logged)
include journal

theorem consistent_journal {current : Tables Object Upload} {nextId seq durableSeq id : Nat}
    {pendingFiles : List Text} {change : Change Object Upload} (serving : Serving machine
      ⟨current, nextId, seq, durableSeq, pendingFiles, .updating change id, .idle⟩ first logged) :
    Consistent { machine.serve
        ⟨current, nextId, seq + 1, durableSeq, pendingFiles, .journaled change id, .idle⟩ with
      journal := machine.journal.write ⟨seq + 1, change, id⟩ } := by
  have last : first + logged.length = seq + 1 := serving.last
  have before : Redoable machine.durable first logged (produced (machine.acknowledged ++ [])) :=
    serving.recoverable rfl
  rw [append_nil] at before
  have written := before.append ⟨seq + 1, change, id⟩ last.symm
  rw [redo_eq_perform serving.counted.1, ← produced_append] at written
  refine .serving first (logged ++ [(⟨seq + 1, change, id⟩ : JournalEntry Object Upload)]) ?_ rfl
    ⟨written.numbered, ?_, serving.inFlight, serving.current, fun _ => written,
      nofun, nofun, serving.counted⟩
  · rw [journal, write_clean]
  · rw [length_append]
    change first + (logged.length + 1) = seq + 1 + 1
    omega

section

variable (phase : machine.phase = .serving process) (serving : Serving machine process first logged)
include phase serving

theorem consistent_beginUpdate (change : Change Object Upload) (advance : Nat) :
    (machine.beginUpdate process change advance).Consistent := by
  obtain ⟨current, nextId, seq, durableSeq, pendingFiles, foreground, flusher⟩ := process
  cases foreground with
  | idle =>
    refine .serving _ _ journal rfl ⟨serving.numbered, serving.last, rfl, serving.current,
      serving.recoverable, nofun, ?_, ?_⟩
    · exact fun committed => ⟨rfl, (serving.flushed committed).2⟩
    · exact ⟨serving.counted.trans (Nat.le_add_right ..), rfl⟩
  | _ => exact .serving _ _ journal phase serving

theorem consistent_beginReplace (data : StorageData Object Upload) :
    (machine.beginReplace process data).Consistent := by
  obtain ⟨current, nextId, seq, durableSeq, pendingFiles, foreground, flusher⟩ := process
  cases foreground with
  | idle =>
    exact .serving _ _ journal rfl ⟨serving.numbered, serving.last, rfl, serving.current,
      serving.recoverable, nofun,
      (fun committed => ⟨rfl, (serving.flushed committed).2⟩), rfl⟩
  | _ => exact .serving _ _ journal phase serving

theorem consistent_proceed : (machine.proceed process).Consistent := by
  obtain ⟨current, nextId, seq, durableSeq, pendingFiles, foreground, flusher⟩ := process
  have held : machine.Consistent := .serving _ _ journal phase serving
  cases foreground with
  | idle => exact held
  | updating change id =>
    cases flusher with
    | idle => exact consistent_journal journal serving
    | locked | committed => exact held
  | journaled change id =>
    have before : current.data = produced (machine.acknowledged ++ []) := serving.current
    have applied : (current.data.perform (.mutate change id)) =
        produced (machine.acknowledged ++ [.mutate change id]) := by
      rw [produced_append, before, append_nil]
    exact .serving _ _ journal rfl ⟨serving.numbered, serving.last, serving.inFlight, applied,
      serving.recoverable, nofun,
      (fun committed => nomatch (serving.flushed committed).1), serving.counted⟩
  | replacing data =>
    cases flusher with
    | idle =>
      refine .serving (seq + 1) [] rfl rfl ⟨trivial, rfl, serving.inFlight,
        serving.current, nofun, fun _ => rfl,
        nofun, serving.counted⟩
    | locked | committed => exact held
  | truncated data =>
    cases flusher with
    | idle =>
      have none := serving.empty rfl
      subst none
      refine .serving _ _ journal rfl ⟨trivial, serving.last, serving.inFlight, ?_, fun _ => ?_,
        nofun, nofun,
        serving.counted⟩
      · exact (produced_append machine.acknowledged (.replace data)).symm
      · have replaced : produced (machine.acknowledged ++ [.replace data]) = data :=
          produced_append ..
        change Redoable ⟨data, seq⟩ first [] (produced (machine.acknowledged ++ [.replace data]))
        rw [replaced]
        exact .applied (consecutive_nil first) data serving.last
    | locked | committed => exact held
  -- the operation is acknowledged
  | updated change id | replaced data =>
    refine .serving _ _ journal rfl ⟨serving.numbered, serving.last, rfl, ?_, fun _ => ?_,
      nofun, (fun committed => ⟨rfl, (serving.flushed committed).2⟩), ?_⟩
    · change current.data = produced (machine.acknowledged ++ [_] ++ [])
      rw [append_nil]
      exact serving.current
    · change Redoable _ _ _ (produced (machine.acknowledged ++ [_] ++ []))
      rw [append_nil]
      exact serving.recoverable rfl
    · change (produced (machine.acknowledged ++ [_])).nextId ≤ nextId
      rw [produced_append]
      first | exact serving.counted.2.le | exact serving.counted.le

theorem consistent_failWrite : (machine.failWrite process []).Consistent := by
  obtain ⟨current, nextId, seq, durableSeq, pendingFiles, foreground, flusher⟩ := process
  have held : machine.Consistent := .serving _ _ journal phase serving
  cases foreground with
  | updating change id =>
    cases flusher with
    | idle =>
      have same : machine.journal.writePart [] = machine.journal := by
        rw [writePart, append_nil]
      exact .serving _ _ (same.trans journal) rfl ⟨serving.numbered, serving.last, rfl,
        serving.current, serving.recoverable, nofun,
        nofun, serving.counted.1.trans serving.counted.2.le⟩
    | locked | committed => exact held
  | _ => exact held

/-! ## Flushes -/

theorem consistent_noteUnsyncedFile (path : Text) :
    (machine.noteUnsyncedFile process path).Consistent := by
  unfold noteUnsyncedFile
  split
  · exact .serving _ _ journal rfl ⟨serving.numbered, serving.last, serving.inFlight, serving.current,
      serving.recoverable, serving.empty, serving.flushed, serving.counted⟩
  · exact .serving _ _ journal phase serving

theorem consistent_beginFlush : (machine.beginFlush process).Consistent := by
  unfold beginFlush
  split
  · split_ifs
    · exact .serving _ _ journal phase serving
    · exact .serving _ _ journal rfl ⟨serving.numbered, serving.last, serving.inFlight, serving.current,
        serving.recoverable, serving.empty, nofun, serving.counted⟩
  · exact .serving _ _ journal phase serving

theorem consistent_proceedFlush
    (between : process.flusher = .locked → process.foreground.isJournaled = false) :
    (machine.proceedFlush process).Consistent := by
  unfold proceedFlush
  split
  · exact .serving _ _ journal phase serving
  · rename_i locked
    refine .serving _ _ journal rfl ⟨serving.numbered, serving.last, serving.inFlight, serving.current,
      fun _ => ?_, serving.empty, fun _ => ⟨between locked, rfl⟩, serving.counted⟩
    dsimp only [serve]
    rw [effective_eq_committed (between locked), ← serving.current]
    exact .applied serving.numbered _ serving.last
  · rename_i committed
    obtain ⟨between, durable⟩ := serving.flushed committed
    refine .serving (process.seq + 1) [] rfl rfl ⟨trivial, rfl,
      serving.inFlight, serving.current, fun _ => ?_, fun _ => rfl, nofun,
      serving.counted⟩
    dsimp only [serve]
    rw [durable, effective_eq_committed between, ← serving.current]
    exact .applied (consecutive_nil _) _ rfl

end

/-! ## Kills and opens -/

theorem consistent_kill (serving : Serving machine process first logged)
    (standing : process.foreground.isTruncated = false) : (machine.kill process).Consistent := by
  refine ⟨first, logged, journal, ?_⟩
  have recoverable := serving.recoverable standing
  rw [Foreground.count, ← serving.inFlight] at recoverable
  exact recoverable

theorem openStore_eq {data : StorageData Object Upload}
    (redoable : Redoable machine.durable first logged data) :
    ∃ seq, first + logged.length = seq + 1 ∧
      machine.openStore = { machine with durable := ⟨data, seq⟩, phase := .opening } := by
  have reaches := redoable.reaches
  have last : first + logged.length = first + logged.length - 1 + 1 := by omega
  refine ⟨_, last, ?_⟩
  unfold openStore
  rw [journal, redoable.replay last]

end

theorem consistent_proceedOpen {seq : Nat}
    (durable : machine.durable = ⟨produced machine.outcome, seq⟩) :
    machine.proceedOpen.Consistent := by
  refine .serving (seq + 1) [] rfl rfl ⟨trivial, ?_, rfl, ?_, fun _ => ?_,
    fun _ => rfl, nofun, ?_⟩
  · rw [durable, length_nil]
  · change machine.durable.data = produced (machine.outcome ++ [])
    rw [durable, append_nil]
  · change Redoable machine.durable (seq + 1) [] (produced (machine.outcome ++ []))
    rw [durable, append_nil]
    exact .applied (consecutive_nil _) _ rfl
  · change (produced machine.outcome).nextId ≤ machine.durable.data.nextId
    rw [durable]

theorem consistent_start : (start : Machine Object Upload).Consistent :=
  ⟨1, [], rfl, .applied (consecutive_nil 1) _ rfl⟩

section

variable (machine : Machine Object Upload)

theorem consistent_step (event : Event Object Upload)
    (careful : machine.Careful event) (consistent : machine.Consistent) :
    (machine.step event).Consistent := by
  have held := consistent
  obtain ⟨first, logged, journal, holds⟩ := consistent
  cases phase : machine.phase with
  | down =>
    rw [phase] at holds
    unfold step
    rw [phase]
    cases event with
    | openStore =>
      obtain ⟨seq, last, opened⟩ := openStore_eq journal holds
      rw [opened]
      exact ⟨first, logged, journal, holds.numbered, seq, rfl, last⟩
    | _ => exact held
  | opening =>
    rw [phase] at holds
    obtain ⟨numbered, seq, durable, last⟩ := holds
    unfold step
    rw [phase]
    cases event with
    | kill =>
      refine ⟨first, logged, journal, ?_⟩
      rw [durable]
      exact .applied numbered _ last
    | proceedOpen => exact consistent_proceedOpen durable
    | _ => exact held
  | serving process =>
    rw [phase] at holds
    unfold step
    rw [phase]
    cases event with
    | update change advance => exact consistent_beginUpdate journal phase holds change advance
    | replace data => exact consistent_beginReplace journal phase holds data
    | proceed => exact consistent_proceed journal phase holds
    | failWrite fragments =>
      cases isEmpty_iff.mp careful
      exact consistent_failWrite journal phase holds
    | noteUnsyncedFile path => exact consistent_noteUnsyncedFile journal phase holds path
    | flush => exact consistent_beginFlush journal phase holds
    | proceedFlush =>
      refine consistent_proceedFlush journal phase holds fun locked => ?_
      have between : machine.overtakes = false := careful
      obtain ⟨current, nextId, seq, durableSeq, pendingFiles, foreground, flusher⟩ := process
      cases (show flusher = .locked from locked)
      rw [overtakes, phase] at between
      exact between
    | kill =>
      refine consistent_kill journal holds ?_
      have standing : machine.halfReplaced = false := careful
      rw [halfReplaced, phase] at standing
      exact standing
    | openStore | proceedOpen => exact held

theorem phase_kill : (machine.step .kill).phase = .down := by
  unfold step
  cases phase : machine.phase with
  | down => exact phase
  | opening => rfl
  | serving process => rfl

theorem outcome_kill : (machine.step .kill).outcome = machine.acknowledged ∨
      ∃ operation, machine.inFlight = some operation ∧
        (machine.step .kill).outcome = machine.acknowledged ++ [operation] := by
  have same : (machine.step .kill).acknowledged = machine.acknowledged ∧
      (machine.step .kill).inFlight = machine.inFlight := by
    unfold step
    cases machine.phase <;> exact ⟨rfl, rfl⟩
  unfold outcome
  rw [same.1, same.2]
  split_ifs
  · cases found : machine.inFlight with
    | none => exact .inl (append_nil _)
    | some operation => exact .inr ⟨operation, rfl, rfl⟩
  · exact .inl (append_nil _)

end

/-- In every careful run a kill is survived: the next open succeeds, with the acknowledged
operations in order and at most the one in flight. -/
theorem metadata_survives_kills (events : List (Event Object Upload))
    (careful : Runs.AllSteps step Careful start events)
    (now : (Runs.run step (start : Machine Object Upload) events).Careful .kill) :
    let machine := Runs.run step (start : Machine Object Upload) events
    ∃ process, (Runs.run step machine [.kill, .openStore, .proceedOpen]).phase = .serving process ∧
      (process.current.data = produced machine.acknowledged ∨
        ∃ operation, machine.inFlight = some operation ∧
          process.current.data = produced (machine.acknowledged ++ [operation])) := by
  intro machine
  have consistent : machine.Consistent :=
    Runs.invariant_run Consistent consistent_step consistent_start careful
  have killed := consistent_step machine .kill now consistent
  have down := phase_kill machine
  have outcomes := outcome_kill machine
  change ∃ process, (((machine.step .kill).step .openStore).step .proceedOpen).phase =
    .serving process ∧ _
  generalize machine.step .kill = stopped at killed down outcomes
  obtain ⟨first, logged, journal, redoable⟩ := killed
  rw [down] at redoable
  obtain ⟨seq, -, opened⟩ := openStore_eq journal redoable
  have reopens : stopped.step .openStore = stopped.openStore := by
    unfold step
    rw [down]
  rw [reopens, opened]
  refine ⟨_, rfl, ?_⟩
  rcases outcomes with kept | ⟨operation, flight, kept⟩
  · exact .inl (congrArg produced kept)
  · exact .inr ⟨operation, flight, congrArg produced kept⟩

end Machine

namespace Sample

open Machine

def set (key : String) (value : Nat) : List (Event Nat Nat) :=
  [.update (.object key.toList (some value)) 1, .proceed, .proceed, .proceed]

def opening : List (Event Nat Nat) := [.openStore, .proceedOpen]

variable (events : List (Event Nat Nat))

def after : Machine Nat Nat :=
  Runs.run step start (opening ++ events)

def found (key : String) : Option (Option Nat) :=
  match (after (events ++ .kill :: opening)).phase with
  | .serving process => some process.current.data.objects[key.toList]?
  | _ => none

/-- The object under the key that the acknowledged operations produce. -/
def known (key : String) : Option Nat :=
  (produced (after events).acknowledged).objects[key.toList]?

def flushed : List (Event Nat Nat) :=
  set "a" 1 ++ [.flush, .proceedFlush, .proceedFlush] ++ set "b" 2

def tornWrite : List (Event Nat Nat) :=
  [.update (.object "a".toList (some 1)) 1, .failWrite [.torn]] ++ set "b" 2

/-- A flush runs between the journal write and the redb commit. -/
def overtakenCommit : List (Event Nat Nat) :=
  [.update (.object "a".toList (some 1)) 1, .proceed, .flush, .proceedFlush, .proceedFlush,
    .proceed, .proceed]

def interrupted : List (Event Nat Nat) :=
  set "a" 1 ++ [.replace { objects := (∅ : Std.ExtTreeMap Text Nat Text.cmp).insert "c".toList 3 },
    .proceed]

end Sample

open Sample

namespace Machine

theorem metadata_survives_kills_sample :
    found flushed "a" = some (some 1) ∧
    found flushed "b" = some (some 2) ∧
    ∃ process, (Runs.run step (after flushed)
        [.kill, .openStore, .proceedOpen]).phase = .serving process ∧
      (process.current.data = produced (after flushed).acknowledged ∨
        ∃ operation, (after flushed).inFlight = some operation ∧
          process.current.data =
            produced ((after flushed).acknowledged ++ [operation])) := by
  refine ⟨by decide +kernel, by decide +kernel, ?_⟩
  exact metadata_survives_kills _ (by decide +kernel) (by decide +kernel)

/-- Acknowledged objects are lost when an earlier journal write failed part-way, when a flush
overtook the commit, and when a kill hits a replacement between its two steps. -/
theorem acknowledged_objects_lost :
    (known tornWrite "b" = some 2 ∧ found tornWrite "b" = some none ∧
      (after tornWrite).inFlight.isNone) ∧
    (known overtakenCommit "a" = some 1 ∧
      found overtakenCommit "a" = some none ∧
      (after overtakenCommit).inFlight.isNone) ∧
    known interrupted "a" = some 1 ∧
      found interrupted "a" = some none ∧
      found interrupted "c" = some none := by
  decide +kernel

end Machine
end Firenook.Storage
