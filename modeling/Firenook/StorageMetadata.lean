import Firenook.Text
import Firenook.Runs

/-!
# Storage metadata under write-behind durability

The metadata of the storage emulator: an in-memory inventory, tables in redb, and a journal
of the mutations since the last flush.  A mutation is first appended to the journal and then
committed to redb without a sync; a flush commits durably and truncates the journal; a whole
replacement truncates the journal and commits durably; opening replays the journal.  These
elementary steps are the steps of the machine below, which can be killed between any two.

Objects and uploads stand for their JSON records.  A line of the journal is a sequence of
fragments: a complete entry, or the torn beginning of one.  It can be parsed if it is one
complete entry, for an entry is a JSON object, so that neither a proper beginning of it nor a
text with more behind it is valid.
-/

namespace Firenook.Storage

variable {Object Upload : Type}

structure StorageData (Object Upload : Type) where
  objects : Std.ExtTreeMap Text Object Text.cmp := ∅
  uploads : Std.ExtTreeMap Text Upload Text.cmp := ∅
  nextId : Nat := 0

inductive Change (Object Upload : Type)
  | object (key : Text) (value : Option Object)
  | upload (key : Text) (value : Option Upload)

def setRecord {Record : Type} (key : Text) (value : Option Record)
    (records : Std.ExtTreeMap Text Record Text.cmp) : Std.ExtTreeMap Text Record Text.cmp :=
  match value with
  | some record => records.insert key record
  | none => records.erase key

variable (data : StorageData Object Upload)

def StorageData.change : Change Object Upload → StorageData Object Upload
  | .object key value => { data with objects := setRecord key value data.objects }
  | .upload key value => { data with uploads := setRecord key value data.uploads }

inductive Operation (Object Upload : Type)
  | mutate (change : Change Object Upload) (nextId : Nat)
  | replace (data : StorageData Object Upload)

def StorageData.perform : Operation Object Upload → StorageData Object Upload
  | .mutate change nextId => { data.change change with nextId }
  | .replace new => new

def produced (operations : List (Operation Object Upload)) : StorageData Object Upload :=
  operations.foldl StorageData.perform {}

/-! ## The journal -/

structure JournalEntry (Object Upload : Type) where
  seq : Nat
  change : Change Object Upload
  nextId : Nat

inductive Fragment (Object Upload : Type)
  | whole (entry : JournalEntry Object Upload)
  | torn

/-- The lines of the file, and what follows the last line break. -/
structure Journal (Object Upload : Type) where
  lines : List (List (Fragment Object Upload)) := []
  tail : List (Fragment Object Upload) := []

namespace Journal

def write (entry : JournalEntry Object Upload) (journal : Journal Object Upload) :
    Journal Object Upload :=
  ⟨journal.lines ++ [journal.tail ++ [.whole entry]], []⟩

/-- What a write left behind that failed before its line break. -/
def writePart (fragments : List (Fragment Object Upload)) (journal : Journal Object Upload) :
    Journal Object Upload :=
  { journal with tail := journal.tail ++ fragments }

def parseLine : List (Fragment Object Upload) → Option (JournalEntry Object Upload)
  | [.whole entry] => some entry
  | _ => none

/-- Entries up to the first line that cannot be parsed. -/
def readLines : List (List (Fragment Object Upload)) → List (JournalEntry Object Upload)
  | [] => []
  | line :: lines =>
    match parseLine line with
    | some entry => entry :: readLines lines
    | none => []

def entries (journal : Journal Object Upload) : List (JournalEntry Object Upload) :=
  readLines (journal.lines ++ [journal.tail])

end Journal

/-! ## The tables -/

structure Tables (Object Upload : Type) where
  data : StorageData Object Upload
  appliedSeq : Nat

/-- An entry is applied again; the id counter only grows. -/
def redo (data : StorageData Object Upload) (entry : JournalEntry Object Upload) :
    StorageData Object Upload :=
  { data.change entry.change with nextId := max data.nextId entry.nextId }

def replayPending : List (JournalEntry Object Upload) → Tables Object Upload →
    Except Text (Tables Object Upload)
  | [], tables => .ok tables
  | entry :: pending, tables =>
    if entry.seq ≠ tables.appliedSeq + 1 then
      .error ("Storage metadata journal sequence ".toList ++ Nat.toDigits 10 entry.seq ++
        " does not follow ".toList ++ Nat.toDigits 10 tables.appliedSeq)
    else replayPending pending ⟨redo tables.data entry, entry.seq⟩

/-- The durable commit of an opening store: all entries newer than the tables. -/
def replayJournal (journal : Journal Object Upload) (durable : Tables Object Upload) :
    Except Text (Tables Object Upload) :=
  replayPending (journal.entries.filter fun entry => durable.appliedSeq < entry.seq) durable

/-! ## The machine -/

/-- The last finished step of the operation that holds the data lock. -/
inductive Foreground (Object Upload : Type)
  | idle
  | updating (change : Change Object Upload) (nextId : Nat)
  | journaled (change : Change Object Upload) (nextId : Nat)
  | updated (change : Change Object Upload) (nextId : Nat)
  | replacing (data : StorageData Object Upload)
  | truncated (data : StorageData Object Upload)
  | replaced (data : StorageData Object Upload)

/-- The last finished step of a flush, which holds the lock of the journal. -/
inductive Flusher
  | idle
  | locked
  | committed

structure Process (Object Upload : Type) where
  /-- The tables with the commits that are not durable. -/
  current : Tables Object Upload
  /-- The id counter of the inventory in memory. -/
  nextId : Nat
  seq : Nat
  durableSeq : Nat
  pendingFiles : List Text := []
  foreground : Foreground Object Upload := .idle
  flusher : Flusher := .idle

inductive Phase (Object Upload : Type)
  | down
  /-- The journal was replayed, and is still there. -/
  | opening
  | serving (process : Process Object Upload)

/-- What survives the process, and what its clients know: the acknowledged operations and
the one in flight.  Transactions of the tables are taken to succeed: after a failed one, the
line of a refused update would stay in the journal and be replayed. -/
structure Machine (Object Upload : Type) where
  durable : Tables Object Upload
  journal : Journal Object Upload := {}
  phase : Phase Object Upload := .down
  acknowledged : List (Operation Object Upload) := []
  inFlight : Option (Operation Object Upload) := none
  /-- Whether the operation in flight had taken effect when the process was killed. -/
  happened : Bool := false

inductive Event (Object Upload : Type)
  | update (change : Change Object Upload) (advance : Nat)
  | replace (data : StorageData Object Upload)
  /-- The next step of the operation in flight. -/
  | proceed
  /-- Its journal write fails after some fragments. -/
  | failWrite (fragments : List (Fragment Object Upload))
  | noteUnsyncedFile (path : Text)
  | flush
  /-- The next step of the flush. -/
  | proceedFlush
  | kill
  | openStore
  /-- The opening store truncates the journal and serves. -/
  | proceedOpen

def Machine.start : Machine Object Upload := { durable := ⟨{}, 0⟩ }

namespace Foreground

def operation : Foreground Object Upload → Option (Operation Object Upload)
  | .idle => none
  | .updating change nextId | .journaled change nextId | .updated change nextId =>
    some (.mutate change nextId)
  | .replacing data | .truncated data | .replaced data => some (.replace data)

def effective : Foreground Object Upload → Bool
  | .journaled .. | .updated .. | .replaced .. => true
  | _ => false

end Foreground

namespace Machine

variable (machine : Machine Object Upload) (process : Process Object Upload)

def serve (process : Process Object Upload) : Machine Object Upload :=
  { machine with phase := .serving process }

/-- `MetadataStore::update` is called with the changed inventory. -/
def beginUpdate (change : Change Object Upload) (advance : Nat) : Machine Object Upload :=
  match process.foreground with
  | .idle =>
    let nextId := process.nextId + advance
    { machine.serve { process with nextId, foreground := .updating change nextId } with
      inFlight := some (.mutate change nextId) }
  | _ => machine

def beginReplace (data : StorageData Object Upload) : Machine Object Upload :=
  match process.foreground with
  | .idle =>
    { machine.serve { process with nextId := data.nextId, foreground := .replacing data } with
      inFlight := some (.replace data) }
  | _ => machine

def acknowledge (operation : Operation Object Upload) : Machine Object Upload :=
  { machine.serve { process with foreground := .idle } with
    acknowledged := machine.acknowledged ++ [operation]
    inFlight := none }

def proceed : Machine Object Upload :=
  match process.foreground, process.flusher with
  | .idle, _ => machine
  | .updating change nextId, .idle =>
    let entry := ⟨process.seq + 1, change, nextId⟩
    { machine.serve
        { process with seq := process.seq + 1, foreground := .journaled change nextId } with
      journal := machine.journal.write entry }
  | .journaled change nextId, _ =>
    machine.serve
      { process with
        current := ⟨process.current.data.perform (.mutate change nextId), process.current.appliedSeq⟩
        foreground := .updated change nextId }
  | .updated change nextId, _ => machine.acknowledge process (.mutate change nextId)
  | .replacing data, .idle =>
    { machine.serve
        { process with
          durableSeq := process.seq, pendingFiles := [], foreground := .truncated data } with
      journal := {} }
  | .truncated data, .idle =>
    let tables := ⟨data, process.seq⟩
    { machine.serve { process with current := tables, foreground := .replaced data } with
      durable := tables }
  | .replaced data, _ => machine.acknowledge process (.replace data)
  -- the journal's lock is taken
  | _, _ => machine

/-- The journal write of an update fails, and the update with it. -/
def failWrite (fragments : List (Fragment Object Upload)) : Machine Object Upload :=
  match process.foreground, process.flusher with
  | .updating _ _, .idle =>
    { machine.serve { process with foreground := .idle } with
      journal := machine.journal.writePart fragments
      inFlight := none }
  | _, _ => machine

def noteUnsyncedFile (path : Text) : Machine Object Upload :=
  match process.flusher with
  | .idle => machine.serve { process with pendingFiles := process.pendingFiles ++ [path] }
  | _ => machine

/-- A flush with nothing to do returns at once. -/
def beginFlush : Machine Object Upload :=
  match process.flusher with
  | .idle =>
    if process.seq = process.durableSeq ∧ process.pendingFiles = [] then machine
    else machine.serve { process with pendingFiles := [], flusher := .locked }
  | _ => machine

def proceedFlush : Machine Object Upload :=
  match process.flusher with
  | .idle => machine
  | .locked =>
    let tables := { process.current with appliedSeq := process.seq }
    { machine.serve { process with current := tables, flusher := .committed } with
      durable := tables }
  | .committed =>
    { machine.serve { process with durableSeq := process.seq, flusher := .idle } with
      journal := {} }

def kill : Machine Object Upload :=
  { machine with phase := .down, happened := process.foreground.effective }

/-- The replayed entries are committed durably. -/
def openStore : Machine Object Upload :=
  match replayJournal machine.journal machine.durable with
  | .ok tables => { machine with durable := tables, phase := .opening }
  | .error _ => machine

/-- The store serves again; an operation that took effect has happened. -/
def proceedOpen : Machine Object Upload :=
  let process :=
    { current := machine.durable
      nextId := machine.durable.data.nextId
      seq := machine.durable.appliedSeq
      durableSeq := machine.durable.appliedSeq }
  { machine.serve process with
    journal := {}
    acknowledged := machine.acknowledged ++ if machine.happened then machine.inFlight.toList else []
    inFlight := none }

def step (machine : Machine Object Upload) (event : Event Object Upload) : Machine Object Upload :=
  match machine.phase, event with
  | .serving process, .update change advance => machine.beginUpdate process change advance
  | .serving process, .replace data => machine.beginReplace process data
  | .serving process, .proceed => machine.proceed process
  | .serving process, .failWrite fragments => machine.failWrite process fragments
  | .serving process, .noteUnsyncedFile path => machine.noteUnsyncedFile process path
  | .serving process, .flush => machine.beginFlush process
  | .serving process, .proceedFlush => machine.proceedFlush process
  | .serving process, .kill => machine.kill process
  | .opening, .kill => { machine with phase := .down }
  | .opening, .proceedOpen => machine.proceedOpen
  | .down, .openStore => machine.openStore
  | _, _ => machine

end Machine
end Firenook.Storage
