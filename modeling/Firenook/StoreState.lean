import Firenook.StoreWrites

/-!
# The in-memory store

The state of the multi-version store: current documents with their collection
indexes, the bounded change log with its replay accounting, and the index of
commit times.  A commit is planned against the current documents and then
installed; historical snapshots are rebuilt by undoing logged changes.
-/

namespace Firenook

open Std

structure StoreOptions where
  maxChangeLogEntries : Nat
  maxChangeLogLogicalBytes : Nat
  deriving DecidableEq

variable (options : StoreOptions)

/-- `State::new` and `State::from_persisted` raise both limits to at least one. -/
def StoreOptions.normalized : StoreOptions :=
  ⟨max options.maxChangeLogEntries 1, max options.maxChangeLogLogicalBytes 1⟩

structure LogicalMemoryUsage where
  entries : Nat
  logicalBytes : Nat
  deriving DecidableEq

structure Change where
  revision : Nat
  key : DocumentKey
  before : Option Document
  after : Option Document

structure CommitPoint where
  revision : Nat
  commitTime : Timestamp
  deriving DecidableEq

structure CommitResult where
  revision : Nat
  commitTime : Timestamp
  deriving DecidableEq

structure DocumentVersion where
  key : DocumentKey
  updateTime : Timestamp
  deriving DecidableEq

structure RetainedVersion where
  references : Nat
  logicalBytes : Nat
  deriving DecidableEq

instance : Ord DocumentVersion where
  compare := compareLex (compareOn fun version => version.key)
    (compareOn fun version => version.updateTime)

instance : TransOrd DocumentVersion := inferInstanceAs (TransCmp (compareLex _ _))

instance : LawfulEqOrd DocumentVersion :=
  lawfulEqCmp_compareLex fun {first second} keyEq timeEq => by
    cases first
    cases second
    simp_all

/-! ## Collection indexes -/

/-- A database with a collection path, or with a collection id. -/
structure IndexKey where
  database : DatabaseName
  collection : Text
  deriving DecidableEq

instance : Ord IndexKey where
  compare := compareLex (compareOn fun index => index.database)
    (compareOn fun index => index.collection.bytes)

instance : TransOrd IndexKey := inferInstanceAs (TransCmp (compareLex _ _))

instance : LawfulEqOrd IndexKey :=
  lawfulEqCmp_compareLex fun {first second} databaseEq collectionEq => by
    cases first
    cases second
    simp_all

abbrev CollectionKey := IndexKey
abbrev CollectionGroupKey := IndexKey

abbrev KeySet := ExtTreeSet DocumentKey
abbrev CollectionIndex := ExtTreeMap CollectionKey KeySet
abbrev CollectionGroupIndex := ExtTreeMap CollectionGroupKey KeySet

/-- The immediate collection of a document; every validated path has one. -/
def collectionKey (key : DocumentKey) : CollectionKey :=
  ⟨key.database, ((key.path.rsplitOnce '/').map Prod.fst).getD []⟩

def collectionGroupKey (key : DocumentKey) : CollectionGroupKey :=
  ⟨key.database, ((key.path.rsplitOnce '/').map fun split => Text.lastPiece '/' split.1).getD []⟩

/-- The keys listed under a scope; a missing entry lists none. -/
def scopeKeys (index : ExtTreeMap IndexKey KeySet) (scope : IndexKey) : KeySet :=
  (index[scope]?).getD ∅

/-- The body shared by the two index updates; an emptied entry is removed. -/
def updateIndex (indexKey : DocumentKey → IndexKey) (index : ExtTreeMap IndexKey KeySet)
    (key : DocumentKey) (present : Bool) : ExtTreeMap IndexKey KeySet :=
  let keys := scopeKeys index (indexKey key)
  let keys := if present then keys.insert key else keys.erase key
  if keys.isEmpty then index.erase (indexKey key) else index.insert (indexKey key) keys

def updateCollectionIndex (index : CollectionIndex) (key : DocumentKey)
    (present : Bool) : CollectionIndex :=
  updateIndex collectionKey index key present

def updateCollectionGroupIndex (index : CollectionGroupIndex) (key : DocumentKey)
    (present : Bool) : CollectionGroupIndex :=
  updateIndex collectionGroupKey index key present

/-! ## Document transitions -/

def putDocument (documents : DocumentMap) (key : DocumentKey) : Option Document → DocumentMap
  | some document => documents.insert key document
  | none => documents.erase key

def optionDocumentEq : Option Document → Option Document → Bool
  | some left, some right => left.eq right
  | none, none => true
  | _, _ => false

variable (usage : LogicalMemoryUsage)

def removeUsage (key : DocumentKey) : Option Document → LogicalMemoryUsage
  | some document =>
    ⟨usage.entries - 1, usage.logicalBytes - documentEntryLogicalBytes key document⟩
  | none => usage

def addUsage (key : DocumentKey) : Option Document → LogicalMemoryUsage
  | some document =>
    ⟨saturatingAdd usage.entries 1,
      saturatingAdd usage.logicalBytes (documentEntryLogicalBytes key document)⟩
  | none => usage

def applyDocumentTransition (change : Change) : LogicalMemoryUsage :=
  addUsage (removeUsage usage change.key change.before) change.key change.after

def applyReverseDocumentTransition (change : Change) : LogicalMemoryUsage :=
  addUsage (removeUsage usage change.key change.after) change.key change.before

def changeMetadataLogicalBytes (change : Change) : Nat :=
  saturatingAdd (documentKeyLogicalBytes change.key) 10

/-! ## The replay window -/

structure ReplayWindow where
  changeLog : List Change
  changeFloor : Nat
  replayVersions : ExtTreeMap DocumentVersion RetainedVersion
  replayVersionsLogicalBytes : Nat
  changeLogLogicalBytes : Nat

namespace ReplayWindow

def emptyAt (floor : Nat) : ReplayWindow := ⟨[], floor, ∅, 0, 0⟩

variable (window : ReplayWindow)

def addReplayVersion (key : DocumentKey) : Option Document → ReplayWindow
  | none => window
  | some document =>
    let version : DocumentVersion := ⟨key, document.updateTime⟩
    let logicalBytes := documentEntryLogicalBytes key document
    match window.replayVersions[version]? with
    | some retained =>
      { window with
        replayVersions := window.replayVersions.insert version
          { retained with references := saturatingAdd retained.references 1 } }
    | none =>
      { window with
        replayVersions := window.replayVersions.insert version ⟨1, logicalBytes⟩
        replayVersionsLogicalBytes := saturatingAdd window.replayVersionsLogicalBytes logicalBytes }

def removeReplayVersion (key : DocumentKey) : Option Document → ReplayWindow
  | none => window
  | some document =>
    let version : DocumentVersion := ⟨key, document.updateTime⟩
    match window.replayVersions[version]? with
    | none => window
    | some retained =>
      if retained.references - 1 = 0 then
        { window with
          replayVersions := window.replayVersions.erase version
          replayVersionsLogicalBytes := window.replayVersionsLogicalBytes - retained.logicalBytes }
      else
        { window with
          replayVersions := window.replayVersions.insert version
            { retained with references := retained.references - 1 } }

def overBudget : Bool :=
  window.changeLog.length > options.maxChangeLogEntries ||
    window.replayVersionsLogicalBytes > options.maxChangeLogLogicalBytes

/-- The body of the eviction loop, with the log already split at its front. -/
def popFront (removed : Change) (rest : List Change) : ReplayWindow :=
  let window :=
    { window with
      changeLog := rest
      changeLogLogicalBytes := window.changeLogLogicalBytes - changeMetadataLogicalBytes removed }
  let window := window.removeReplayVersion removed.key removed.before
  let window := window.removeReplayVersion removed.key removed.after
  { window with changeFloor := max window.changeFloor removed.revision }

/-- The eviction loop over the given log.  The source would spin on an empty log
that is still over budget; `withinBudget_pushChange` excludes that. -/
def evictFrom (window : ReplayWindow) : List Change → ReplayWindow
  | [] => window
  | removed :: rest =>
    if window.overBudget options then
      evictFrom (window.popFront removed rest) rest
    else window

def pushChange (change : Change) : ReplayWindow :=
  let window :=
    { window with
      changeLogLogicalBytes :=
        saturatingAdd window.changeLogLogicalBytes (changeMetadataLogicalBytes change) }
  let window := window.addReplayVersion change.key change.before
  let window := window.addReplayVersion change.key change.after
  let window := { window with changeLog := window.changeLog ++ [change] }
  evictFrom options window window.changeLog

end ReplayWindow

/-! ## Commit times -/

/-- Retained commit times and the point just before them. -/
structure CommitTimeIndex where
  commitTimes : List CommitPoint
  historyFloor : CommitPoint
  deriving DecidableEq

/-- Pops points while the condition holds; the last popped point is the floor. -/
def trimCommitTimes (excess : List CommitPoint → Bool) (historyFloor : CommitPoint) :
    List CommitPoint → CommitTimeIndex
  | [] => ⟨[], historyFloor⟩
  | point :: rest =>
    if excess (point :: rest) then trimCommitTimes excess point rest
    else ⟨point :: rest, historyFloor⟩

def pushCommitPoint (changeFloor : Nat) (index : CommitTimeIndex)
    (point : CommitPoint) : CommitTimeIndex :=
  let index := trimCommitTimes (fun points => points.length > options.maxChangeLogEntries)
    index.historyFloor (index.commitTimes ++ [point])
  trimCommitTimes (fun points => points.head?.any fun point => point.revision ≤ changeFloor)
    index.historyFloor index.commitTimes

/-! ## Store state -/

/-- A reading of the system clock since the Unix epoch; times before the epoch
read as zero. -/
structure ClockReading where
  seconds : Nat
  micros : Nat
  secondsBound : seconds < 2 ^ 64 := by decide
  microsBound : micros < 1000000 := by decide
  deriving DecidableEq

structure State where
  options : StoreOptions
  revision : Nat
  lastCommitTime : Timestamp
  documents : DocumentMap
  collections : Option CollectionIndex
  collectionGroups : Option CollectionGroupIndex
  window : ReplayWindow
  commitIndex : CommitTimeIndex
  currentDocuments : LogicalMemoryUsage

structure CommitPlan where
  result : CommitResult
  documents : DocumentMap
  changes : List Change

structure ResetRequired where
  requested : Nat
  oldestAvailable : Nat
  deriving DecidableEq

inductive SnapshotError
  | futureRevision (requested current : Nat)
  | resetRequired (reset : ResetRequired)
  | readTimeExpired (requested oldestAvailable : Timestamp)
  deriving DecidableEq

structure MemorySnapshot where
  revision : Nat
  documents : DocumentMap
  collections : CollectionIndex
  collectionGroups : CollectionGroupIndex
  logicalUsage : LogicalMemoryUsage

/-- The wall clock as a timestamp; the seconds saturate at `i64::MAX`. -/
def ClockReading.observed (clock : ClockReading) : Timestamp :=
  ⟨min clock.seconds Timestamp.maxSeconds, clock.micros * 1000,
    by simp only [Timestamp.maxSeconds]; omega, by have := clock.microsBound; omega⟩

/-- Plans the writes one after the other.  A transition is recorded only when the
two versions differ under `PartialEq`. -/
def planWrites (revision : Nat) (commitTime : Timestamp) :
    DocumentMap → List Write → Except CommitError (DocumentMap × List Change)
  | documents, [] => pure (documents, [])
  | documents, write :: writes => do
    let (key, next) ← applyWrite documents write commitTime
    let previous := documents[key]?
    let (planned, changes) ← planWrites revision commitTime (putDocument documents key next) writes
    pure (planned,
      if optionDocumentEq previous next then changes
      else ⟨revision, key, previous, next⟩ :: changes)

namespace State

def new : State where
  options := options.normalized
  revision := 0
  lastCommitTime := .epoch
  documents := ∅
  collections := some ∅
  collectionGroups := some ∅
  window := .emptyAt 0
  commitIndex := ⟨[], ⟨0, .epoch⟩⟩
  currentDocuments := ⟨0, 0⟩

/-- The state of a reopened disk store, which keeps no memory indexes. -/
def fromPersisted (revision : Nat) (lastCommitTime : Timestamp)
    (documents : DocumentMap) (currentDocuments : LogicalMemoryUsage) : State where
  options := options.normalized
  revision := revision
  lastCommitTime := lastCommitTime
  documents := documents
  collections := none
  collectionGroups := none
  window := .emptyAt revision
  commitIndex := ⟨[], ⟨revision, lastCommitTime⟩⟩
  currentDocuments := currentDocuments

variable (state : State) (clock : ClockReading)

/-- The observed time, or the microsecond after the last commit. -/
def nextCommitTime : Timestamp :=
  if state.lastCommitTime < clock.observed then clock.observed
  else state.lastCommitTime.saturatingNextMicrosecond

def planWithDocuments (writes : List Write)
    (documents : DocumentMap) : Except CommitError CommitPlan :=
  let commitTime := state.nextCommitTime clock
  if state.revision + 1 < 2 ^ 64 then do
    let revision := state.revision + 1
    let (documents, changes) ← planWrites revision commitTime documents writes
    pure ⟨⟨revision, commitTime⟩, documents, changes⟩
  else throw .revisionExhausted

def plan (writes : List Write) : Except CommitError CommitPlan :=
  state.planWithDocuments clock writes state.documents

/-- One iteration of the loop of `install_metadata`. -/
def installChange (change : Change) : State :=
  { state with
    collections := state.collections.map (updateCollectionIndex · change.key change.after.isSome)
    collectionGroups := state.collectionGroups.map
      (updateCollectionGroupIndex · change.key change.after.isSome)
    currentDocuments := applyDocumentTransition state.currentDocuments change
    window := state.window.pushChange state.options change }

def installMetadata (result : CommitResult) (changes : List Change) : State :=
  let state := { state with revision := result.revision, lastCommitTime := result.commitTime }
  let state := changes.foldl installChange state
  { state with
    commitIndex := pushCommitPoint state.options state.window.changeFloor state.commitIndex
      ⟨result.revision, result.commitTime⟩ }

def install (plan : CommitPlan) : State :=
  installMetadata { state with documents := plan.documents } plan.result plan.changes

/-- Installation on the disk backend, whose documents live in its tables. -/
def installDisk (plan : CommitPlan) : State :=
  installMetadata { state with documents := ∅ } plan.result plan.changes

/-- `Store::commit` on the memory backend. -/
def commit (writes : List Write) : Except CommitError (CommitResult × List Change × State) := do
  let plan ← state.plan clock writes
  pure (plan.result, plan.changes, state.install plan)

def snapshot : MemorySnapshot :=
  ⟨state.revision, state.documents, state.collections.getD ∅,
    state.collectionGroups.getD ∅, state.currentDocuments⟩

def undoneChanges (revision : Nat) : List Change :=
  state.window.changeLog.reverse.filter fun change => revision < change.revision

def documentUsageAtRevision (revision : Nat) : LogicalMemoryUsage :=
  (state.undoneChanges revision).foldl applyReverseDocumentTransition state.currentDocuments

def undoChange (view : DocumentMap × CollectionIndex × CollectionGroupIndex)
    (change : Change) : DocumentMap × CollectionIndex × CollectionGroupIndex :=
  (putDocument view.1 change.key change.before,
    updateCollectionIndex view.2.1 change.key change.before.isSome,
    updateCollectionGroupIndex view.2.2 change.key change.before.isSome)

def snapshotAtRevision (revision : Nat) : Except SnapshotError MemorySnapshot :=
  if state.revision < revision then throw (.futureRevision revision state.revision)
  else if revision < state.window.changeFloor then
    throw (.resetRequired ⟨revision, state.window.changeFloor⟩)
  else
    let view := (state.undoneChanges revision).foldl undoChange
      (state.documents, state.collections.getD ∅, state.collectionGroups.getD ∅)
    pure ⟨revision, view.1, view.2.1, view.2.2, state.documentUsageAtRevision revision⟩

/-- The revision current at a read time: that of the last retained point not after it. -/
def revisionAtTime (readTime : Timestamp) : Nat :=
  ((state.commitIndex.commitTimes.takeWhile fun point => point.commitTime ≤ readTime).getLast?.map
    CommitPoint.revision).getD state.commitIndex.historyFloor.revision

def snapshotAtTime (readTime : Timestamp) : Except SnapshotError MemorySnapshot :=
  if readTime < state.commitIndex.historyFloor.commitTime then
    throw (.readTimeExpired readTime state.commitIndex.historyFloor.commitTime)
  else state.snapshotAtRevision (state.revisionAtTime readTime)

def changesSince (after : Nat) : Except ResetRequired (List Change) :=
  if after < state.window.changeFloor then throw ⟨after, state.window.changeFloor⟩
  else pure (state.window.changeLog.filter fun change => after < change.revision)

end State
end Firenook
