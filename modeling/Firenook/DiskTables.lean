import Firenook.DiskKeys
import Firenook.OverlayMerge
import Firenook.StoreState

/-!
# Disk tables and snapshots

The redb tables as ordered maps from bytes to bytes, the mutations a commit applies
to them, and the reads of a disk snapshot: a table at one moment under an overlay of
undone changes.
-/

namespace Firenook

open ByteOrder

abbrev Table := Std.ExtTreeMap (List UInt8) (List UInt8)

def Table.range (table : Table) (lower upper : List UInt8) : List (List UInt8 × List UInt8) :=
  table.toList.filter fun entry =>
    (compare lower entry.1).isLE && compare entry.1 upper == .lt

structure PersistedMutation where
  key : DocumentKey
  document : Option Document

structure WalRecord where
  revision : Nat
  commitTime : Timestamp
  mutations : List PersistedMutation

def WalRecord.fromPlan (plan : CommitPlan) : WalRecord where
  revision := plan.result.revision
  commitTime := plan.result.commitTime
  mutations := plan.changes.map fun change => ⟨change.key, change.after⟩

structure PersistedState where
  revision : Nat
  lastCommitTime : Timestamp
  deriving DecidableEq

/-- The metadata table holds the encoded state under one key. -/
structure DiskTables where
  documents : Table
  collections : Table
  collectionGroups : Table
  metadata : Option (List UInt8)

def encodePersistedState (state : PersistedState) : List UInt8 :=
  encodeVarint state.revision ++ encodeTimestamp state.lastCommitTime

def decodePersistedState : Decoder PersistedState := do
  let revision ← decodeU64
  let lastCommitTime ← decodeTimestamp
  pure ⟨revision, lastCommitTime⟩

def decodeWhole {α : Type} (decoder : Decoder α) (bytes : List UInt8) : Except DiskError α :=
  match decoder.run bytes with
  | .error error => throw (.decoding error)
  | .ok (value, unread) =>
    if unread.isEmpty then pure value
    else throw (.corrupt "encoded value contains trailing bytes".toList)

namespace DiskTables

def empty : DiskTables := ⟨∅, ∅, ∅, none⟩

variable (tables : DiskTables)

def applyMutation (mutation : PersistedMutation) : Except DiskError DiskTables := do
  let key ← encodeDocumentKey mutation.key
  let collectionKey ← encodeCollectionIndexKey mutation.key
  let collectionGroupKey ← encodeCollectionGroupIndexKey mutation.key
  match mutation.document with
  | some document => do
    let value ← (encodeStoredDocument document).mapError .documentEncoding
    pure { tables with
      documents := tables.documents.insert key value
      collections := tables.collections.insert collectionKey key
      collectionGroups := tables.collectionGroups.insert collectionGroupKey key }
  | none =>
    pure { tables with
      documents := tables.documents.erase key
      collections := tables.collections.erase collectionKey
      collectionGroups := tables.collectionGroups.erase collectionGroupKey }

def applyMutations (tables : DiskTables) : List PersistedMutation → Except DiskError DiskTables
  | [] => pure tables
  | mutation :: mutations => do
    let tables ← tables.applyMutation mutation
    tables.applyMutations mutations

def persistState (revision : Nat) (lastCommitTime : Timestamp) : DiskTables :=
  { tables with metadata := some (encodePersistedState ⟨revision, lastCommitTime⟩) }

def persistRecord (record : WalRecord) : Except DiskError DiskTables := do
  let tables ← tables.applyMutations record.mutations
  pure (tables.persistState record.revision record.commitTime)

def loadDocument (documents : DocumentMap) (key : DocumentKey) : Except DiskError DocumentMap := do
  let encodedKey ← encodeDocumentKey key
  match tables.documents[encodedKey]? with
  | none => pure documents
  | some bytes => do
    let document ← (decodeStoredDocument bytes).mapError .decoding
    pure (documents.insert key document)

def loadWriteDocuments (writes : List Write) : Except DiskError DocumentMap :=
  (Std.ExtTreeSet.ofList (writes.map writeKey)).toList.foldlM tables.loadDocument ∅

end DiskTables

/-! ## Scanned documents -/

/-- A scanned document that is decoded only when its contents are needed. -/
inductive LazyDocument
  | decoded (document : Document)
  | encoded (bytes : List UInt8)

namespace LazyDocument

def field : LazyDocument → List Text → Option Value
  | decoded document, segments => nestedValue document.fields segments
  | encoded bytes, segments => encodedField bytes segments

/-- The decoded document; the source panics on an encoding that does not decode. -/
def intoDocument : LazyDocument → Option Document
  | decoded document => some document
  | encoded bytes => (decodeStoredDocument bytes).toOption

end LazyDocument

inductive DiskDocumentScope
  | database (database : DatabaseName)
  | collection (database : DatabaseName) (collectionPath : Text)
  | collectionGroup (ancestor : Option Text) (collectionId : Text) (database : DatabaseName)

variable (scope : DiskDocumentScope)

namespace DiskDocumentScope

def matchesKey (key : DocumentKey) : Bool :=
  match scope with
  | .database name => key.database == name
  | .collection name collectionPath =>
    key.database == name && directCollectionMatches collectionPath key.path
  | .collectionGroup ancestor collectionId name =>
    key.database == name && immediateCollectionId key.path == some collectionId &&
      ancestor.all fun ancestor => ancestorMatches ancestor key.path

def compareKeys (left right : DocumentKey) : Ordering :=
  match scope with
  | .database _ => compare left right
  | .collection _ _ | .collectionGroup _ _ _ => compareResourcePaths left.path right.path

end DiskDocumentScope

/-! ## Snapshots -/

abbrev Overlay := Std.ExtTreeMap DocumentKey (Option Document)

/-- The source of a scan: the documents table itself, or an index into it. -/
inductive DiskRange
  | documents (range : List (List UInt8 × List UInt8))
  | indexed (documents : Table) (range : List (List UInt8 × List UInt8))
  | empty

def scannedDocument (entry : List UInt8 × List UInt8) : Option (DocumentKey × LazyDocument) :=
  match decodeDocumentKey entry.1 with
  | .error _ => none
  | .ok key => if scope.matchesKey key then some (key, .encoded entry.2) else none

def indexedDocument (documents : Table)
    (entry : List UInt8 × List UInt8) : Option (DocumentKey × LazyDocument) :=
  match decodeDocumentKey entry.2 with
  | .error _ => none
  | .ok key =>
    if scope.matchesKey key then documents[entry.2]?.map fun bytes => (key, .encoded bytes)
    else none

/-- The documents a scan finds; entries that do not decode are skipped. -/
def scannedDocuments : DiskRange → List (DocumentKey × LazyDocument)
  | .documents range => range.filterMap (scannedDocument scope)
  | .indexed documents range => range.filterMap (indexedDocument scope documents)
  | .empty => []

def boundedRange (table : Table) (front : Except DiskError (List UInt8)) :
    Option (List (List UInt8 × List UInt8)) := do
  let front ← front.toOption
  let upper ← prefixSuccessor front
  pure (table.range front upper)

structure DiskSnapshot where
  tables : DiskTables
  overlay : Overlay

namespace DiskSnapshot

variable (snapshot : DiskSnapshot)

def get (key : DocumentKey) : Option Document :=
  match snapshot.overlay[key]? with
  | some document => document
  | none => do
    let encodedKey ← (encodeDocumentKey key).toOption
    let bytes ← snapshot.tables.documents[encodedKey]?
    (decodeStoredDocument bytes).toOption

/-- The overlay entries of a scope in its order; the sort is stable. -/
def scopedOverlay (scope : DiskDocumentScope) : List (DocumentKey × Option LazyDocument) :=
  ((snapshot.overlay.toList.filter fun entry => scope.matchesKey entry.1).mergeSort
    fun left right => (scope.compareKeys left.1 right.1).isLE).map
      fun entry => (entry.1, entry.2.map .decoded)

def iterator (scope : DiskDocumentScope) (source : DiskRange) : List (DocumentKey × LazyDocument) :=
  OverlayMerge.merge scope.compareKeys (snapshot.scopedOverlay scope)
    (scannedDocuments scope source)

variable (database : DatabaseName)

def iterDocuments : List (DocumentKey × LazyDocument) :=
  snapshot.iterator (.database database)
    (((boundedRange snapshot.tables.documents (databasePrefix database)).map
      DiskRange.documents).getD .empty)

def iterCollection (collectionPath : Text) : List (DocumentKey × LazyDocument) :=
  snapshot.iterator (.collection database collectionPath)
    (((boundedRange snapshot.tables.collections
      (collectionIndexPrefix database collectionPath)).map
        (DiskRange.indexed snapshot.tables.documents)).getD .empty)

def iterCollectionGroup
    (collectionId : Text) (ancestor : Option Text) : List (DocumentKey × LazyDocument) :=
  snapshot.iterator (.collectionGroup ancestor collectionId database)
    (((boundedRange snapshot.tables.collectionGroups
      (collectionGroupIndexPrefix database collectionId)).map
        (DiskRange.indexed snapshot.tables.documents)).getD .empty)

/-- Nothing when a stored document does not decode, where the source panics. -/
def documents : Option (List (DocumentKey × Document)) :=
  (snapshot.iterDocuments database).mapM fun (key, document) =>
    document.intoDocument.map fun document => (key, document)

/-- The loop of `stored_databases`; every round passes at least one stored key, so
the number of keys bounds the rounds. -/
def storedDatabasesFrom (table : Table) (upper : List UInt8) : Nat → List UInt8 → List DatabaseName
  | 0, _ => []
  | rounds + 1, lower =>
    if compare lower upper == .lt then
      match (table.range lower upper).head? with
      | none => []
      | some (encodedKey, _) =>
        match decodeDocumentKey encodedKey with
        | .error _ => []
        | .ok key =>
          match (databasePrefix key.database).toOption.bind prefixSuccessor with
          | none => []
          | some next => key.database :: storedDatabasesFrom table upper rounds next
    else []

def storedDatabases (table : Table) (project : Text) : List DatabaseName :=
  match (projectPrefix project).toOption with
  | none => []
  | some lower =>
    match prefixSuccessor lower with
    | none => []
    | some upper => storedDatabasesFrom table upper (table.size + 1) lower

def databases (project : Text) : List DatabaseName :=
  let restored := (snapshot.overlay.toList.filter fun entry =>
    entry.2.isSome && entry.1.database.projectId == project).map fun entry => entry.1.database
  let candidates := Std.ExtTreeSet.ofList
    (restored ++ storedDatabases snapshot.tables.documents project)
  candidates.toList.filter fun database => !(snapshot.iterDocuments database).isEmpty

end DiskSnapshot

/-- The documents to show in place of the current ones at an earlier revision; an
older change replaces a newer one. -/
def historicalOverlay (state : State) (revision : Nat) : Except SnapshotError Overlay :=
  if state.revision < revision then throw (.futureRevision revision state.revision)
  else if revision < state.window.changeFloor then
    throw (.resetRequired ⟨revision, state.window.changeFloor⟩)
  else
    pure ((state.undoneChanges revision).foldl
      (fun overlay change => overlay.insert change.key change.before) ∅)

end Firenook
