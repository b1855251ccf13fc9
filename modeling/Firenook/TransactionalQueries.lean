import Firenook.StoreSnapshots
import Firenook.Transactions

/-!
# Queries in transactions

A commit validates the documents that the queries of its transaction returned, not the
scopes that they ranged over.  It therefore confirms every returned document, and the
whole result when no other document of the scope has changed.
-/

namespace Firenook

open QueryEngine (Query DatabaseEdition QueryDocument InScope)

namespace Clients

open QueryEngine Clients FirestoreService

def Coverage.queries : Coverage where
  mode readOnly := readOnly = false
  answer
    | .lookups _ => False
    | .query _ _ _ => True

/-- Keys stay apart, times below the limit, and the counter does not wrap. -/
def Bounded (clients : Clients) : ClientEvent → Prop
  | .beginTransaction _ _ _ => clients.service.nextId + 1 < 2 ^ 64
  | .takeId => clients.service.nextId + 1 < 2 ^ 64
  | .commit request =>
    clients.service.store.KeepsApart (request.decoded.map DecodedWrite.write) ∧
      (clients.service.store.bookkeeping.nextCommitTime request.clock).seconds <
        Timestamp.maxSeconds
  | _ => True

/-- The store has settled and every read-write transaction holds an earlier snapshot. -/
structure Settled (clients : Clients) : Prop where
  store : clients.service.store.Settled
  earlier : ∀ (token : List UInt8) (transaction : TransactionState),
    clients.service.transactions[token]? = some transaction → transaction.readOnly = false →
      clients.service.store.Earlier transaction.snapshot

section

variable {clients : Clients} {hypot : Binary64 → Binary64 → Binary64} {edition : DatabaseEdition}
  {crc32c : List UInt8 → UInt32}

theorem settled_start {store : Store} (created : store.Created) : (start store).Settled where
  store := created.settled
  earlier := by simp [start]

theorem Settled.of_service {other : Clients} (settled : clients.Settled)
    (same : other.service = clients.service) : other.Settled := by
  obtain ⟨store, earlier⟩ := settled
  constructor
  · rwa [same]
  · rwa [same]

theorem Settled.read (settled : clients.Settled) {database : DatabaseName} {token : List UInt8}
    {authorize : Snapshot → Bool → Except Status Unit} {proceed : Snapshot → Clients}
    (proceeds : ∀ snapshot, (proceed snapshot).service = clients.service) :
    (clients.read database token authorize proceed).Settled := by
  rw [Clients.read]
  split
  · exact settled
  · split
    · exact settled
    · exact settled.of_service (proceeds _)

theorem store_recordRead (service : FirestoreService) (token : List UInt8) (key : DocumentKey)
    (document : Option Document) :
    (service.recordRead token key document).store = service.store := by
  rw [recordRead]
  split_ifs
  · rfl
  · split <;> rfl

section

variable (settled : clients.Settled)
include settled

theorem Settled.record (index : Nat) : (clients.record index).Settled := by
  rw [Clients.record]
  split
  · exact settled
  · next read _ =>
    split
    · exact settled.of_service rfl
    · constructor
      · rw [store_recordRead]
        exact settled.store
      · intro token transaction found readWrite
        rw [store_recordRead]
        rcases recordRead_cases found with ⟨before, _⟩ | ⟨_, previous, before, rfl⟩
        · exact settled.earlier token transaction before readWrite
        · exact settled.earlier token previous before readWrite

theorem Settled.beginTransaction {database : DatabaseName}
    {mode : TransactionMode} {now : Timestamp} {token : List UInt8} {service : FirestoreService}
    (begun : clients.service.beginTransaction database mode now = .ok (token, service)) :
    Settled { clients with service := service } := by
  rw [FirestoreService.beginTransaction, bind_eq_ok] at begun
  obtain ⟨⟨readOnly, snapshot⟩, begins, begun⟩ := begun
  cases begun
  refine ⟨settled.store, ?_⟩
  intro other transaction found readWrite
  simp only [OrderedMaps.getElem?_insert_eq] at found
  split_ifs at found with same
  · cases found
    -- a transaction that may write sees the current snapshot
    cases mode with
    | readWrite =>
      cases begins
      exact settled.store.earlier
    | readOnly readTime =>
      cases readTime with
      | none =>
        cases begins
        cases readWrite
      | some readTime =>
        simp only [beginSnapshot, bind_eq_ok] at begins
        obtain ⟨_, _, _, _, begins⟩ := begins
        cases begins
        cases readWrite
  · exact settled.earlier other transaction found readWrite

theorem Settled.commit {request : FirestoreService.CommitRequest}
    (bounded : clients.Bounded (.commit request)) :
    Settled { clients with service := (clients.service.commit crc32c request).1 } := by
  obtain ⟨apart, below⟩ := bounded
  have fewer : ∀ (token : List UInt8) (transaction : TransactionState),
      (clients.service.commit crc32c request).1.transactions[token]? = some transaction →
        clients.service.transactions[token]? = some transaction := by
    intro token transaction found
    rcases (commit_frame crc32c clients.service request).1 with same | erased
    · rwa [same] at found
    · rw [erased, OrderedMaps.getElem?_erase] at found
      split_ifs at found
      exact found
  rcases store_commit crc32c clients.service request with sameStore | committed
  · constructor
    · rw [sameStore]
      exact settled.store
    · intro token transaction found readWrite
      rw [sameStore]
      exact settled.earlier token transaction (fewer _ _ found) readWrite
  · constructor
    · rw [committed]
      exact settled.store.commit apart below
    · intro token transaction found readWrite
      rw [committed]
      exact (settled.earlier token transaction (fewer _ _ found) readWrite).commit settled.store

theorem Settled.rollback (database : DatabaseName) (token : List UInt8) :
    Settled { clients with service := (clients.service.rollback database token).1 } := by
  rw [FirestoreService.rollback]
  split
  · exact settled
  · refine ⟨settled.store, ?_⟩
    intro other transaction found readWrite
    simp only [OrderedMaps.getElem?_erase] at found
    split_ifs at found
    exact settled.earlier other transaction found readWrite

theorem Settled.step {event : ClientEvent}
    (bounded : clients.Bounded event) : (clients.step crc32c hypot edition event).Settled := by
  cases event with
  | beginTransaction database mode now =>
    simp only [Clients.step]
    split
    · exact settled
    · next begun => exact settled.beginTransaction begun
  | takeId => exact ⟨settled.store, settled.earlier⟩
  | getDocument key token authorize => exact settled.read (service_getDocument key token)
  | batchGetDocuments database keys token authorize =>
    exact settled.read (service_batchGetDocuments database keys token)
  | runQuery database query token authorize =>
    exact settled.read (service_runQuery database query token)
  | record index => exact settled.record index
  | commit request => exact settled.commit bounded
  | rollback database token => exact settled.rollback database token

theorem Settled.recorded {event : ClientEvent}
    (bounded : clients.Bounded event) : clients.Recorded hypot edition .queries event := by
  cases event with
  | beginTransaction database mode now => exact bounded
  | takeId => exact bounded
  | getDocument key token authorize =>
    intro transaction _ _ isQuery
    exact absurd isQuery not_false
  | runQuery database query token authorize =>
    intro transaction results found readWrite executed result member
    exact get_of_mem_execute (settled.earlier token transaction found readWrite).lists
      executed member
  | _ => trivial

end

theorem settled_run {store : Store} (created : store.Created) {events : List ClientEvent}
    (bounded : Runs.AllSteps (step crc32c hypot edition) Bounded (start store) events) :
    let clients := Runs.run (step crc32c hypot edition) (start store) events
    clients.Settled ∧ Tracks hypot edition .queries clients := by
  apply Runs.invariant_run
    (fun clients : Clients => clients.Settled ∧ Tracks hypot edition .queries clients) _
    ⟨settled_start created, tracks_start store⟩ bounded
  rintro clients event bounded ⟨settled, tracks⟩
  exact ⟨settled.step bounded, tracks.step (settled.recorded bounded)⟩

theorem get_eq_of_shown {store : Store} {snapshot : Snapshot} (earlier : store.Earlier snapshot)
    {key : DocumentKey} (same : shown store.snapshot key = shown snapshot key) :
    snapshot.get key = store.snapshot.get key := by
  rw [shown, shown] at same
  cases before : snapshot.get key with
  | none =>
    rw [before, Option.map_none, Option.map_eq_none_iff] at same
    rw [same]
  | some document =>
    rw [before, Option.map_some, Option.map_eq_some_iff] at same
    obtain ⟨current, found, sameTime⟩ := same
    rw [found, earlier.stable key document current before found sameTime.symm]

end

end Clients

namespace Sample

def lookedUp : List ClientEvent :=
  [.beginTransaction itemA.database .readWrite .epoch,
    .batchGetDocuments itemA.database [itemA] firstToken fun _ _ => .ok (), .record 0, .record 0]

def itemsQuery : Query := { scope := .collection "items".toList }

def queryEvent : ClientEvent := .runQuery itemA.database itemsQuery firstToken fun _ _ => .ok ()

def queriedKeys (clients : Clients) : List DocumentKey :=
  match QueryEngine.execute (fun x _ => x) clients.service.store.snapshot itemA.database itemsQuery
    .standard with
  | .ok (some documents) => documents.map QueryDocument.key
  | _ => []

/-- `items/a` is stored before the transaction begins, so that its query returns it. -/
def stored : List ClientEvent :=
  [.commit (commitRequest [] [increment itemA]),
    .beginTransaction itemA.database .readWrite .epoch]

def queried : List ClientEvent := stored ++ [queryEvent, .record 0, .record 0]

theorem lookupClients_queried :
    ∃ result : QueryDocument, result.key = itemA ∧
      lookupClients queried =
        ⟨(lookupClients stored).service.recordRead firstToken itemA (some result.document), [],
          [(firstToken, .query itemA.database itemsQuery [(itemA, result.document.updateTime)])]⟩ := by
  have keys : queriedKeys (lookupClients stored) = [itemA] := by decide +kernel
  have asked : lookupClients queried =
      (((lookupClients stored).runQuery (fun x _ => x) .standard itemA.database itemsQuery
        firstToken (lookupClients stored).service.store.snapshot).record 0).record 0 := rfl
  rw [asked, Clients.runQuery]
  cases executed : QueryEngine.execute (fun x _ => x) (lookupClients stored).service.store.snapshot
      itemA.database itemsQuery .standard with
  | error failure =>
    rw [queriedKeys, executed] at keys
    cases keys
  | ok found =>
    rw [queriedKeys, executed] at keys
    cases found with
    | none => cases keys
    | some results =>
      obtain ⟨result, rfl, isKey⟩ := List.map_eq_singleton_iff.mp keys
      exact ⟨result, isKey, by simp only [← isKey]; rfl⟩

end Sample

namespace Clients

open Sample

end Clients
end Firenook
