import Firenook.RulesRuntime
import Firenook.WriteReports

/-!
# Authorized writes

A write request is judged on a preview of its documents at the time of the request, and then
committed with a reading of the clock of its own.  Both happen under the write lock, which all
other writers take as well, except for the requests that delete documents in bulk.
-/

namespace Firenook

open Document (fields)

/-! ## Requests -/

/-- One commit of `clear_database` or `delete_path`, of documents that a snapshot listed. -/
structure BulkDelete where
  clock : ClockReading
  keys : List DocumentKey

def BulkDelete.run (crc32c : List UInt8 → UInt32) (store : Store) (delete : BulkDelete) : Store :=
  (store.commit crc32c delete.clock (delete.keys.map (.delete · .none))).1

/-- The writes of a stream, with the commits that fall between their verdict and their own
commit. -/
structure StreamWrites where
  authorization : Rules.Authorization
  database : DatabaseName
  decoded : List DecodedWrite
  requestTime : Timestamp
  between : List BulkDelete
  clock : ClockReading

namespace StreamWrites

variable (request : StreamWrites)

def writes : List Write := request.decoded.map DecodedWrite.write

/-- The store that the writes are committed to. -/
def reached (crc32c : List UInt8 → UInt32) (store : Store) : Store :=
  request.between.foldl (BulkDelete.run crc32c) store

end StreamWrites

def requireAtomicRulesAllowed (verdict : Rules.AtomicEvaluationResult) : Except Status Unit :=
  if verdict.allowed then pure ()
  else
    let refused := verdict.operations.find? fun operation => !operation.allowed
    throw (.permissionDenied ((refused.bind fun operation => operation.error).elim
      "Security Rules denied the request".toList fun error => error.message))

namespace FirestoreService

variable (libraries : Rules.Libraries) (runtime : Rules.RulesRuntime) (service : FirestoreService)
  (request : StreamWrites)

def authorizeWrites (snapshot : Snapshot) : Except Status Unit := do
  let verdict ← (runtime.evaluateWrites libraries request.database request.authorization
    request.writes snapshot request.requestTime).mapError fun error => commitStatus (.commit error)
  requireAtomicRulesAllowed verdict

def applyStreamWrites (crc32c : List UInt8 → UInt32) :
    FirestoreService × Except Status CommitResponse :=
  if request.decoded.any fun decoded => decoded.key.database ≠ request.database then
    (service, .error (.invalidArgument "streaming Write belongs to a different database".toList))
  else
    let later := { service with store := request.reached crc32c service.store }
    match authorizeWrites libraries runtime request service.store.snapshot with
    | .error error => (later, .error error)
    | .ok () => later.applyWrites crc32c request.clock request.decoded

end FirestoreService

/-! ## Two evaluations of one write -/

/-- Both times are the same, or the transforms do not read the clock. -/
def Timeless (time time' : Timestamp) (transforms : List FieldTransform) : Prop :=
  time = time' ∨ ∀ transform ∈ transforms, transform.operation ≠ .serverTimestamp

section

variable {time time' : Timestamp}

theorem applyTransform_timeless {transform : FieldTransform}
    (still : Timeless time time' [transform]) (fields : Fields) (key : DocumentKey) :
    applyTransform fields transform time key = applyTransform fields transform time' key := by
  rcases still with rfl | unread
  · rfl
  · obtain ⟨path, operation⟩ := transform
    cases operation with
    | serverTimestamp => exact absurd rfl (unread _ List.mem_cons_self)
    | _ => rfl

theorem applyTransforms_timeless {transforms : List FieldTransform}
    (still : Timeless time time' transforms) (fields : Fields) (key : DocumentKey) :
    applyTransforms fields transforms time key = applyTransforms fields transforms time' key := by
  induction transforms generalizing fields with
  | nil => rfl
  | cons transform transforms ih =>
    simp only [Timeless, List.forall_mem_cons] at still
    rw [applyTransforms, List.foldlM_cons,
      applyTransform_timeless (still.imp_right fun unread => by simpa using unread.1)]
    exact congrArg _ (funext fun next => ih (still.imp_right And.right) next)

theorem fields_nextDocument {previous previous' next next' : Option Document} {write : Write}
    (same : previous.map fields = previous'.map fields)
    (still : Timeless time time' (writeTransforms write))
    (applied : nextDocument previous time write = .ok next)
    (applied' : nextDocument previous' time' write = .ok next') :
    next.map fields = next'.map fields := by
  have sameAny (fields : Fields) : previous.any (·.fields.eq fields) =
      previous'.any (·.fields.eq fields) := by
    have mapped := congrArg (Option.any (·.eq fields)) same
    simpa only [Option.any_map] using mapped
  have sameElim : previous.elim .empty fields = previous'.elim .empty fields := by
    have mapped := congrArg (Option.elim · Fields.empty id) same
    simpa only [Option.elim_map, Function.id_comp] using mapped
  cases write with
  | create key fields =>
    simp only [nextDocument] at applied applied'
    split_ifs at applied applied'
    cases applied
    cases applied'
    rfl
  | set key fields transforms precondition | patch key fields mask transforms precondition =>
    obtain ⟨_, _, applied⟩ := bind_eq_ok.mp applied
    obtain ⟨_, _, applied'⟩ := bind_eq_ok.mp applied'
    obtain ⟨found, transformed, applied⟩ := bind_eq_ok.mp applied
    obtain ⟨found', transformed', applied'⟩ := bind_eq_ok.mp applied'
    simp only [@applyTransforms_timeless _ _ transforms still, sameElim] at transformed
    cases transformed.symm.trans transformed'
    -- only a set can leave the document as it was
    first | rw [sameAny] at applied; split_ifs at applied applied' | skip
    all_goals
      cases applied
      cases applied'
      first | rfl | exact same
  | delete key precondition | verify key precondition =>
    obtain ⟨_, _, ⟨⟩⟩ := bind_eq_ok.mp applied
    obtain ⟨_, _, ⟨⟩⟩ := bind_eq_ok.mp applied'
    first | rfl | exact same

theorem fields_planned {revision revision' : Nat} {writes : List Write}
    (still : ∀ write ∈ writes, Timeless time time' (writeTransforms write))
    {documents documents' planned planned' : DocumentMap} {changes changes' : List Change}
    (plans : Plans revision time documents writes planned changes)
    (plans' : Plans revision' time' documents' writes planned' changes')
    (same : ∀ key : DocumentKey,
      documents[key]?.map fields = documents'[key]?.map fields)
    (key : DocumentKey) :
    planned[key]?.map fields = planned'[key]?.map fields := by
  induction writes generalizing documents documents' changes changes' with
  | nil =>
    cases plans
    cases plans'
    exact same key
  | cons write writes ih =>
    rw [List.forall_mem_cons] at still
    obtain ⟨next, tail, applied, rest⟩ := plans.cons
    obtain ⟨next', tail', applied', rest'⟩ := plans'.cons
    refine ih still.2 rest rest' ?_
    intro other
    rw [getElem?_putDocument, getElem?_putDocument]
    split_ifs
    · exact fields_nextDocument (same _) still.1 applied applied'
    · exact same other

end

/-! ## Stored documents -/

/-- No bulk deletion has taken a document that the request writes, no write reads a clock that has
moved on, and every change is one to the store. -/
structure Steady (crc32c : List UInt8 → UInt32) (store : Store) (request : StreamWrites) : Prop where
  kept : ∀ delete ∈ request.between, ∀ key ∈ delete.keys, key ∈ request.writes.map writeKey →
    store.snapshot.get key = none
  still : ∀ decoded ∈ request.decoded, Timeless request.requestTime
    ((request.reached crc32c store).bookkeeping.nextCommitTime request.clock) decoded.transforms
  apart : ∀ documents, (request.reached crc32c store).Holds documents →
    TellsApart ((request.reached crc32c store).bookkeeping.nextCommitTime request.clock) documents
      request.writes

section Deletions

variable {crc32c : List UInt8 → UInt32} {time : Timestamp} {documents : DocumentMap} {store : Store}

theorem tellsApart_deletes (keys : List DocumentKey) (documents : DocumentMap) :
    TellsApart time documents (keys.map (.delete · .none)) := by
  induction keys generalizing documents with
  | nil => trivial
  | cons key keys ih =>
    refine ⟨fun same => ?_, ih _⟩
    rcases optionDocumentEq_cases same with ⟨gone, -⟩ | ⟨_, _, -, ⟨⟩, -⟩
    exact gone.symm

theorem getElem?_of_deletes {revision : Nat} {keys : List DocumentKey} {planned : DocumentMap}
    {changes : List Change}
    (plans : Plans revision time documents (keys.map (.delete · .none)) planned changes)
    {key : DocumentKey} (kept : key ∈ keys → documents[key]? = none) :
    planned[key]? = documents[key]? := by
  induction keys generalizing documents changes with
  | nil =>
    cases plans
    rfl
  | cons first keys ih =>
    obtain ⟨next, tail, ⟨⟩, rest⟩ := plans.cons
    have same : (putDocument documents first none)[key]? = documents[key]? := by
      rw [getElem?_putDocument]
      split_ifs with isFirst
      · exact (kept (isFirst ▸ List.mem_cons_self)).symm
      · rfl
    rw [← same] at kept ⊢
    exact ih rest fun member => kept (List.mem_cons_of_mem _ member)

theorem holds_of_error {clock : ClockReading} {writes : List Write} {next : Store}
    {error : DiskError}
    (failure : store.commit crc32c clock writes = (next, .error error))
    (holds : store.Holds documents) : next.Holds documents := by
  revert failure
  fun_cases Store.commit crc32c clock writes store
  case case2 =>
    rintro ⟨⟩
    exact holds
  case case4 observed =>
    rintro ⟨⟩
    have database := (DiskState.commitObserved_error (congrArg Prod.snd observed)).2
    rw [observed] at database
    rw [Store.Holds, database]
    exact holds
  all_goals rintro ⟨⟩

theorem holds_run (holds : store.Holds documents) (delete : BulkDelete) :
    ∃ later : DocumentMap, (delete.run crc32c store).Holds later ∧
      ∀ key, (key ∈ delete.keys → documents[key]? = none) → later[key]? = documents[key]? := by
  rcases committed : store.commit crc32c delete.clock (delete.keys.map (.delete · .none)) with
    ⟨next, error | result⟩
  · refine ⟨documents, ?_, fun _ _ => rfl⟩
    rw [BulkDelete.run, committed]
    exact holds_of_error committed holds
  · obtain ⟨_, _, _, planned, changes, final, plans, holdsFinal, isFinal⟩ :=
      Store.commit_ok committed holds
    have isPlanned : final = planned := by
      rcases isFinal with same | mutated
      · exact same
      · rw [mutated, plans.mutatedDocuments_eq (tellsApart_deletes ..)]
    refine ⟨final, by rw [BulkDelete.run, committed]; exact holdsFinal, fun key kept => ?_⟩
    rw [isPlanned, getElem?_of_deletes plans kept]

theorem holds_reached (holds : store.Holds documents) {keys : List DocumentKey}
    (between : List BulkDelete)
    (kept : ∀ delete ∈ between, ∀ key ∈ delete.keys, key ∈ keys → documents[key]? = none) :
    ∃ later : DocumentMap, (between.foldl (BulkDelete.run crc32c) store).Holds later ∧
      ∀ key ∈ keys, later[key]? = documents[key]? := by
  induction between generalizing store documents with
  | nil => exact ⟨documents, holds, fun _ _ => rfl⟩
  | cons delete between ih =>
    rw [List.forall_mem_cons] at kept
    obtain ⟨middle, holdsMiddle, same⟩ := @holds_run crc32c _ _ holds delete
    have sameKeys : ∀ key ∈ keys, middle[key]? = documents[key]? := fun key among =>
      same key fun member => kept.1 key member among
    obtain ⟨later, holdsLater, sameLater⟩ := ih holdsMiddle fun other member key inKeys among => by
      rw [sameKeys key among]
      exact kept.2 other member key inKeys among
    exact ⟨later, holdsLater, fun key among => (sameLater key among).trans (sameKeys key among)⟩

end Deletions

theorem applyStreamWrites_eq {crc32c : List UInt8 → UInt32} {libraries : Rules.Libraries}
    {runtime : Rules.RulesRuntime} {service : FirestoreService} {request : StreamWrites}
    {response : CommitResponse}
    (accepted : (service.applyStreamWrites libraries runtime request crc32c).2 = .ok response) :
    FirestoreService.authorizeWrites libraries runtime request service.store.snapshot = .ok () ∧
      ∃ next result, (request.reached crc32c service.store).commit crc32c request.clock
          request.writes = (next, .ok result) ∧
        (service.applyStreamWrites libraries runtime request crc32c).1.store = next := by
  revert accepted
  fun_cases service.applyStreamWrites libraries runtime request crc32c
  case case3 later authorized =>
    simp only [later, FirestoreService.applyWrites]
    rcases committed : (request.reached crc32c service.store).commit crc32c request.clock
      (request.decoded.map DecodedWrite.write) with ⟨next, outcome⟩
    cases outcome with
    | error error => rintro ⟨⟩
    | ok result => exact fun _ => ⟨authorized, next, result, committed, rfl⟩
  all_goals rintro ⟨⟩

namespace Sample

def countedService : FirestoreService :=
  (emptyService.applyWrites castagnoli clock [increment itemA]).1

variable (between : List BulkDelete)

def counting : StreamWrites :=
  ⟨.client none, database, [increment itemA], Rules.Sample.requestTime, between, clock⟩

def counts : FirestoreService × Except Status CommitResponse :=
  countedService.applyStreamWrites Rules.Sample.libraries (Rules.Sample.allowing [.update])
    (counting between) castagnoli

def countOf (document : Option Document) : Option Int :=
  document.bind fun document => (nestedValue document.fields counter.segments).bind integer?

end Sample

open Sample

end Firenook
