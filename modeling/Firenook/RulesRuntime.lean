import Firenook.EvaluationLaws
import Firenook.QueryEngine
import Firenook.WritePlans

/-!
# Authorization of write batches

The runtime judges a batch against the snapshot before it and a preview of the state
after it: every write gives one request, whose operation is read off the kind of the
write, and all requests must be allowed.  A batch may touch a document several times,
so that the change it makes in the end need not be the change of any single write.
-/

namespace Firenook

open List

def Write.isUpsert : Write → Bool
  | .set _ _ _ _ => true
  | .patch _ _ _ _ _ => true
  | _ => false

def Write.isCreate : Write → Bool
  | .create _ _ => true
  | _ => false

def Write.isDelete : Write → Bool
  | .delete _ _ => true
  | _ => false

section Effects

variable {previous next : Option Document} {commitTime : Timestamp} {write : Write}

theorem nextDocument_of_neither (planned : nextDocument previous commitTime write = .ok next)
    (upsert : write.isUpsert = false) (create : write.isCreate = false) :
    next = previous ∨ next = none := by
  cases write with
  | create | set | patch => simp [Write.isUpsert, Write.isCreate] at upsert create
  | delete key precondition =>
    obtain ⟨_, _, ⟨⟩⟩ := bind_eq_ok.mp planned
    exact .inr rfl
  | verify key precondition =>
    obtain ⟨_, _, ⟨⟩⟩ := bind_eq_ok.mp planned
    exact .inl rfl

theorem isSome_nextDocument (planned : nextDocument previous commitTime write = .ok next)
    (delete : write.isDelete = false) (present : previous.isSome = true) : next.isSome = true := by
  cases write with
  | create key fields =>
    simp only [nextDocument, present] at planned
    cases planned
  | set key fields transforms precondition =>
    obtain ⟨_, _, planned⟩ := bind_eq_ok.mp planned
    obtain ⟨nextFields, _, planned⟩ := bind_eq_ok.mp planned
    split_ifs at planned
    · cases planned
      exact present
    · cases planned
      rfl
  | patch key fields updateMask transforms precondition =>
    obtain ⟨_, _, planned⟩ := bind_eq_ok.mp planned
    obtain ⟨nextFields, _, ⟨⟩⟩ := bind_eq_ok.mp planned
    rfl
  | delete => simp [Write.isDelete] at delete
  | verify key precondition =>
    obtain ⟨_, _, ⟨⟩⟩ := bind_eq_ok.mp planned
    exact present

end Effects

namespace Rules

/-! ## Documents as rules resources -/

mutual

def storeValue : Firenook.Value → Value
  | .null => .null
  | .boolean value => .bool value
  | .integer value => .integer value
  | .double value => .float value
  | .timestamp value => .timestamp value
  | .string value => .string value
  | .bytes value => .bytes value
  | .reference value => .path value
  | .geoPoint latitude longitude => .latLng ⟨latitude, longitude⟩
  | .array values => .list (storeValues values)
  | .map entries => .map (storeEntries entries)
  | .vector values => .list (values.map .float)

def storeValues : List Firenook.Value → List Value
  | [] => []
  | value :: values => storeValue value :: storeValues values

def storeEntries : List (Text × Firenook.Value) → Entries
  | [] => []
  | (name, value) :: entries => (name, storeValue value) :: storeEntries entries

end

def resourceOf (key : DocumentKey) (document : Document) : Resource where
  name := key.toText
  data := storeEntries document.fields.entries
  createTime := some document.createTime
  updateTime := some document.updateTime

def rulesPath (key : DocumentKey) : Text :=
  "/databases/".toList ++ key.database.databaseId ++ "/documents/".toList ++ key.path

/-- A list request for a missing document is about its collection. -/
def evaluationRequest (operation : RequestOperation) (key : DocumentKey) (time : Timestamp)
    (current proposed : Option Document) (query : Query) : EvaluationRequest :=
  { EvaluationRequest.new operation (rulesPath key) time with
    resource := current.map (resourceOf key)
    requestResource := proposed.map (resourceOf key)
    query :=
      if operation = .list ∧ current.isNone ∧ query.scope.isNone then
        { query with scope := (key.path.rsplitOnce '/').map fun split => .collection split.1 }
      else query }

def writeOperation (write : Write) (snapshot : Snapshot) : RequestOperation × DocumentKey :=
  match write with
  | .create key _ => (.create, key)
  | .set key _ _ _ | .patch key _ _ _ _ =>
    (if (snapshot.get key).isSome then .update else .create, key)
  | .delete key _ => (.delete, key)
  | .verify key _ => (.get, key)

/-! ## Document access -/

def nameErrorText : NameError → Text
  | .invalidIdentifier kind value =>
    "invalid ".toList ++ kind ++ " identifier: ".toList ++ value
  | .invalidDocumentPath path => "invalid document path: ".toList ++ path
  | .reservedResourceId resourceId =>
    "Resource id \"".toList ++ resourceId ++ "\" is invalid because it is reserved.".toList

def parseDocumentPath (project path : Text) : Except Text DocumentKey :=
  match Text.stripPrefix "/databases/".toList path with
  | none => .error "rules document path must begin with /databases/".toList
  | some path =>
    match splitOnce "/documents/".toList path with
    | none => .error "rules document path must contain /documents/".toList
    | some (database, document) =>
      ((DatabaseName.new project database).bind fun database =>
        DocumentKey.new database document).mapError nameErrorText

/-- Current and post-write snapshots exposed to rule document access calls. -/
structure SnapshotAccess where
  snapshot : Snapshot
  preview : Option WritePreview
  project : Text

namespace SnapshotAccess

variable (access : SnapshotAccess)

def getAfter (key : DocumentKey) : Option Document :=
  access.preview.elim (access.snapshot.get key) fun preview => preview.get key

def toDocumentAccess : DocumentAccess where
  get _ path := (parseDocumentPath access.project path).map fun key =>
    (access.snapshot.get key).map (resourceOf key)
  getAfter _ path := (parseDocumentPath access.project path).map fun key =>
    (access.getAfter key).map (resourceOf key)

end SnapshotAccess

/-! ## The runtime -/

inductive Authorization
  | owner
  | client (auth : Option Auth)

namespace Authorization

def isOwner : Authorization → Bool
  | .owner => true
  | .client _ => false

def auth : Authorization → Option Auth
  | .owner => none
  | .client auth => auth

end Authorization

/-- The installed rulesets, from the most general to the most specific. -/
structure RulesRuntime where
  default : Option Program
  projects : Std.ExtTreeMap Text Program Text.cmp
  databases : Std.ExtTreeMap DatabaseName Program

namespace RulesRuntime

def installedFor (runtime : RulesRuntime) (database : DatabaseName) : Option Program :=
  runtime.databases[database]?.or (runtime.projects[database.projectId]?.or runtime.default)

end RulesRuntime

def allowedResult : EvaluationResult := ⟨true, none, 0, 0, 0, 0⟩

def bypassed (requests : List EvaluationRequest) : AtomicEvaluationResult :=
  ⟨true, requests.map fun _ => allowedResult, 0, 0⟩

namespace RulesRuntime

variable (libraries : Libraries) (runtime : RulesRuntime) (database : DatabaseName)
  (authorization : Authorization)

def evaluateAtomicContext (requests : List EvaluationRequest) (access : SnapshotAccess) :
    AtomicEvaluationResult :=
  match runtime.installedFor database with
  | none => bypassed requests
  | some rules =>
    if authorization.isOwner then bypassed requests
    else
      evaluateAtomic libraries rules
        (requests.map fun request => { request with auth := authorization.auth })
        access.toDocumentAccess

end RulesRuntime

def writeRequest (snapshot : Snapshot) (preview : WritePreview) (time : Timestamp)
    (write : Write) : EvaluationRequest :=
  let (operation, key) := writeOperation write snapshot
  evaluationRequest operation key time (snapshot.get key) (preview.get key) {}

def RulesRuntime.evaluateWrites (libraries : Libraries) (runtime : RulesRuntime)
    (database : DatabaseName) (authorization : Authorization) (writes : List Write)
    (snapshot : Snapshot) (time : Timestamp) : Except CommitError AtomicEvaluationResult :=
  if writes.isEmpty then pure ⟨true, [], 0, 0⟩
  else do
    let preview ← snapshot.previewWrites writes time
    pure (runtime.evaluateAtomicContext libraries database authorization
      (writes.map (writeRequest snapshot preview time))
      ⟨snapshot, some preview, database.projectId⟩)

/-! ## Net changes -/

/-- The operation that leads from the state before a batch to the state after it. -/
def netOperation (before after : Option Document) : RequestOperation :=
  if before.isNone then .create else if after.isNone then .delete else .update

def netRequest (snapshot : Snapshot) (preview : WritePreview) (time : Timestamp)
    (key : DocumentKey) : EvaluationRequest :=
  evaluationRequest (netOperation (snapshot.get key) (preview.get key)) key time
    (snapshot.get key) (preview.get key) {}

/-- The document existed, is created anew and neither set nor patched, and exists in the end. -/
structure Recreated (snapshot : Snapshot) (preview : WritePreview) (writes : List Write)
    (key : DocumentKey) : Prop where
  before : (snapshot.get key).isSome = true
  after : (preview.get key).isSome = true
  created : ∃ fields, Write.create key fields ∈ writes
  alone : ∀ write ∈ writes, writeKey write = key → write.isUpsert = false

section NetChange

variable {snapshot : Snapshot} {preview : WritePreview} {writes : List Write} {time : Timestamp}
  {key : DocumentKey}

theorem writeOperation_create {write : Write} (create : write.isCreate = true) :
    writeOperation write snapshot = (.create, writeKey write) := by
  cases write <;> first | rfl | simp [Write.isCreate] at create

theorem writeOperation_delete {write : Write} (delete : write.isDelete = true) :
    writeOperation write snapshot = (.delete, writeKey write) := by
  cases write <;> first | rfl | simp [Write.isDelete] at delete

theorem writeOperation_upsert {write : Write} (upsert : write.isUpsert = true) :
    writeOperation write snapshot =
      (if (snapshot.get (writeKey write)).isSome then .update else .create, writeKey write) := by
  cases write <;> first | rfl | simp [Write.isUpsert] at upsert

section

variable (previewed : snapshot.previewWrites writes time = .ok preview)
include previewed

theorem exists_create (before : snapshot.get key = none) (after : preview.get key ≠ none) :
    ∃ write ∈ writes, writeOperation write snapshot = (.create, key) := by
  by_contra unjudged
  apply after
  apply previewWrites_keeps previewed (· = none) _ before
  rintro write member rfl previous next rfl planned
  have notCreate : write.isCreate = false := by
    by_contra create
    exact unjudged ⟨write, member, writeOperation_create (by simpa using create)⟩
  have notUpsert : write.isUpsert = false := by
    by_contra upsert
    exact unjudged ⟨write, member, by
      rw [writeOperation_upsert (by simpa using upsert), before]; rfl⟩
  exact (nextDocument_of_neither planned notUpsert notCreate).elim id id

theorem exists_delete (before : (snapshot.get key).isSome = true) (after : preview.get key = none) :
    ∃ write ∈ writes, writeOperation write snapshot = (.delete, key) := by
  by_contra unjudged
  have present : (preview.get key).isSome = true := by
    apply previewWrites_keeps previewed (·.isSome = true) _ before
    rintro write member rfl previous next present planned
    apply isSome_nextDocument planned _ present
    by_contra delete
    exact unjudged ⟨write, member, writeOperation_delete (by simpa using delete)⟩
  simp [after] at present

theorem exists_update
    (judged : ¬ Recreated snapshot preview writes key) (before : (snapshot.get key).isSome = true)
    (after : (preview.get key).isSome = true) (differs : preview.get key ≠ snapshot.get key) :
    ∃ write ∈ writes, writeOperation write snapshot = (.update, key) := by
  by_contra unjudged
  have noUpsert : ∀ write ∈ writes, writeKey write = key → write.isUpsert = false := by
    rintro write member rfl
    by_contra upsert
    exact unjudged ⟨write, member, by
      rw [writeOperation_upsert (by simpa using upsert), if_pos before]⟩
  have unchanged : preview.get key = snapshot.get key ∨ preview.get key = none := by
    apply previewWrites_keeps previewed (fun state => state = snapshot.get key ∨ state = none) _
      (.inl rfl)
    intro write member named previous next state planned
    have notCreate : write.isCreate = false := by
      cases write with
      | create other fields =>
        obtain rfl : other = key := named
        exact absurd ⟨before, after, ⟨fields, member⟩, noUpsert⟩ judged
      | _ => rfl
    rcases nextDocument_of_neither planned (noUpsert write member named) notCreate with rfl | rfl
    · exact state
    · exact .inr rfl
  rcases unchanged with same | gone
  · exact differs same
  · simp [gone] at after

theorem exists_net_write (judged : ¬ Recreated snapshot preview writes key)
    (differs : preview.get key ≠ snapshot.get key) :
    ∃ write ∈ writes, writeOperation write snapshot =
      (netOperation (snapshot.get key) (preview.get key), key) := by
  cases before : snapshot.get key with
  | none =>
    rw [before] at differs
    exact exists_create previewed before differs
  | some document =>
    cases after : preview.get key with
    | none => exact exists_delete previewed (by simp [before]) after
    | some next => exact exists_update previewed judged (by simp [before]) (by simp [after]) differs

end

end NetChange

/-! ## Authorization -/

/-- The operation's result is the verdict on a request: the installed rules' own, at an
access state that the evaluation of the batch reaches, or the bypass. -/
def Judges (libraries : Libraries) (runtime : RulesRuntime) (database : DatabaseName)
    (authorization : Authorization) (access : SnapshotAccess) (batch : List EvaluationRequest)
    (request : EvaluationRequest) (operation : EvaluationResult) : Prop :=
  match runtime.installedFor database with
  | none => operation = allowedResult
  | some rules =>
    if authorization.isOwner then operation = allowedResult
    else
      ∃ run ∈ runRequests libraries sufficientFuel rules access.toDocumentAccess
          (batch.map fun request => { request with auth := authorization.auth })
          (.new multiRequestAccessLimit),
        operation = (runRequest libraries sufficientFuel rules access.toDocumentAccess
          { request with auth := authorization.auth } run.1).result run.1

/-- The rules allow the request, in the place of one of the batch. -/
def Allows (libraries : Libraries) (runtime : RulesRuntime) (database : DatabaseName)
    (authorization : Authorization) (access : SnapshotAccess) (batch : List EvaluationRequest)
    (request : EvaluationRequest) : Prop :=
  ∃ operation, operation.allowed = true ∧
    Judges libraries runtime database authorization access batch request operation

theorem exists_run {libraries : Libraries} {fuel : Nat} {program : Program}
    {access : DocumentAccess} {requests : List EvaluationRequest} {request : EvaluationRequest}
    (member : request ∈ requests) (state : AccessState) :
    ∃ reached, (reached, runRequest libraries fuel program access request reached) ∈
      runRequests libraries fuel program access requests state := by
  induction requests generalizing state with
  | nil => cases member
  | cons first requests ih =>
    rcases mem_cons.mp member with rfl | member
    · exact ⟨state, mem_cons_self ..⟩
    · obtain ⟨reached, ran⟩ :=
        ih member (runRequest libraries fuel program access first state).state
      exact ⟨reached, mem_cons_of_mem _ ran⟩

section Verdicts

variable (libraries : Libraries) (runtime : RulesRuntime) (database : DatabaseName)
  (authorization : Authorization) (access : SnapshotAccess) {requests : List EvaluationRequest}

theorem evaluateAtomicContext_judges {request : EvaluationRequest} (member : request ∈ requests) :
    ∃ operation ∈ (runtime.evaluateAtomicContext libraries database authorization requests
        access).operations,
      Judges libraries runtime database authorization access requests request operation := by
  unfold RulesRuntime.evaluateAtomicContext Judges
  split
  · exact ⟨allowedResult, mem_map.mpr ⟨request, member, rfl⟩, rfl⟩
  · split_ifs
    · exact ⟨allowedResult, mem_map.mpr ⟨request, member, rfl⟩, rfl⟩
    · obtain ⟨state, ran⟩ := exists_run (mem_map_of_mem member) _
      exact ⟨_, mem_map_of_mem ran, _, ran, rfl⟩

theorem evaluateAtomicContext_allowed :
    (runtime.evaluateAtomicContext libraries database authorization requests access).allowed =
      (runtime.evaluateAtomicContext libraries database authorization requests
        access).operations.all EvaluationResult.allowed := by
  have bypass : (bypassed requests).operations.all EvaluationResult.allowed = true := by
    simp [bypassed, allowedResult]
  unfold RulesRuntime.evaluateAtomicContext
  split
  · exact bypass.symm
  · split_ifs
    · exact bypass.symm
    · rfl

end Verdicts

section Batches

variable (libraries : Libraries) (runtime : RulesRuntime) (database : DatabaseName)
  (authorization : Authorization) (writes : List Write) (snapshot : Snapshot) (time : Timestamp)
  {preview : WritePreview} (previewed : snapshot.previewWrites writes time = .ok preview)
  {result : AtomicEvaluationResult}
  (evaluated : runtime.evaluateWrites libraries database authorization writes snapshot time =
    .ok result)
  (allowed : result.allowed = true)
include previewed evaluated allowed

theorem exists_operation {key : DocumentKey} (judged : ¬ Recreated snapshot preview writes key)
    (differs : preview.get key ≠ snapshot.get key) :
    ∃ operation ∈ result.operations, operation.allowed = true ∧
      Judges libraries runtime database authorization
        ⟨snapshot, some preview, database.projectId⟩ (writes.map (writeRequest snapshot preview time))
        (netRequest snapshot preview time key) operation := by
  obtain ⟨write, member, net⟩ := exists_net_write previewed judged differs
  have nonempty : writes.isEmpty = false := by
    cases writes with
    | nil => cases member
    | cons => rfl
  have sameRequest : writeRequest snapshot preview time write =
      netRequest snapshot preview time key := by
    simp only [writeRequest, net, netRequest]
  rw [RulesRuntime.evaluateWrites, nonempty] at evaluated
  obtain ⟨reached, viewed, ⟨⟩⟩ := bind_eq_ok.mp evaluated
  cases previewed.symm.trans viewed
  obtain ⟨operation, among, verdict⟩ := evaluateAtomicContext_judges libraries runtime database
    authorization ⟨snapshot, some preview, database.projectId⟩ (List.mem_map_of_mem member)
  rw [evaluateAtomicContext_allowed] at allowed
  exact ⟨operation, among, List.all_eq_true.mp allowed operation among, sameRequest ▸ verdict⟩

/-- An allowed batch has judged and allowed the net change of every document that it changes,
other than those it only deletes and creates anew.  So the rules allow every net change exactly
if they allow the updates that these amount to. -/
theorem net_changes_authorized :
    let access : SnapshotAccess := ⟨snapshot, some preview, database.projectId⟩
    let batch := writes.map (writeRequest snapshot preview time)
    (∀ key, preview.get key ≠ snapshot.get key → ¬ Recreated snapshot preview writes key →
      ∃ operation ∈ result.operations, operation.allowed = true ∧
        Judges libraries runtime database authorization access batch
          (netRequest snapshot preview time key) operation) ∧
    ((∀ key, preview.get key ≠ snapshot.get key →
        Allows libraries runtime database authorization access batch
          (netRequest snapshot preview time key)) ↔
      ∀ key, preview.get key ≠ snapshot.get key → Recreated snapshot preview writes key →
        Allows libraries runtime database authorization access batch
          (netRequest snapshot preview time key)) := by
  refine ⟨fun key differs judged => exists_operation libraries runtime database authorization
    writes snapshot time previewed evaluated allowed judged differs,
    fun all key differs _ => all key differs, fun recreated key differs => ?_⟩
  by_cases judged : Recreated snapshot preview writes key
  · exact recreated key differs judged
  · obtain ⟨operation, -, verdict⟩ := exists_operation libraries runtime database authorization
      writes snapshot time previewed evaluated allowed judged differs
    exact ⟨operation, verdict⟩

end Batches

open Firenook.Sample (itemA itemB database)

namespace Sample

/-- `match /{document=**} { allow <methods>: if true; }` -/
def allowing (methods : List RequestOperation) : RulesRuntime where
  default := some
    { service := .cloudFirestore
      rulesVersion := 2
      functions := ∅
      blocks := [⟨[.recursiveWildcard "document".toList], ∅,
        [⟨methods, expr (.bool true)⟩], []⟩] }
  projects := ∅
  databases := ∅

def snapshot : Snapshot :=
  MemorySnapshot.toSnapshot ⟨1, (∅ : DocumentMap).insert itemA
    ⟨.empty, .epoch, .epoch⟩, ∅, ∅, ⟨1, 1⟩⟩

def requestTime : Timestamp := { Timestamp.epoch with seconds := 9, secondsBound := by decide }

def recreation : List Write :=
  [.delete itemA .none, .create itemA .empty]

def recreated : WritePreview :=
  ⟨snapshot, ((∅ : Std.ExtTreeMap DocumentKey (Option Document)).insert itemA
    none).insert itemA (some ⟨.empty, requestTime, requestTime⟩)⟩

theorem recreated_differs : recreated.get itemA ≠ snapshot.get itemA := by
  intro same
  have sameTime := congrArg (Option.map Document.updateTime) same
  revert sameTime
  decide +kernel

/-- A second document is created next to the one that is recreated. -/
def batch : List Write := recreation ++ [.create itemB .empty]

def batched : WritePreview :=
  ⟨snapshot, recreated.pending.insert itemB (some ⟨.empty, requestTime, requestTime⟩)⟩

end Sample

theorem net_changes_authorized_sample :
    (Sample.snapshot.get itemA).isSome = true ∧ (Sample.batched.get itemA).isSome = true ∧
    ∀ key ∈ [itemA, itemB],
      Allows Sample.libraries (Sample.allowing [.create, .update, .delete]) database (.client none)
        ⟨Sample.snapshot, some Sample.batched, database.projectId⟩
        (Sample.batch.map (writeRequest Sample.snapshot Sample.batched Sample.requestTime))
        (netRequest Sample.snapshot Sample.batched Sample.requestTime key) := by
  have allows := (net_changes_authorized Sample.libraries
    (Sample.allowing [.create, .update, .delete]) database (.client none) Sample.batch
    Sample.snapshot Sample.requestTime rfl rfl (by decide +kernel)).2.mpr fun key _ recreated => by
      obtain ⟨fields, member⟩ := recreated.created
      have isItem : key = itemA := by
        have before := recreated.before
        rcases mem_append.mp member with first | second
        · simp_all [Sample.recreation]
        · cases mem_singleton.mp second
          revert before
          decide +kernel
      subst isItem
      exact ⟨_, rfl, _, mem_cons_self .., rfl⟩
  refine ⟨by decide +kernel, by decide +kernel, fun key member => allows key fun same => ?_⟩
  have sameTime := congrArg (Option.map Document.updateTime) same
  revert sameTime
  rcases mem_pair.mp member with rfl | rfl <;> decide +kernel

/-- A client that may only create and delete replaces a document: the change is never
judged as an update. -/
theorem recreated_document_not_judged :
    Sample.snapshot.previewWrites Sample.recreation Sample.requestTime = .ok Sample.recreated ∧
    ∃ result, (Sample.allowing [.create, .delete]).evaluateWrites Sample.libraries database
        (.client none) Sample.recreation Sample.snapshot Sample.requestTime = .ok result ∧
      result.allowed = true ∧
      Sample.recreated.get itemA ≠ Sample.snapshot.get itemA ∧
      ¬ ∃ operation ∈ result.operations, operation.allowed = true ∧
        Judges Sample.libraries (Sample.allowing [.create, .delete]) database (.client none)
          ⟨Sample.snapshot, some Sample.recreated, database.projectId⟩
          (Sample.recreation.map
            (writeRequest Sample.snapshot Sample.recreated Sample.requestTime))
          (netRequest Sample.snapshot Sample.recreated Sample.requestTime itemA)
          operation := by
  refine ⟨rfl, _, rfl, by decide +kernel, Sample.recreated_differs, ?_⟩
  · rintro ⟨operation, -, allowed, run, -, rfl⟩
    exact Bool.false_ne_true allowed

end Rules
end Firenook
