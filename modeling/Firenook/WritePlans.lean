import Firenook.Backends

/-!
# Previews and silent writes

Security Rules see the documents of a write request as a preview, made by a loop of its own
over the written documents.  It shows what planning the same writes would store.  Planning
reports a change only where a document compares different, so that writes that leave their
document as it was can be left out of a commit, unless the document holds a NaN, which
differs from itself.
-/

namespace Firenook

open Std OrderedMaps List

/-! ## Previews -/

variable {documents : DocumentMap} {write : Write} {tables : DiskTables}

structure WritePreview where
  snapshot : Snapshot
  pending : ExtTreeMap DocumentKey (Option Document)

def WritePreview.get (preview : WritePreview) (key : DocumentKey) : Option Document :=
  (preview.pending[key]?).getD (preview.snapshot.get key)

variable (snapshot : Snapshot) (writes : List Write)

def Snapshot.addDocument (documents : DocumentMap) (key : DocumentKey) : DocumentMap :=
  match snapshot.get key with
  | some document => documents.insert key document
  | none => documents

def Snapshot.namedDocuments : DocumentMap := (writes.map writeKey).foldl snapshot.addDocument ∅

def previewFrom (requestTime : Timestamp) :
    DocumentMap → ExtTreeMap DocumentKey (Option Document) → List Write →
      Except CommitError (ExtTreeMap DocumentKey (Option Document))
  | _, pending, [] => pure pending
  | documents, pending, write :: writes => do
    let (key, next) ← applyWrite documents write requestTime
    previewFrom requestTime (putDocument documents key next) (pending.insert key next) writes

def Snapshot.previewWrites (requestTime : Timestamp) : Except CommitError WritePreview := do
  let pending ← previewFrom requestTime (snapshot.namedDocuments writes) ∅ writes
  pure ⟨snapshot, pending⟩

theorem getElem?_foldl_addDocument (keys : List DocumentKey)
    (documents : DocumentMap) (key : DocumentKey) :
    (keys.foldl snapshot.addDocument documents)[key]? =
      if key ∈ keys then (snapshot.get key).or documents[key]? else documents[key]? := by
  induction keys generalizing documents with
  | nil => simp
  | cons other keys ih =>
    rw [foldl_cons, ih, Snapshot.addDocument]
    by_cases same : other = key
    · subst same
      cases found : snapshot.get other <;> simp
    · cases found : snapshot.get other <;> simp [getElem?_insert_eq, same, Ne.symm same]

theorem getElem?_namedDocuments (key : DocumentKey) :
    (snapshot.namedDocuments writes)[key]? =
      if key ∈ writes.map writeKey then snapshot.get key else none := by
  rw [Snapshot.namedDocuments, getElem?_foldl_addDocument]
  simp

variable {writes : List Write}

section Preview

variable {requestTime : Timestamp} {key : DocumentKey}
  {pending final : ExtTreeMap DocumentKey (Option Document)}

theorem previewFrom_keeps {Property : Option Document → Prop} {before : Option Document}
    {documents : DocumentMap}
    (previewed : previewFrom requestTime documents pending writes = .ok final)
    (kept : ∀ write ∈ writes, writeKey write = key → ∀ previous next, Property previous →
      nextDocument previous requestTime write = .ok next → Property next)
    (view : (pending[key]?).getD before = documents[key]?) (holds : Property documents[key]?) :
    Property ((final[key]?).getD before) := by
  induction writes generalizing documents pending with
  | nil =>
    cases previewed
    rwa [view]
  | cons write writes ih =>
    rw [forall_mem_cons] at kept
    obtain ⟨⟨_, next⟩, applied, previewed⟩ := bind_eq_ok.mp previewed
    obtain ⟨_, planned, ⟨⟩⟩ := bind_eq_ok.mp applied
    apply ih previewed kept.2
    · rw [getElem?_insert_eq, getElem?_putDocument]
      split_ifs
      · rfl
      · exact view
    · rw [getElem?_putDocument]
      split_ifs with same
      · subst same
        exact kept.1 rfl _ _ holds planned
      · exact holds

theorem previewFrom_untouched {documents : DocumentMap}
    (previewed : previewFrom requestTime documents pending writes = .ok final)
    (absent : key ∉ writes.map writeKey) : final[key]? = pending[key]? := by
  induction writes generalizing documents pending with
  | nil =>
    cases previewed
    rfl
  | cons write writes ih =>
    obtain ⟨other, later⟩ : key ≠ writeKey write ∧ key ∉ writes.map writeKey := by
      simpa using absent
    obtain ⟨⟨_, next⟩, applied, previewed⟩ := bind_eq_ok.mp previewed
    obtain ⟨_, planned, ⟨⟩⟩ := bind_eq_ok.mp applied
    rw [ih previewed later, getElem?_insert_eq, if_neg (Ne.symm other)]

variable {snapshot : Snapshot} {writes : List Write} {preview : WritePreview}

section

variable (previewed : snapshot.previewWrites writes requestTime = .ok preview)
include previewed

theorem mem_of_previewed
    (differs : preview.get key ≠ snapshot.get key) : key ∈ writes.map writeKey := by
  obtain ⟨pending, loop, ⟨⟩⟩ := bind_eq_ok.mp previewed
  by_contra absent
  apply differs
  simp [WritePreview.get, previewFrom_untouched loop absent]

theorem previewWrites_keeps (Property : Option Document → Prop)
    (kept : ∀ write ∈ writes, writeKey write = key → ∀ previous next, Property previous →
      nextDocument previous requestTime write = .ok next → Property next)
    (holds : Property (snapshot.get key)) : Property (preview.get key) := by
  by_cases member : key ∈ writes.map writeKey
  · obtain ⟨pending, loop, ⟨⟩⟩ := bind_eq_ok.mp previewed
    have start : (snapshot.namedDocuments writes)[key]? = snapshot.get key := by
      rw [getElem?_namedDocuments, if_pos member]
    apply previewFrom_keeps loop kept
    · simp [start]
    · rwa [start]
  · have same : preview.get key = snapshot.get key := by
      by_contra differs
      exact member (mem_of_previewed previewed differs)
    rwa [same]

end

end Preview

/-! ## Previews and plans -/

theorem planWrites_cons {revision : Nat} {time : Timestamp}
    {next : Option Document} (writes : List Write)
    (applied : nextDocument documents[writeKey write]? time write = .ok next) :
    planWrites revision time documents (write :: writes) =
      (planWrites revision time (putDocument documents (writeKey write) next) writes).map
        fun outcome => (outcome.1,
          if optionDocumentEq documents[writeKey write]? next then outcome.2
          else ⟨revision, writeKey write, documents[writeKey write]?, next⟩ :: outcome.2) := by
  rw [planWrites, applyWrite, applied]
  rfl

/-- Both fail alike, or the preview shows the planned documents under the keys. -/
def PreviewMatches (keys : DocumentKey → Prop) :
    Except CommitError WritePreview → Except CommitError CommitPlan → Prop
  | .ok preview, .ok plan => ∀ key, keys key → preview.get key = plan.documents[key]?
  | .error previewed, .error planned => previewed = planned
  | _, _ => False

theorem previewFrom_cases (revision : Nat) (time : Timestamp) {loaded : DocumentMap}
    (agree : ∀ key ∈ writes.map writeKey, loaded[key]? = documents[key]?)
    (pending : ExtTreeMap DocumentKey (Option Document)) :
    (∃ error, previewFrom time loaded pending writes = .error error ∧
        planWrites revision time documents writes = .error error) ∨
      ∃ shown planned changes, previewFrom time loaded pending writes = .ok shown ∧
        planWrites revision time documents writes = .ok (planned, changes) ∧
        ∀ key, shown[key]? =
          if key ∈ writes.map writeKey then some planned[key]? else pending[key]? := by
  induction writes generalizing loaded documents pending with
  | nil => exact .inr ⟨pending, documents, [], rfl, rfl, fun key => by simp⟩
  | cons write writes ih =>
    rw [map_cons, forall_mem_cons] at agree
    cases applied : nextDocument documents[writeKey write]? time write with
    | error error =>
      refine .inl ⟨error, ?_, ?_⟩
      · rw [previewFrom, applyWrite, agree.1, applied]
        rfl
      · rw [planWrites, applyWrite, applied]
        rfl
    | ok next =>
      have previewed : applyWrite loaded write time = .ok (writeKey write, next) := by
        rw [applyWrite, agree.1, applied]
        rfl
      have later : ∀ key ∈ writes.map writeKey,
          (putDocument loaded (writeKey write) next)[key]? =
            (putDocument documents (writeKey write) next)[key]? := by
        intro key member
        rw [getElem?_putDocument, getElem?_putDocument, agree.2 key member]
      rw [previewFrom, previewed, planWrites_cons writes applied]
      rcases ih later (pending.insert (writeKey write) next) with
        ⟨error, shows, plans⟩ | ⟨shown, planned, changes, shows, plans, agrees⟩
      · exact .inl ⟨error, shows, by rw [plans]; rfl⟩
      · refine .inr ⟨shown, planned, _, shows, by rw [plans]; rfl, ?_⟩
        intro key
        rw [agrees key, getElem?_insert_eq, map_cons]
        by_cases inRest : key ∈ writes.map writeKey
        · rw [if_pos inRest, if_pos (mem_cons_of_mem _ inRest)]
        · rw [if_neg inRest]
          by_cases same : writeKey write = key
          · -- no later write touches the document again
            subst same
            have kept := (plans_of_planWrites plans).getElem?_untouched inRest
            rw [if_pos rfl, if_pos mem_cons_self, kept, getElem?_putDocument, if_pos rfl]
          · rw [if_neg same, if_neg]
            intro member
            rcases mem_cons.mp member with equal | member
            · exact same equal.symm
            · exact inRest member

theorem planWithDocuments_of_room {state : State} (room : state.revision + 1 < 2 ^ 64)
    (clock : ClockReading) (writes : List Write) (documents : DocumentMap) :
    state.planWithDocuments clock writes documents =
      (planWrites (state.revision + 1) (state.nextCommitTime clock) documents writes).map
        fun outcome => ⟨⟨state.revision + 1, state.nextCommitTime clock⟩, outcome.1, outcome.2⟩ := by
  simp only [State.planWithDocuments, if_pos room]
  rfl

theorem previewMatches_of_agree {state : State} (room : state.revision + 1 < 2 ^ 64)
    (clock : ClockReading) {snapshot : Snapshot}
    (agree : ∀ key ∈ writes.map writeKey, documents[key]? = snapshot.get key)
    {keys : DocumentKey → Prop}
    (among : ∀ key, keys key → key ∈ writes.map writeKey ∨ documents[key]? = snapshot.get key) :
    PreviewMatches keys (snapshot.previewWrites writes (state.nextCommitTime clock))
      (state.planWithDocuments clock writes documents) := by
  have loaded : ∀ key ∈ writes.map writeKey,
      (snapshot.namedDocuments writes)[key]? = documents[key]? := by
    intro key member
    rw [getElem?_namedDocuments, if_pos member, agree key member]
  rw [planWithDocuments_of_room room]
  rcases previewFrom_cases (state.revision + 1) (state.nextCommitTime clock) loaded ∅ with
    ⟨error, shows, plans⟩ | ⟨shown, planned, changes, shows, plans, agrees⟩
  · rw [Snapshot.previewWrites, shows, plans]
    exact rfl
  · rw [Snapshot.previewWrites, shows, plans]
    intro key inKeys
    change shown[key]?.getD (snapshot.get key) = planned[key]?
    rw [agrees key]
    by_cases member : key ∈ writes.map writeKey
    · rw [if_pos member]
      rfl
    · have untouched := (plans_of_planWrites plans).getElem?_untouched member
      rw [if_neg member, untouched]
      exact ((among key inKeys).resolve_left member).symm

section

variable {snapshot : Snapshot} (live : snapshot.documents = .disk ⟨tables, ∅⟩)
include live

theorem loadDocument_eq_addDocument {result : DocumentMap}
    {key : DocumentKey} (loads : tables.loadDocument documents key = .ok result) :
    result = snapshot.addDocument documents key := by
  obtain ⟨bytes, encoded, loads⟩ := bind_eq_ok.mp loads
  have shown : snapshot.get key =
      tables.documents[bytes]?.bind fun bytes => (decodeStoredDocument bytes).toOption := by
    simp only [Snapshot.get, live, DiskSnapshot.get, encoded]
    rfl
  rw [Snapshot.addDocument, shown]
  cases found : tables.documents[bytes]? with
  | none =>
    rw [found] at loads
    cases loads
    rfl
  | some value =>
    rw [found] at loads
    obtain ⟨document, decodes, loads⟩ := bind_eq_ok.mp loads
    cases loads
    rw [Option.bind_some, mapError_eq_ok.mp decodes]
    rfl

theorem foldlM_loadDocument_eq_foldl {keys : List DocumentKey}
    {before after : DocumentMap} (loads : keys.foldlM tables.loadDocument before = .ok after) :
    after = keys.foldl snapshot.addDocument before := by
  induction keys generalizing before with
  | nil =>
    cases loads
    rfl
  | cons key keys ih =>
    obtain ⟨next, first, rest⟩ := bind_eq_ok.mp loads
    rw [foldl_cons, ← loadDocument_eq_addDocument live first]
    exact ih rest

theorem getElem?_loadWriteDocuments {loaded : DocumentMap}
    (loads : tables.loadWriteDocuments writes = .ok loaded) {key : DocumentKey}
    (member : key ∈ writes.map writeKey) : loaded[key]? = snapshot.get key := by
  rw [foldlM_loadDocument_eq_foldl live loads, getElem?_foldl_addDocument]
  simpa using fun absent =>
    absurd member (by simpa using absent)

end

/-- A preview of writes succeeds and fails as planning the same writes at the same time, and
shows the planned documents: under every key if the plan started from all documents of the
snapshot, and under every written key if it started from those the disk store loads. -/
theorem preview_matches_plan (state : State) (room : state.revision + 1 < 2 ^ 64)
    (clock : ClockReading) (writes : List Write) (snapshot : Snapshot) :
    (∀ documents : DocumentMap, (∀ key, documents[key]? = snapshot.get key) →
      PreviewMatches (fun _ => True)
        (snapshot.previewWrites writes (state.nextCommitTime clock))
        (state.planWithDocuments clock writes documents)) ∧
      ∀ (tables : DiskTables) (loaded : DocumentMap),
        snapshot.documents = .disk ⟨tables, ∅⟩ →
        tables.loadWriteDocuments writes = .ok loaded →
        PreviewMatches (fun key => key ∈ writes.map writeKey)
          (snapshot.previewWrites writes (state.nextCommitTime clock))
          (state.planWithDocuments clock writes loaded) := by
  constructor
  · intro documents agree
    exact previewMatches_of_agree room clock (fun key _ => agree key) fun key _ => .inr (agree key)
  · intro tables loaded live loads
    exact previewMatches_of_agree room clock
      (fun _ member => getElem?_loadWriteDocuments live loads member)
      fun _ member => .inl member

open Sample

def Sample.twoItems : DiskState :=
  ((DiskState.created options true .writeBehind).commitObserved castagnoli clock
    [.create itemA .empty, .create itemB .empty]).1

theorem preview_matches_plan_sample :
    ∃ loaded, twoItems.database.current.loadWriteDocuments [patchDouble 0] =
        .ok loaded ∧
      PreviewMatches (fun key => key ∈ [patchDouble 0].map writeKey)
        (twoItems.snapshot.previewWrites [patchDouble 0]
          (twoItems.memory.nextCommitTime clock))
        (twoItems.memory.planWithDocuments clock [patchDouble 0] loaded) := by
  have succeeds : (twoItems.database.current.loadWriteDocuments
      [patchDouble 0]).isOk = true := by decide +kernel
  cases loads : twoItems.database.current.loadWriteDocuments [patchDouble 0] with
  | error error =>
    rw [loads] at succeeds
    cases succeeds
  | ok loaded =>
    exact ⟨loaded, rfl, (preview_matches_plan twoItems.memory (by decide +kernel)
      clock [patchDouble 0] twoItems.snapshot).2 _ loaded rfl loads⟩

def Sample.plannedFromLoaded (writes : List Write) : Option DocumentMap := do
  let loaded ← (twoItems.database.current.loadWriteDocuments writes).toOption
  let plan ← (twoItems.memory.planWithDocuments clock writes loaded).toOption
  pure plan.documents

/-- The plan of a write to `items/a` from the loaded documents does not hold `items/b`, which
the preview shows; and at the last revision the plan fails. -/
theorem plan_lacks_unwritten_document :
    ((plannedFromLoaded [patchDouble 0]).map fun documents =>
        documents[itemB]?.isSome) = some false ∧
      ((twoItems.snapshot.previewWrites [patchDouble 0]
        (twoItems.memory.nextCommitTime clock)).toOption.map fun preview =>
          (preview.get itemB).isSome) = some true ∧
      ({ twoItems.memory with revision := 2 ^ 64 - 1 }.planWithDocuments clock [patchDouble 0]
        ∅).isOk = false := by
  decide +kernel

/-! ## Writes that leave their document -/

variable (previous : Option Document)

/-- A write whose precondition holds and that asks for the document as it is. -/
def Write.Leaves : Write → Prop
  | .verify key precondition => validatePrecondition key previous precondition = .ok ()
  | .set key fields transforms precondition =>
    validatePrecondition key previous precondition = .ok () ∧ transforms = [] ∧
      previous.map Document.fields = some fields
  | .delete key precondition =>
    validatePrecondition key previous precondition = .ok () ∧ previous.isNone = true
  | .create _ _ => False
  | .patch _ _ _ _ _ => False

def notifyCommitObservers (result : CommitResult) (changes : List Change) :
    Option (CommitResult × List Change) :=
  if changes.isEmpty then none else some (result, changes)

def SelfEqual : Prop := optionDocumentEq previous previous = true

instance decidableSelfEqual (previous : Option Document) : Decidable (SelfEqual previous) :=
  inferInstanceAs (Decidable (_ = true))

theorem nextDocument_of_leaves {previous : Option Document}
    (leaves : write.Leaves previous) (selfEqual : SelfEqual previous) (time : Timestamp) :
    nextDocument previous time write = .ok previous := by
  cases write with
  | create key fields => exact leaves.elim
  | patch key fields mask transforms precondition => exact leaves.elim
  | verify key precondition =>
    have holds : validatePrecondition key previous precondition = .ok () := leaves
    rw [nextDocument, holds]
    rfl
  | delete key precondition =>
    obtain ⟨holds, missing⟩ := leaves
    rw [nextDocument, holds, Option.isNone_iff_eq_none.mp missing]
    rfl
  | set key fields transforms precondition =>
    obtain ⟨holds, rfl, same⟩ := leaves
    obtain ⟨document, rfl, rfl⟩ := Option.map_eq_some_iff.mp same
    have equal : document.fields.eq document.fields = true := by
      have whole : document.eq document = true := selfEqual
      simp only [Document.eq, Bool.and_eq_true] at whole
      exact whole.1.1
    rw [nextDocument, holds]
    change (if (isEmpty [] && document.fields.eq document.fields) = true then _ else _) = _
    rw [equal]
    rfl

theorem planWrites_cons_of_leaves (leaves : write.Leaves documents[writeKey write]?)
    (selfEqual : SelfEqual documents[writeKey write]?) (revision : Nat) (time : Timestamp)
    (writes : List Write) :
    planWrites revision time documents (write :: writes) =
      planWrites revision time documents writes := by
  have same : optionDocumentEq documents[writeKey write]? documents[writeKey write]? = true :=
    selfEqual
  rw [planWrites_cons writes (nextDocument_of_leaves leaves selfEqual time), putDocument_self]
  cases planWrites revision time documents writes with
  | error error => rfl
  | ok outcome =>
    simp only [same]
    rfl

/-- A document that differs from itself is announced as a change, even by a write that leaves it. -/
theorem changes_of_leaves (leaves : write.Leaves documents[writeKey write]?)
    (differs : ¬ SelfEqual documents[writeKey write]?) (revision : Nat) (time : Timestamp) :
    ∃ planned change, planWrites revision time documents [write] = .ok (planned, [change]) := by
  obtain ⟨next, applied, unequal⟩ : ∃ next,
      nextDocument documents[writeKey write]? time write = .ok next ∧
        optionDocumentEq documents[writeKey write]? next = false := by
    generalize documents[writeKey write]? = previous at leaves differs
    have unequal : optionDocumentEq previous previous = false := by
      simpa [SelfEqual] using differs
    cases write with
    | create key fields => exact leaves.elim
    | patch key fields mask transforms precondition => exact leaves.elim
    | verify key precondition =>
      have holds : validatePrecondition key previous precondition = .ok () := leaves
      refine ⟨previous, ?_, unequal⟩
      rw [nextDocument, holds]
      rfl
    | delete key precondition =>
      rw [Option.isNone_iff_eq_none.mp leaves.2] at unequal
      cases unequal
    | set key fields transforms precondition =>
      obtain ⟨holds, rfl, same⟩ := leaves
      obtain ⟨document, rfl, rfl⟩ := Option.map_eq_some_iff.mp same
      have unequal : document.fields.eq document.fields = false := by
        simpa [optionDocumentEq, Document.eq] using unequal
      refine ⟨some ⟨document.fields, document.createTime, time⟩, ?_, ?_⟩
      · rw [nextDocument, holds]
        change (if (isEmpty [] && document.fields.eq document.fields) = true then _ else _) = _
        rw [unequal]
        rfl
      · simp [optionDocumentEq, Document.eq, unequal]
  rw [planWrites_cons [] applied, unequal]
  exact ⟨_, _, rfl⟩

theorem planWrites_append (revision : Nat) (time : Timestamp) (earlier later : List Write)
    (documents : DocumentMap) :
    planWrites revision time documents (earlier ++ later) =
      planWrites revision time documents earlier >>= fun first =>
        planWrites revision time first.1 later >>= fun second =>
          .ok (second.1, first.2 ++ second.2) := by
  induction earlier generalizing documents with
  | nil =>
    change planWrites revision time documents later = planWrites revision time documents later >>= _
    cases planWrites revision time documents later <;> rfl
  | cons write earlier ih =>
    rw [cons_append]
    cases applied : nextDocument documents[writeKey write]? time write with
    | error error =>
      rw [planWrites, planWrites, applyWrite, applied]
      rfl
    | ok next =>
      rw [planWrites_cons _ applied, planWrites_cons _ applied, ih]
      cases planWrites revision time (putDocument documents (writeKey write) next) earlier with
      | error error => rfl
      | ok first =>
        change Except.map _ (planWrites revision time first.1 later >>= _) =
          planWrites revision time first.1 later >>= _
        cases planWrites revision time first.1 later with
        | error error => rfl
        | ok second =>
          split_ifs <;> rfl

/-- A write that leaves its document can be left out of a commit exactly if the document equals
itself: the plan then stays the same, with its changes and what observers are told, and planned
alone the write keeps every document and reaches no observer. -/
theorem unchanged_document_is_silent (state : State) (room : state.revision + 1 < 2 ^ 64)
    (clock : ClockReading) (documents middle : DocumentMap) (earlier later : List Write)
    (write : Write) (changes : List Change)
    (reached : planWrites (state.revision + 1) (state.nextCommitTime clock) documents earlier =
      .ok (middle, changes))
    (leaves : write.Leaves middle[writeKey write]?) :
    (state.planWithDocuments clock (earlier ++ write :: later) documents =
        state.planWithDocuments clock (earlier ++ later) documents ∧
      ∀ plan, state.planWithDocuments clock [write] middle = .ok plan →
        plan.documents = middle ∧ plan.changes = [] ∧
          notifyCommitObservers plan.result plan.changes = none) ↔
    SelfEqual middle[writeKey write]? := by
  refine ⟨fun ⟨_, silent⟩ => ?_, fun selfEqual => ⟨?_, fun plan planned => ?_⟩⟩
  · by_contra differs
    obtain ⟨planned, change, plans⟩ :=
      changes_of_leaves leaves differs (state.revision + 1) (state.nextCommitTime clock)
    rw [planWithDocuments_of_room room, plans] at silent
    cases (silent _ rfl).2.1
  · have dropped : planWrites (state.revision + 1) (state.nextCommitTime clock) documents
        (earlier ++ write :: later) =
          planWrites (state.revision + 1) (state.nextCommitTime clock) documents
            (earlier ++ later) := by
      rw [planWrites_append, planWrites_append, reached]
      change planWrites _ _ middle (write :: later) >>= _ = planWrites _ _ middle later >>= _
      rw [planWrites_cons_of_leaves leaves selfEqual]
    simp only [State.planWithDocuments, dropped]
  · obtain ⟨_, _, planned⟩ := planWithDocuments_ok planned
    rw [planWrites_cons_of_leaves leaves selfEqual] at planned
    obtain ⟨rfl, noChanges⟩ := Prod.mk.inj (Except.ok.inj planned)
    rw [← noChanges]
    exact ⟨rfl, rfl, rfl⟩

def Sample.storedDouble (bits : UInt64) : State :=
  (History.run options [⟨clock, [.create itemA (doubleFields bits)]⟩]).state

def Sample.setDouble (bits : UInt64) : Write := .set itemA (doubleFields bits) [] .none

theorem unchanged_document_is_silent_sample :
    (storedDouble 0).planWithDocuments clock
        ([] ++ setDouble 0 :: [.delete itemB .none])
          (storedDouble 0).documents =
      (storedDouble 0).planWithDocuments clock
        ([] ++ [.delete itemB .none]) (storedDouble 0).documents := by
  have stored : ((storedDouble 0).documents[writeKey (setDouble 0)]?.map
      Document.fields) = some (doubleFields 0) := by rfl
  exact ((unchanged_document_is_silent (storedDouble 0) (by decide +kernel) clock _ _ []
    [.delete itemB .none] (setDouble 0) [] rfl ⟨rfl, rfl, stored⟩).mpr (by decide +kernel)).1

/-- What a commit of one write does to `items/a`: its new update time, the number of
changes, and whether observers are called. -/
def Sample.outcome (state : State) (write : Write) : Option (Option Timestamp × Nat × Bool) :=
  (state.plan clock [write]).toOption.map fun plan =>
    (plan.documents[itemA]?.map Document.updateTime, plan.changes.length,
      (notifyCommitObservers plan.result plan.changes).isSome)

/-- Verifying a document that holds a NaN and storing its fields again are both announced as
a change, and the second gives the document a new update time. -/
theorem nan_document_is_announced :
    let state := storedDouble 0x7ff8000000000000
    let updateTime := state.documents[itemA]?.map Document.updateTime
    (Write.Leaves state.documents[itemA]? (.verify itemA .none) ∧
        outcome state (.verify itemA .none) = some (updateTime, 1, true)) ∧
      Write.Leaves state.documents[itemA]? (setDouble 0x7ff8000000000000) ∧
        ∃ later, later ≠ updateTime ∧
          outcome state (setDouble 0x7ff8000000000000) = some (later, 1, true) := by
  intro state updateTime
  have stored : state.documents[itemA]?.map Document.fields =
      some (doubleFields 0x7ff8000000000000) := by rfl
  refine ⟨⟨rfl, by decide +kernel⟩, ⟨rfl, rfl, stored⟩,
    some (state.nextCommitTime clock), by decide +kernel, by decide +kernel⟩

end Firenook
