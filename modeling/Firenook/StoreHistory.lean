import Firenook.ReplayWindows

/-!
# Historical reads of the in-memory store

A run of commit requests together with the versions it produced.  The retained
change log is a suffix of all changes, and undoing the changes of one version
leads back to the version before it; so every revision that is still at or above
the change floor can be read back exactly.
-/

namespace Firenook

open List Runs ReplayWindow State Timestamp Nat

variable {state : State} {changes : List Change} {revision : Nat}

/-- One commit request with the clock reading at which it is served. -/
structure Request where
  clock : ClockReading
  writes : List Write

/-- What the store held right after a commit, and the changes it reported. -/
structure Version where
  result : CommitResult
  documents : DocumentMap
  changes : List Change

structure History where
  state : State
  versions : List Version

namespace History

def start (options : StoreOptions) : History := ⟨.new options, [⟨⟨0, .epoch⟩, ∅, []⟩]⟩

variable (history : History) (request : Request)

def step : History :=
  match history.state.commit request.clock request.writes with
  | .ok (result, changes, state) =>
    ⟨state, history.versions ++ [⟨result, state.documents, changes⟩]⟩
  | .error _ => history

def run (options : StoreOptions) (requests : List Request) : History :=
  Runs.run step (start options) requests

/-- The commit time of the request is below the limit of the seconds counter. -/
def BelowTimeLimit : Prop :=
  (history.state.nextCommitTime request.clock).seconds < maxSeconds

def BelowByteLimit : Prop :=
  DocumentsFit (history.state.nextCommitTime request.clock) history.state.documents request.writes

instance (history : History) (request : Request) : Decidable (history.BelowTimeLimit request) :=
  inferInstanceAs (Decidable (_ < _))

instance (history : History) (request : Request) : Decidable (history.BelowByteLimit request) :=
  decidableDocumentsFit _ _ _

end History

open History (step start)

/-! ## Effects of a commit -/

theorem commit_cases {state' : State} {clock : ClockReading} {writes : List Write}
    {result : CommitResult} (success : state.commit clock writes = .ok (result, changes, state')) :
    ∃ planned,
      result = ⟨state.revision + 1, state.nextCommitTime clock⟩ ∧
      Plans (state.revision + 1) (state.nextCommitTime clock) state.documents writes
        planned changes ∧
      state' = installMetadata { state with documents := planned } result changes := by
  obtain ⟨plan, planned, success⟩ := bind_eq_ok.mp success
  simp only [State.plan, State.planWithDocuments] at planned
  split_ifs at planned
  obtain ⟨⟨documents, planChanges⟩, written, planned⟩ := bind_eq_ok.mp planned
  cases planned
  cases success
  exact ⟨documents, rfl, plans_of_planWrites written, rfl⟩

theorem commit_of_planWrites {clock : ClockReading} {writes : List Write}
    {planned : DocumentMap} (room : state.revision + 1 < 2 ^ 64)
    (success : planWrites (state.revision + 1) (state.nextCommitTime clock) state.documents
      writes = .ok (planned, changes)) :
    state.commit clock writes = .ok (⟨state.revision + 1, state.nextCommitTime clock⟩, changes,
      installMetadata { state with documents := planned }
        ⟨state.revision + 1, state.nextCommitTime clock⟩ changes) := by
  simp only [commit, plan, planWithDocuments, if_pos room, success]
  rfl

theorem installMetadata_eq (state : State) (result : CommitResult) (changes : List Change) :
    state.installMetadata result changes =
      { state with
        revision := result.revision
        lastCommitTime := result.commitTime
        collections := state.collections.map fun index => changes.foldl
          (fun index change => updateCollectionIndex index change.key change.after.isSome) index
        collectionGroups := state.collectionGroups.map fun index => changes.foldl
          (fun index change =>
            updateCollectionGroupIndex index change.key change.after.isSome) index
        currentDocuments := changes.foldl applyDocumentTransition state.currentDocuments
        window := changes.foldl (pushChange state.options) state.window
        commitIndex := pushCommitPoint state.options
          (changes.foldl (pushChange state.options) state.window).changeFloor
          state.commitIndex ⟨result.revision, result.commitTime⟩ } := by
  induction changes generalizing state with
  | nil => simp [installMetadata]
  | cons change changes ih =>
    change (state.installChange change).installMetadata result changes = _
    rw [ih]
    simp [installChange, Function.comp_def]

structure Committed (history : History) (request : Request) (next : History)
    (planned : DocumentMap) (changes : List Change) : Prop where
  plans : Plans (history.state.revision + 1) (history.state.nextCommitTime request.clock)
    history.state.documents request.writes planned changes
  versions : next.versions = history.versions ++
    [⟨⟨history.state.revision + 1, history.state.nextCommitTime request.clock⟩, planned, changes⟩]
  options : next.state.options = history.state.options
  revision : next.state.revision = history.state.revision + 1
  lastCommitTime : next.state.lastCommitTime = history.state.nextCommitTime request.clock
  documents : next.state.documents = planned
  collections : next.state.collections = history.state.collections.map fun index =>
    changes.foldl
      (fun index change => updateCollectionIndex index change.key change.after.isSome) index
  collectionGroups : next.state.collectionGroups = history.state.collectionGroups.map
    fun index => changes.foldl
      (fun index change => updateCollectionGroupIndex index change.key change.after.isSome)
      index
  currentDocuments : next.state.currentDocuments =
    changes.foldl applyDocumentTransition history.state.currentDocuments
  window : next.state.window = changes.foldl (pushChange history.state.options) history.state.window
  commitIndex : next.state.commitIndex = pushCommitPoint history.state.options
    next.state.window.changeFloor history.state.commitIndex
    ⟨history.state.revision + 1, history.state.nextCommitTime request.clock⟩

variable {history : History} {request : Request}

theorem committed_of_commit {result : CommitResult}
    (success : history.state.commit request.clock request.writes = .ok (result, changes, state)) :
    ∃ planned, Committed history request (history.step request) planned changes := by
  rw [step, success]
  obtain ⟨planned, rfl, plans, rfl⟩ := commit_cases success
  rw [installMetadata_eq]
  exact ⟨planned, plans, rfl, rfl, rfl, rfl, rfl, rfl, rfl, rfl, rfl, rfl⟩

theorem step_cases (history : History) (request : Request) :
    history.step request = history ∨
      ∃ planned changes, Committed history request (history.step request) planned changes := by
  cases success : history.state.commit request.clock request.writes with
  | error error =>
    rw [step, success]
    exact .inl rfl
  | ok outcome =>
    obtain ⟨planned, committed⟩ := committed_of_commit success
    exact .inr ⟨planned, outcome.2.1, committed⟩

theorem ReplayWindow.Invariant.foldl_pushChange {all : List Change}
    {window : ReplayWindow} (invariant : window.Invariant all revision)
    (options : StoreOptions) (bounded : ∀ change ∈ changes, change.revision ≤ revision) :
    (changes.foldl (ReplayWindow.pushChange options) window).Invariant (all ++ changes) revision ∧
      (window.overBudget options = false →
        (changes.foldl (ReplayWindow.pushChange options) window).overBudget options = false) := by
  induction changes generalizing all window with
  | nil => simpa using invariant
  | cons change changes ih =>
    rw [forall_mem_cons] at bounded
    obtain ⟨kept, within⟩ := ih (invariant.pushChange options bounded.1) bounded.2
    rw [append_assoc] at kept
    exact ⟨kept, fun _ => within (withinBudget_pushChange options invariant change)⟩

/-! ## Invariants of a run -/

/-- Versions are indexed by revision and the window follows their changes. -/
structure Recorded (history : History) : Prop where
  revisions : ∀ (index : Nat) (version : Version),
    history.versions[index]? = some version → version.result.revision = index
  length : history.versions.length = history.state.revision + 1
  latest : ∃ changes, history.versions.getLast? =
    some ⟨⟨history.state.revision, history.state.lastCommitTime⟩, history.state.documents, changes⟩
  changeRevisions : ∀ version ∈ history.versions, ∀ change ∈ version.changes,
    change.revision = version.result.revision
  window : history.state.window.Invariant (history.versions.flatMap Version.changes)
    history.state.revision
  budget : history.state.window.overBudget history.state.options = false
  collections : ∃ index, history.state.collections = some index ∧
    IndexLists collectionKey index history.state.documents
  collectionGroups : ∃ index, history.state.collectionGroups = some index ∧
    IndexLists collectionGroupKey index history.state.documents

theorem recorded_start (options : StoreOptions) : Recorded (.start options) where
  revisions index version atIndex := by
    cases index with
    | zero =>
      cases atIndex
      rfl
    | succ index => simp [start] at atIndex
  length := rfl
  latest := ⟨[], rfl⟩
  changeRevisions version member := by
    cases mem_singleton.mp member
    simp
  window := invariant_emptyAt 0
  budget := by simp [overBudget, start, new, emptyAt]
  collections := ⟨∅, rfl, indexLists_empty _⟩
  collectionGroups := ⟨∅, rfl, indexLists_empty _⟩

theorem Recorded.step (recorded : Recorded history) (request : Request) :
    Recorded (history.step request) := by
  rcases step_cases history request with unchanged | ⟨planned, changes, committed⟩
  · rwa [unchanged]
  have changeRevisions := committed.plans.change_revision
  have window := recorded.window.mono (le_succ history.state.revision)
  have changesBound : ∀ change ∈ changes, change.revision ≤ history.state.revision + 1 :=
    fun change member => (changeRevisions change member).le
  refine ⟨?_, ?_, ?_, ?_, ?_, ?_, ?_, ?_⟩
  · intro index version atIndex
    rw [committed.versions, getElem?_append] at atIndex
    split_ifs at atIndex with older
    · exact recorded.revisions index version atIndex
    · have lengthEq := recorded.length
      obtain ⟨offset, rfl⟩ := Nat.exists_eq_add_of_le (Nat.le_of_not_lt older)
      rw [Nat.add_sub_cancel_left] at atIndex
      cases offset with
      | zero =>
        cases atIndex
        simp [lengthEq]
      | succ offset => simp at atIndex
  · simp [committed.versions, committed.revision, recorded.length]
  · exact ⟨changes, by simp [committed.versions, committed.revision,
      committed.lastCommitTime, committed.documents]⟩
  · intro version member
    rw [committed.versions] at member
    rcases mem_append.mp member with member | member
    · exact recorded.changeRevisions version member
    · cases mem_singleton.mp member
      exact changeRevisions
  · rw [committed.versions, committed.window, committed.revision]
    simpa using (window.foldl_pushChange history.state.options changesBound).1
  · rw [committed.window, committed.options]
    exact (window.foldl_pushChange _ changesBound).2 recorded.budget
  · obtain ⟨index, stored, lists⟩ := recorded.collections
    rw [committed.collections, committed.documents, stored]
    exact ⟨_, rfl, committed.plans.indexLists lists⟩
  · obtain ⟨index, stored, lists⟩ := recorded.collectionGroups
    rw [committed.collectionGroups, committed.documents, stored]
    exact ⟨_, rfl, committed.plans.indexLists lists⟩

theorem recorded_run (options : StoreOptions) (requests : List Request) :
    Recorded (.run options requests) :=
  Runs.invariant_run_unconditional Recorded (fun _ request recorded => recorded.step request)
    (recorded_start options) requests

/-- Undoing the changes of the later version restores a view of the earlier one. -/
def UndoLinks {β : Type} (undo : β → Change → β) (view : Version → β)
    (earlier later : Version) : Prop :=
  later.changes.reverse.foldl undo (view later) = view earlier

variable {version : Version}

/-- Undoing the changes of all newer versions restores a view of the oldest one. -/
theorem undo_versions {β : Type} {undo : β → Change → β} {view : Version → β}
    {newer : List Version} (chain : (version :: newer).IsChain (UndoLinks undo view)) :
    (newer.flatMap Version.changes).reverse.foldl undo
        (view ((version :: newer).getLast (cons_ne_nil _ _))) = view version := by
  induction newer generalizing version with
  | nil => rfl
  | cons next newer ih =>
    obtain ⟨link, chain⟩ := isChain_cons_cons.mp chain
    rw [flatMap_cons, reverse_append, foldl_append, getLast_cons (cons_ne_nil next newer), ih chain]
    exact link

def undoDocument (documents : DocumentMap) (change : Change) : DocumentMap :=
  putDocument documents change.key change.before

/-- Documents carry past commit times, and changes lead back through them. -/
structure TimeLinked (history : History) : Prop where
  updateTimes : ∀ (key : DocumentKey) (document : Document),
    history.state.documents[key]? = some document →
      document.updateTime ≤ history.state.lastCommitTime
  timeBound : history.state.lastCommitTime.seconds < maxSeconds
  linked : history.versions.IsChain (UndoLinks undoDocument Version.documents)

/-- The counters are exact, and changes lead back through exact counters. -/
structure UsageLinked (history : History) : Prop where
  usage : history.state.currentDocuments = documentsUsage history.state.documents
  linked : history.versions.IsChain
    (UndoLinks applyReverseDocumentTransition fun version => documentsUsage version.documents)

theorem lt_nextCommitTime
    (below : state.lastCommitTime.seconds < maxSeconds) (clock : ClockReading) :
    state.lastCommitTime < state.nextCommitTime clock := by
  unfold nextCommitTime
  split_ifs with observed
  · exact observed
  · exact lt_saturatingNextMicrosecond below

theorem timeLinked_start (options : StoreOptions) : TimeLinked (.start options) where
  updateTimes key document stored := by simp [start, new] at stored
  timeBound := by
    change (0 : Int) < maxSeconds
    decide
  linked := isChain_singleton _

theorem usageLinked_start (options : StoreOptions) : UsageLinked (.start options) where
  usage := by simp [start, new, documentsUsage]
  linked := isChain_singleton _

theorem Recorded.isChain_append (recorded : Recorded history)
    {β : Type} {undo : β → Change → β} (view : DocumentMap → β)
    (chain : history.versions.IsChain (UndoLinks undo fun version => view version.documents))
    (link : version.changes.reverse.foldl undo (view version.documents) =
      view history.state.documents) :
    (history.versions ++ [version]).IsChain
      (UndoLinks undo fun version => view version.documents) := by
  refine List.isChain_append.mpr ⟨chain, List.isChain_singleton _, ?_⟩
  intro earlier isLast later isHead
  obtain ⟨changes, latest⟩ := recorded.latest
  cases isLast.symm.trans latest
  cases isHead
  exact link

theorem TimeLinked.step (linked : TimeLinked history) (recorded : Recorded history)
    (below : history.BelowTimeLimit request) : TimeLinked (history.step request) := by
  have later := lt_nextCommitTime linked.timeBound request.clock
  rw [lt_iff_instant] at later
  rcases step_cases history request with unchanged | ⟨planned, changes, committed⟩
  · rwa [unchanged]
  have older : ∀ (key : DocumentKey) (document : Document),
      history.state.documents[key]? = some document →
        document.updateTime.instant < (history.state.nextCommitTime request.clock).instant := by
    intro key document stored
    have := linked.updateTimes key document stored
    rw [le_iff_instant] at this
    omega
  refine ⟨?_, ?_, ?_⟩
  · rw [committed.documents, committed.lastCommitTime]
    refine committed.plans.updateTime_le fun key document stored => ?_
    exact le_iff_instant.mpr (older key document stored).le
  · rw [committed.lastCommitTime]
    exact below
  · rw [committed.versions]
    refine recorded.isChain_append id linked.linked (committed.plans.undo ?_)
    intro key document stored same
    have := older key document stored
    rw [same] at this
    exact lt_irrefl _ this

theorem UsageLinked.step (linked : UsageLinked history) (recorded : Recorded history)
    (below : history.BelowByteLimit request) : UsageLinked (history.step request) := by
  rcases step_cases history request with unchanged | ⟨planned, changes, committed⟩
  · rwa [unchanged]
  obtain ⟨forward, backward⟩ := committed.plans.usage below
  refine ⟨?_, ?_⟩
  · rw [committed.currentDocuments, committed.documents, linked.usage, forward]
  · rw [committed.versions]
    exact recorded.isChain_append documentsUsage linked.linked backward

variable {requests : List Request}

section

variable {options : StoreOptions}

theorem invariant_run_recorded {condition : History → Request → Prop} {Linked : History → Prop}
    (start : Linked (.start options))
    (step : ∀ {history : History} {request}, Linked history → Recorded history →
      condition history request → Linked (history.step request))
    (below : AllSteps History.step condition (.start options) requests) :
    Linked (.run options requests) :=
  (Runs.invariant_run (fun history => Recorded history ∧ Linked history)
    (fun _ request below both => ⟨both.1.step request, step both.2 both.1 below⟩)
    ⟨recorded_start options, start⟩ below).2

theorem timeLinked_run
    (below : AllSteps History.step History.BelowTimeLimit (.start options) requests) :
    TimeLinked (.run options requests) :=
  invariant_run_recorded (timeLinked_start options) TimeLinked.step below

theorem usageLinked_run
    (below : AllSteps History.step History.BelowByteLimit (.start options) requests) :
    UsageLinked (.run options requests) :=
  invariant_run_recorded (usageLinked_start options) UsageLinked.step below

end

/-! ## Reading back a revision -/

section

variable (recorded : Recorded history)
include recorded

theorem Recorded.split_at (atRevision : history.versions[revision]? = some version) :
    ∃ older newer, history.versions = older ++ version :: newer ∧
      history.versions.filter (fun later => revision < later.result.revision) = newer := by
  obtain ⟨inRange, rfl⟩ := List.getElem?_eq_some_iff.mp atRevision
  have revisionAt : ∀ (index : Nat) (bound : index < history.versions.length),
      (history.versions[index]).result.revision = index := fun index bound =>
    recorded.revisions index _ (getElem?_eq_getElem bound)
  have split := take_append_drop (revision + 1) history.versions
  refine ⟨history.versions.take revision, history.versions.drop (revision + 1), ?_, ?_⟩
  · rw [← drop_eq_getElem_cons inRange, take_append_drop]
  · have noneOlder : (history.versions.take (revision + 1)).filter
        (fun later => revision < later.result.revision) = [] := by
      refine filter_eq_nil_iff.mpr fun later member => ?_
      obtain ⟨index, bound, rfl⟩ := mem_iff_getElem.mp member
      rw [length_take] at bound
      simp only [getElem_take, revisionAt, decide_eq_true_eq]
      omega
    have allNewer : (history.versions.drop (revision + 1)).filter
        (fun later => revision < later.result.revision) = history.versions.drop (revision + 1) := by
      refine filter_eq_self.mpr fun later member => ?_
      obtain ⟨index, bound, rfl⟩ := mem_iff_getElem.mp member
      simp only [getElem_drop, revisionAt, decide_eq_true_eq]
      omega
    nth_rewrite 1 [← split]
    rw [filter_append, noneOlder, allNewer, nil_append]

theorem Recorded.exists_version (reached : revision ≤ history.state.revision) :
    ∃ version, history.versions[revision]? = some version ∧ version.result.revision = revision := by
  have inRange : revision < history.versions.length := by
    rw [recorded.length]
    omega
  have atRevision := getElem?_eq_getElem inRange
  exact ⟨_, atRevision, recorded.revisions revision _ atRevision⟩

/-- Above the floor the log holds exactly the changes of the newer versions. -/
theorem Recorded.retained_changes (retained : history.state.window.changeFloor ≤ revision) :
    history.state.window.changeLog.filter (fun change => revision < change.revision) =
      (history.versions.filter fun version => revision < version.result.revision).flatMap
        Version.changes := by
  rw [recorded.window.retains.filter_eq retained]
  have changeRevisions := recorded.changeRevisions
  generalize history.versions = versions at changeRevisions ⊢
  induction versions with
  | nil => rfl
  | cons version versions ih =>
    have rest := ih fun later member => changeRevisions later (by simp [member])
    have own := changeRevisions version (by simp)
    rw [flatMap_cons, filter_append, rest]
    by_cases newer : revision < version.result.revision
    · have kept : version.changes.filter (fun change => revision < change.revision) =
          version.changes := by
        refine filter_eq_self.mpr fun change member => ?_
        simpa [own change member] using newer
      simp [newer, kept]
    · have dropped : version.changes.filter (fun change => revision < change.revision) =
          [] := by
        refine filter_eq_nil_iff.mpr fun change member => ?_
        simpa [own change member] using newer
      simp [newer, dropped]

theorem Recorded.undo_retained (retained : history.state.window.changeFloor ≤ revision)
    (atRevision : history.versions[revision]? = some version)
    {β : Type} {undo : β → Change → β} (view : DocumentMap → β)
    (chain : history.versions.IsChain (UndoLinks undo fun version => view version.documents)) :
    (history.state.undoneChanges revision).foldl undo (view history.state.documents) =
      view version.documents := by
  obtain ⟨older, newer, split, newerEq⟩ := recorded.split_at atRevision
  obtain ⟨changes, latest⟩ := recorded.latest
  have lastEq : ((version :: newer).getLast (cons_ne_nil _ _)).documents =
      history.state.documents := by
    rw [split, getLast?_append_of_ne_nil _ (cons_ne_nil _ _),
      getLast?_eq_getLast_of_ne_nil (cons_ne_nil _ _), Option.some.injEq] at latest
    rw [latest]
  have chain : (version :: newer).IsChain
      (UndoLinks undo fun version => view version.documents) := by
    rw [split] at chain
    exact (List.isChain_append.mp chain).2.1
  rw [undoneChanges, filter_reverse, recorded.retained_changes retained, newerEq, ← lastEq]
  exact undo_versions chain

end

theorem foldl_undoChange (changes : List Change) (documents : DocumentMap)
    (collections : CollectionIndex) (collectionGroups : CollectionGroupIndex) :
    changes.foldl undoChange (documents, collections, collectionGroups) =
      (changes.foldl undoDocument documents,
        changes.foldl (fun index change =>
          updateCollectionIndex index change.key change.before.isSome) collections,
        changes.foldl (fun index change =>
          updateCollectionGroupIndex index change.key change.before.isSome)
          collectionGroups) := by
  induction changes generalizing documents collections collectionGroups with
  | nil => rfl
  | cons change changes ih =>
    rw [foldl_cons, ih]
    rfl

theorem IndexLists.undo {indexKey : DocumentKey → IndexKey}
    {index : Std.ExtTreeMap IndexKey KeySet} {documents : DocumentMap}
    (lists : IndexLists indexKey index documents) (changes : List Change) :
    IndexLists indexKey
      (changes.foldl
        (fun index change => updateIndex indexKey index change.key change.before.isSome) index)
      (changes.foldl undoDocument documents) := by
  induction changes generalizing index documents with
  | nil => exact lists
  | cons change changes ih => exact ih (lists.putDocument change.key change.before)

/-- The snapshot shows a version's documents and lists exactly their keys. -/
structure MemorySnapshot.Shows (snapshot : MemorySnapshot) (version : Version) : Prop where
  revision : snapshot.revision = version.result.revision
  documents : snapshot.documents = version.documents
  collections : IndexLists collectionKey snapshot.collections version.documents
  collectionGroups : IndexLists collectionGroupKey snapshot.collectionGroups version.documents

theorem TimeLinked.snapshotAtRevision (linked : TimeLinked history)
    (recorded : Recorded history) (retained : history.state.window.changeFloor ≤ revision)
    (reached : revision ≤ history.state.revision)
    (atRevision : history.versions[revision]? = some version) :
    ∃ snapshot, history.state.snapshotAtRevision revision = .ok snapshot ∧
      snapshot.Shows version ∧
      snapshot.logicalUsage = history.state.documentUsageAtRevision revision := by
  obtain ⟨collections, collectionsEq, collectionsList⟩ := recorded.collections
  obtain ⟨groups, groupsEq, groupsList⟩ := recorded.collectionGroups
  have documentsEq := recorded.undo_retained retained atRevision id linked.linked
  have undoneCollections := collectionsList.undo (history.state.undoneChanges revision)
  have undoneGroups := groupsList.undo (history.state.undoneChanges revision)
  simp only [id_eq] at documentsEq
  rw [documentsEq] at undoneCollections undoneGroups
  simp only [State.snapshotAtRevision, if_neg (not_lt.mpr reached),
    if_neg (not_lt.mpr retained), collectionsEq, groupsEq, foldl_undoChange, documentsEq]
  exact ⟨_, rfl, ⟨(recorded.revisions revision version atRevision).symm, rfl,
    undoneCollections, undoneGroups⟩, rfl⟩

theorem UsageLinked.documentUsageAtRevision (linked : UsageLinked history)
    (recorded : Recorded history) (retained : history.state.window.changeFloor ≤ revision)
    (atRevision : history.versions[revision]? = some version) :
    history.state.documentUsageAtRevision revision = documentsUsage version.documents := by
  rw [State.documentUsageAtRevision, linked.usage]
  exact recorded.undo_retained retained atRevision documentsUsage linked.linked

/-- Every retained revision reads back as the version committed there, with exact
indexes and usage, and the changes since it are those of all later versions in
commit and write order. -/
def History.ReadsBack (history : History) : Prop :=
  ∀ revision, history.state.window.changeFloor ≤ revision →
    revision ≤ history.state.revision →
    ∃ version, history.versions[revision]? = some version ∧
      version.result.revision = revision ∧
      (∃ snapshot, history.state.snapshotAtRevision revision = .ok snapshot ∧
        snapshot.Shows version ∧
        snapshot.logicalUsage = documentsUsage version.documents) ∧
      history.state.changesSince revision =
        .ok ((history.versions.filter fun later => revision < later.result.revision).flatMap
          Version.changes)

/-- In every run below both limits the eviction loop ends within its budget and all
retained revisions read back. -/
theorem retained_revisions_read_back (options : StoreOptions) (requests : List Request)
    (below : Runs.AllSteps step
      (fun history request =>
        history.BelowTimeLimit request ∧ history.BelowByteLimit request)
      (.start options) requests) :
    (History.run options requests).state.window.overBudget
        (History.run options requests).state.options = false ∧
      (History.run options requests).ReadsBack := by
  have recorded := recorded_run options requests
  have timeLinked := timeLinked_run (below.mono fun _ _ condition => condition.1)
  have usageLinked := usageLinked_run (below.mono fun _ _ condition => condition.2)
  refine ⟨recorded.budget, fun revision retained reached => ?_⟩
  obtain ⟨version, atRevision, revisionEq⟩ := recorded.exists_version reached
  obtain ⟨snapshot, success, shows, usage⟩ :=
    timeLinked.snapshotAtRevision recorded retained reached atRevision
  refine ⟨version, atRevision, revisionEq, ⟨snapshot, success, shows, ?_⟩, ?_⟩
  · rw [usage, usageLinked.documentUsageAtRevision recorded retained atRevision]
  · rw [State.changesSince, if_neg (Nat.not_lt.mpr retained),
      recorded.retained_changes retained]
    rfl

/-! ## Runs at the limits -/

namespace Sample

def database : DatabaseName := ⟨"demo".toList, "(default)".toList, by decide, by decide⟩

def itemA : DocumentKey := ⟨database, "items/a".toList, by decide⟩

def itemB : DocumentKey := ⟨database, "items/b".toList, by decide⟩

def options : StoreOptions := ⟨4096, 64 * 1024 * 1024⟩

def clock : ClockReading := ⟨5, 0, by decide, by decide⟩

def doubleFields (bits : UInt64) : Fields :=
  ⟨[("value".toList, .double ⟨bits⟩)], by simp [Value.ordered, Value.entriesOrdered,
    OrderedEntries.Ascending]⟩

def bytesFields (bytes : List UInt8) : Fields :=
  ⟨[("value".toList, .bytes bytes)], by simp [Value.ordered, Value.entriesOrdered,
    OrderedEntries.Ascending]⟩

def patchDouble (bits : UInt64) : Write :=
  .patch itemA (doubleFields bits) [⟨["value".toList], by decide⟩] [] .none

def storedBits (documents : DocumentMap) : Option UInt64 :=
  documents[itemA]?.bind fun document =>
    match document.fields.entries with
    | [(_, .double value)] => some value.bits
    | _ => none

end Sample

open Sample

theorem retained_revisions_read_back_sample :
    (History.run options
      [⟨⟨5, 0, by decide, by decide⟩, [.create itemA .empty, patchDouble 0]⟩,
        ⟨⟨3, 0, by decide, by decide⟩, [.delete itemA .none]⟩]).ReadsBack :=
  (retained_revisions_read_back _ _ (by decide)).2

/-! ### Past the limits -/

/-- The last representable second: commit times alternate between its last and its
first microsecond. -/
def ClockReading.last : ClockReading := ⟨2 ^ 64 - 1, 999999, by decide, by decide⟩

/-- Writes a zero, commits nothing, and writes a negative zero at the time of the
first commit.  The last write is not logged. -/
def Sample.wrappingRequests : List Request :=
  [⟨.last, [patchDouble 0]⟩, ⟨.last, []⟩, ⟨.last, [patchDouble 0x8000000000000000]⟩]

theorem wrappingRequests_not_readsBack : ¬ (History.run options wrappingRequests).ReadsBack := by
  intro readsBack
  obtain ⟨version, atRevision, _, ⟨snapshot, success, shows, _⟩, _⟩ :=
    readsBack 1 (by decide) (by decide)
  have committed : ((History.run options wrappingRequests).versions[1]?.bind
      fun version => storedBits version.documents) = some 0 := by decide
  have read : (((History.run options wrappingRequests).state.snapshotAtRevision
      1).toOption.bind fun snapshot => storedBits snapshot.documents) =
        some 0x8000000000000000 := by decide
  rw [atRevision] at committed
  rw [success] at read
  simp only [Except.toOption, Option.bind_some, shows.documents] at committed read
  exact absurd (committed.symm.trans read) (by decide)

theorem applyDocumentTransition_le_u64Max {usage : LogicalMemoryUsage}
    (bounded : usage.logicalBytes ≤ u64Max) (change : Change) :
    (applyDocumentTransition usage change).logicalBytes ≤ u64Max := by
  have removed : (removeUsage usage change.key change.before).logicalBytes ≤ u64Max := by
    cases change.before with
    | none => exact bounded
    | some document => exact (sub_le _ _).trans bounded
  unfold applyDocumentTransition
  cases change.after with
  | none => exact removed
  | some document => exact min_le_right _ _

theorem logicalBytes_le_u64Max (options : StoreOptions) (requests : List Request) :
    (History.run options requests).state.currentDocuments.logicalBytes ≤ u64Max := by
  refine Runs.invariant_run_unconditional
    (fun history : History => history.state.currentDocuments.logicalBytes ≤ u64Max) ?_
    (zero_le _) requests
  intro history request bounded
  rcases step_cases history request with unchanged | ⟨planned, changes, committed⟩
  · rwa [unchanged]
  rw [committed.currentDocuments]
  clear committed
  generalize history.state.currentDocuments = usage at bounded
  induction changes generalizing usage with
  | nil => exact bounded
  | cons change changes ih =>
    exact ih _ (applyDocumentTransition_le_u64Max bounded change)

variable (bytes : List UInt8)

def Sample.twoCreates : Request :=
  ⟨⟨1, 0, by decide, by decide⟩,
    [.create itemA (bytesFields bytes), .create itemB (bytesFields bytes)]⟩

theorem planWrites_twoCreates (time : Timestamp) :
    planWrites 1 time ∅ (twoCreates bytes).writes =
      .ok (((∅ : DocumentMap).insert itemA ⟨bytesFields bytes, time, time⟩).insert
        itemB ⟨bytesFields bytes, time, time⟩, [itemA, itemB].map fun key =>
          ⟨1, key, none, some ⟨bytesFields bytes, time, time⟩⟩) := by
  have distinct : itemA ≠ itemB := by decide
  simp [twoCreates, planWrites, applyWrite, nextDocument, writeKey, putDocument,
    optionDocumentEq, distinct, bind, Except.bind, pure, Except.pure]

theorem le_documentEntryLogicalBytes (key : DocumentKey)
    (time : Timestamp) (short : bytes.length < 2 ^ 63) :
    bytes.length + 24 ≤ documentEntryLogicalBytes key ⟨bytesFields bytes, time, time⟩ := by
  simp only [documentEntryLogicalBytes, documentLogicalBytes, fieldsLogicalBytes,
    bytesFields, entriesLogicalBytes, valueLogicalBytes, saturatingAdd, usizeToU64,
    u64Max]
  omega

theorem logicalBytes_le_of_readsBack {options : StoreOptions}
    (readsBack : (History.run options requests).ReadsBack) :
    (documentsUsage (History.run options requests).state.documents).logicalBytes ≤ u64Max := by
  have recorded := recorded_run options requests
  have bounded := logicalBytes_le_u64Max options requests
  generalize History.run options requests = history at readsBack recorded bounded ⊢
  obtain ⟨version, atRevision, _, ⟨snapshot, success, _, usage⟩, _⟩ :=
    readsBack history.state.revision recorded.window.floorBound le_rfl
  have nothingUndone : history.state.undoneChanges history.state.revision = [] := by
    refine filter_eq_nil_iff.mpr fun change member => ?_
    have := recorded.window.logBound change (mem_reverse.mp member)
    simp only [decide_eq_true_eq]
    omega
  have isLatest : version.documents = history.state.documents := by
    obtain ⟨changes, latest⟩ := recorded.latest
    rw [getLast?_eq_getElem?, recorded.length, Nat.add_sub_cancel, atRevision] at latest
    cases latest
    rfl
  simp only [snapshotAtRevision, lt_irrefl,
    if_neg (not_lt.mpr recorded.window.floorBound), nothingUndone,
    documentUsageAtRevision] at success
  cases success
  rw [← isLatest, ← usage]
  exact bounded

theorem logicalBytes_two_documents (first second : Document) :
    (documentsUsage (((∅ : DocumentMap).insert itemA first).insert itemB
      second)).logicalBytes =
      documentEntryLogicalBytes itemA first +
        documentEntryLogicalBytes itemB second := by
  have absent : ((∅ : DocumentMap).insert itemA first)[itemB]? = none := by
    rw [OrderedMaps.getElem?_insert_eq, if_neg (by decide)]
    simp
  simp [documentsUsage, OrderedMaps.total_insert, OrderedMaps.erase_of_absent absent]

theorem twoCreates_not_readsBack {bytes : List UInt8} (long : bytes.length = 2 ^ 63 - 1) :
    ¬ (History.run options [twoCreates bytes]).ReadsBack := by
  intro readsBack
  have fits := logicalBytes_le_of_readsBack readsBack
  have planned := planWrites_twoCreates bytes
    ((start options).state.nextCommitTime (twoCreates bytes).clock)
  simp only [History.run, run, foldl_cons, foldl_nil] at fits
  unfold step at fits
  rw [commit_of_planWrites (by decide) planned, installMetadata_eq] at fits
  generalize (start options).state.nextCommitTime
    (twoCreates bytes).clock = time at fits
  rw [logicalBytes_two_documents] at fits
  have first := le_documentEntryLogicalBytes bytes itemA time (by omega)
  have second := le_documentEntryLogicalBytes bytes itemB time (by omega)
  simp only [u64Max] at fits
  omega

/-- Neither limit can be dropped: one run passes only the time limit and one passes
only the byte limit, and neither reads back. -/
theorem read_back_fails_past_limits :
    (∃ requests, Runs.AllSteps step History.BelowByteLimit
        (.start options) requests ∧
      ¬ (History.run options requests).ReadsBack) ∧
    (∃ requests, Runs.AllSteps step History.BelowTimeLimit
        (.start options) requests ∧
      ¬ (History.run options requests).ReadsBack) :=
  ⟨⟨wrappingRequests, by decide, wrappingRequests_not_readsBack⟩,
    ⟨[twoCreates (replicate (2 ^ 63 - 1) 0)],
      ⟨by decide, trivial⟩,
      twoCreates_not_readsBack length_replicate⟩⟩

end Firenook
