import Firenook.StoreHistory

/-!
# The byte budget of the replay window

The window counts each referenced document version once, under its key and update time.
While no two versions of a document share an update time, and the counters do not saturate,
the counts are exact, so that the distinct versions behind the retained log fit the budget.
A commit that writes a document twice makes two versions with one update time, of which only
the first is counted.
-/

namespace Firenook

open OrderedMaps List ReplayWindow History
open History (step run start)

/-! ## Sums over a table -/

theorem OrderedMaps.sum_le_total {α β γ : Type} {cmp : α → α → Ordering} [Std.TransCmp cmp]
    [Std.LawfulEqCmp cmp] (measure : α → β → Nat) {key : γ → α} {weight : γ → Nat}
    {items : List γ} (distinct : (items.map key).Nodup) {map : Std.ExtTreeMap α β cmp}
    (filed : ∀ item ∈ items, ∃ value, map[key item]? = some value ∧
      measure (key item) value = weight item) :
    (items.map weight).sum ≤ total measure map := by
  classical
  induction items generalizing map with
  | nil => exact Nat.zero_le _
  | cons item items ih =>
    rw [map_cons, nodup_cons] at distinct
    rw [forall_mem_cons] at filed
    obtain ⟨⟨value, stored, measured⟩, others⟩ := filed
    have rest : (items.map weight).sum ≤ total measure (map.erase (key item)) := by
      apply ih distinct.2
      intro other member
      have different : key item ≠ key other := fun same => distinct.1 (same ▸ mem_map_of_mem member)
      rw [getElem?_erase, if_neg different]
      exact others other member
    rw [map_cons, sum_cons, ← total_erase_add measure stored]
    omega

/-! ## References -/

abbrev Reference := DocumentKey × Document

def Reference.version (reference : Reference) : DocumentVersion :=
  ⟨reference.1, reference.2.updateTime⟩

def Reference.logicalBytes (reference : Reference) : Nat :=
  documentEntryLogicalBytes reference.1 reference.2

def documentReferences (key : DocumentKey) (document : Option Document) : List Reference :=
  document.toList.map fun document => (key, document)

def changeReferences (change : Change) : List Reference :=
  documentReferences change.key change.before ++ documentReferences change.key change.after

def logReferences (log : List Change) : List Reference := log.flatMap changeReferences

def ToldApart (known : Reference → Prop) : Prop :=
  ∀ first second, known first → known second → first.version = second.version → first = second

variable (options : StoreOptions) {key : DocumentKey} {document : Option Document}

namespace ReplayWindow

def Named (known : Reference → Prop) (window : ReplayWindow) : Prop :=
  ∀ version retained, window.replayVersions[version]? = some retained →
    ∃ reference, known reference ∧ reference.version = version ∧
      retained.logicalBytes = reference.logicalBytes

/-- The window counts every reference, and counts the bytes of every version once. -/
structure Exact (references : List Reference) (window : ReplayWindow) : Prop where
  counts : ∀ version, (window.replayVersions[version]?).elim 0 RetainedVersion.references =
    (references.map Reference.version).count version
  positive : ∀ (version : DocumentVersion) (retained : RetainedVersion),
    window.replayVersions[version]? = some retained → 1 ≤ retained.references
  sizes : ∀ reference ∈ references, ∀ retained,
    window.replayVersions[reference.version]? = some retained →
      retained.logicalBytes = reference.logicalBytes
  bytes : window.replayVersionsLogicalBytes =
    total (fun _ retained => retained.logicalBytes) window.replayVersions

section

variable {references : List Reference} {window : ReplayWindow} {reference : Reference}
  {known : Reference → Prop}

section

variable (exact : Exact references window)
include exact

theorem Exact.retained (member : reference ∈ references) :
    ∃ retained, window.replayVersions[reference.version]? = some retained ∧
      retained.logicalBytes = reference.logicalBytes := by
  have counted := exact.counts reference.version
  have occurs := count_pos_iff.mpr (mem_map_of_mem (f := Reference.version) member)
  cases stored : window.replayVersions[reference.version]? with
  | none =>
    rw [stored] at counted
    simp only [Option.elim_none] at counted
    omega
  | some retained => exact ⟨retained, rfl, exact.sizes reference member retained stored⟩

/-- The distinct versions behind the references take at most the counted bytes. -/
theorem Exact.sum_le (toldApart : ToldApart (· ∈ references)) {versions : List Reference}
    (distinct : versions.Nodup) (among : ∀ version ∈ versions, version ∈ references) :
    (versions.map Reference.logicalBytes).sum ≤ window.replayVersionsLogicalBytes := by
  have distinctVersions : (versions.map Reference.version).Nodup := by
    apply Nodup.map_on _ distinct
    intro first firstMember second secondMember same
    exact toldApart first second (among first firstMember) (among second secondMember) same
  rw [exact.bytes]
  apply sum_le_total _ distinctVersions
  intro reference member
  exact exact.retained (among reference member)

theorem Exact.named (isKnown : ∀ reference ∈ references, known reference) :
    window.Named known := by
  intro version retained stored
  have counted := exact.counts version
  have positive := exact.positive version retained stored
  rw [stored, Option.elim_some] at counted
  have occurs : version ∈ references.map Reference.version := count_pos_iff.mp (by omega)
  obtain ⟨reference, member, rfl⟩ := mem_map.mp occurs
  exact ⟨reference, isKnown reference member, rfl, exact.sizes reference member retained stored⟩

end

theorem Balanced.toExact (balanced : Balanced True (references.map Reference.version) window)
    (named : window.Named known) (toldApart : ToldApart known)
    (isKnown : ∀ reference ∈ references, known reference) : Exact references window where
  counts version := (balanced.counts version).2 trivial
  positive := balanced.positive
  sizes reference member retained stored := by
    obtain ⟨other, otherKnown, same, size⟩ := named reference.version retained stored
    rw [size, toldApart other reference otherKnown (isKnown reference member) same]
  bytes := balanced.bytes.2 trivial

section

variable (named : window.Named known)
include named

theorem Named.addReplayVersion (added : ∀ contents, document = some contents → known (key, contents)) :
    (window.addReplayVersion key document).Named known := by
  cases document with
  | none => exact named
  | some document =>
    intro version retained found
    simp only [ReplayWindow.addReplayVersion] at found
    split at found <;> rw [getElem?_insert_eq] at found <;> split_ifs at found with same
    · next stored =>
      cases found
      obtain ⟨reference, isKnown, version, size⟩ := named _ _ stored
      exact ⟨reference, isKnown, version.trans same, size⟩
    · exact named version retained found
    · cases found
      exact ⟨(key, document), added document rfl, same, rfl⟩
    · exact named version retained found

theorem Named.removeReplayVersion : (window.removeReplayVersion key document).Named known := by
  cases document with
  | none => exact named
  | some document =>
    intro version retained found
    simp only [ReplayWindow.removeReplayVersion] at found
    split at found
    · exact named version retained found
    · next stored =>
      split_ifs at found
      · rw [getElem?_erase] at found
        split_ifs at found
        exact named version retained found
      · rw [getElem?_insert_eq] at found
        split_ifs at found with same
        · cases found
          obtain ⟨reference, isKnown, version, size⟩ := named _ _ stored
          exact ⟨reference, isKnown, version.trans same, size⟩
        · exact named version retained found

end

end

/-! ## Pushing changes -/

section

variable {window : ReplayWindow} {known : Reference → Prop}

theorem map_version_logReferences (log : List Change) :
    (logReferences log).map Reference.version = log.flatMap changeVersions := by
  rw [logReferences, map_flatMap]
  refine congrArg (log.flatMap ·) (funext fun change => ?_)
  simp [changeReferences, documentReferences, changeVersions, Function.comp_def, Reference.version]

theorem length_changeVersions_le (log : List Change) :
    (log.flatMap changeVersions).length ≤ 2 * log.length := by
  induction log with
  | nil => exact le_rfl
  | cons change log ih =>
    have before := Option.length_toList_le (o := change.before)
    have after := Option.length_toList_le (o := change.after)
    rw [flatMap_cons, length_append, changeVersions, length_map, length_append, length_cons]
    omega

/-- The window counts the versions of its log, and all of them are known. -/
structure Tracks (known : Reference → Prop) (window : ReplayWindow) : Prop where
  exact : Exact (logReferences window.changeLog) window
  isKnown : ∀ reference ∈ logReferences window.changeLog, known reference

/-- What pushes keep whether or not the known versions are told apart. -/
structure Files (known : Reference → Prop) (window : ReplayWindow) : Prop where
  balanced : BalancedLog True window
  named : window.Named known
  isKnown : ∀ reference ∈ logReferences window.changeLog, known reference

theorem tracks_iff (toldApart : ToldApart known) : Tracks known window ↔ Files known window := by
  constructor
  · intro tracks
    refine ⟨⟨tracks.exact.positive, fun version => ?_, tracks.exact.bytes.le,
      fun _ => tracks.exact.bytes⟩, tracks.exact.named tracks.isKnown, tracks.isKnown⟩
    rw [← map_version_logReferences, ← tracks.exact.counts version]
    exact ⟨le_rfl, fun _ => rfl⟩
  · intro files
    refine ⟨Balanced.toExact ?_ files.named toldApart files.isKnown, files.isKnown⟩
    rw [map_version_logReferences]
    exact files.balanced

section

variable (files : Files known window)
include files

theorem Files.popFront {removed : Change} {rest : List Change}
    (log : window.changeLog = removed :: rest) : Files known (window.popFront removed rest) where
  balanced := files.balanced.popFront log
  named := Named.removeReplayVersion (Named.removeReplayVersion files.named)
  isKnown reference member := by
    have later : reference ∈ logReferences rest := by simpa [ReplayWindow.popFront] using member
    apply files.isKnown
    rw [log, logReferences, flatMap_cons]
    exact mem_append_right _ later

theorem Files.pushChange {change : Change}
    (isKnown : ∀ reference ∈ changeReferences change, known reference)
    (fits : window.VersionsFit change) : Files known (window.pushChange options change) := by
  refine evictFrom_keeps options (fun log files => files.popFront log) rfl
    (show Files known (window.appended change) from
      ⟨files.balanced.appended fun _ => fits, ?_, ?_⟩)
  · change Named known (ReplayWindow.addReplayVersion (.addReplayVersion _ _ change.before) _
      change.after)
    refine Named.addReplayVersion (Named.addReplayVersion files.named ?_) ?_
    · intro contents isBefore
      exact isKnown (change.key, contents) (by simp [changeReferences, documentReferences, isBefore])
    · intro contents isAfter
      exact isKnown (change.key, contents) (by simp [changeReferences, documentReferences, isAfter])
  · have log : (window.appended change).changeLog = window.changeLog ++ [change] := by
      simp [appended]
    rw [log, logReferences, flatMap_append, flatMap_singleton]
    exact forall_mem_append.mpr ⟨files.isKnown, isKnown⟩

end

theorem removeReplayVersion_bytes_le (window : ReplayWindow) (key : DocumentKey)
    (document : Option Document) :
    (window.removeReplayVersion key document).replayVersionsLogicalBytes ≤
      window.replayVersionsLogicalBytes := by
  unfold removeReplayVersion
  split
  · exact le_rfl
  · dsimp only
    split
    · exact le_rfl
    · split
      · exact Nat.sub_le _ _
      · exact le_rfl

theorem pushChange_le (window : ReplayWindow) (change : Change) :
    (window.pushChange options change).changeLog.length ≤ window.changeLog.length + 1 ∧
      (window.pushChange options change).replayVersionsLogicalBytes ≤
        window.replayVersionsLogicalBytes + changeBytes change := by
  refine evictFrom_keeps options (P := fun after => after.changeLog.length ≤ _ ∧
    after.replayVersionsLogicalBytes ≤ _) (fun log bounds => ⟨?_, ?_⟩) rfl ⟨?_, ?_⟩
  · rw [log, length_cons] at bounds
    simp only [popFront, removeReplayVersion_changeLog]
    omega
  · exact (removeReplayVersion_bytes_le _ _ _).trans
      ((removeReplayVersion_bytes_le _ _ _).trans bounds.2)
  · simp
  · rw [changeBytes, ← Nat.add_assoc]
    exact (addReplayVersion_bytes_le _ _ _).trans
      (Nat.add_le_add_right (addReplayVersion_bytes_le _ _ _) _)

section

variable (tracks : Tracks known window)
include tracks

theorem Tracks.foldl_pushChange (toldApart : ToldApart known) {changes : List Change}
    (isKnown : ∀ reference ∈ logReferences changes, known reference)
    (bytesFit : window.replayVersionsLogicalBytes + (changes.map changeBytes).sum ≤ u64Max)
    (countsFit : 2 * (window.changeLog.length + changes.length) ≤ u64Max) :
    Tracks known (changes.foldl (ReplayWindow.pushChange options) window) := by
  induction changes generalizing window with
  | nil => exact tracks
  | cons change changes ih =>
    rw [map_cons, sum_cons] at bytesFit
    rw [length_cons] at countsFit
    rw [logReferences, flatMap_cons, forall_mem_append] at isKnown
    obtain ⟨length, bytes⟩ := pushChange_le options window change
    have versions := length_changeVersions_le window.changeLog
    have pushed := ((tracks_iff toldApart).mp tracks).pushChange options isKnown.1
      ⟨by omega, by omega⟩
    exact ih ((tracks_iff toldApart).mpr pushed) isKnown.2 (by omega) (by omega)

end

end

end ReplayWindow

/-! ## Plans that write each document once -/

section

variable {revision : Nat} {commitTime : Timestamp} {documents planned : DocumentMap}
  {writes : List Write} {changes : List Change}

theorem Plans.kept_or_stamped (plans : Plans revision commitTime documents writes planned changes)
    {document : Document} (stored : planned[key]? = some document) :
    documents[key]? = some document ∨ document.updateTime = commitTime := by
  induction writes generalizing documents changes with
  | nil =>
    cases plans
    exact .inl stored
  | cons write writes ih =>
    obtain ⟨next, tail, applied, rest⟩ := plans.cons
    rcases ih rest with old | stamped
    · rw [getElem?_putDocument] at old
      split_ifs at old with same
      · rcases nextDocument_cases applied with unchanged | removed | ⟨written, isNext, stamp⟩
        · subst same
          exact .inl (unchanged ▸ old)
        · rw [removed] at old
          cases old
        · cases isNext.symm.trans old
          exact .inr stamp
      · exact .inl old
    · exact .inr stamped

theorem Plans.change_of_nodup (plans : Plans revision commitTime documents writes planned changes)
    (distinct : (writes.map writeKey).Nodup) {change : Change} (member : change ∈ changes) :
    change.before = documents[change.key]? ∧ change.after = planned[change.key]? := by
  induction plans with
  | nil => cases member
  | @silent documents planned write writes next changes applied same rest ih =>
    rw [map_cons, nodup_cons] at distinct
    obtain ⟨before, after⟩ := ih distinct.2 member
    have other : writeKey write ≠ change.key :=
      fun same => distinct.1 (same ▸ rest.change_key_mem change member)
    rw [getElem?_putDocument, if_neg other] at before
    exact ⟨before, after⟩
  | @logged documents planned write writes next changes applied differs rest ih =>
    rw [map_cons, nodup_cons] at distinct
    rcases mem_cons.mp member with rfl | member
    · refine ⟨rfl, ?_⟩
      rw [rest.getElem?_untouched distinct.1, getElem?_putDocument, if_pos rfl]
    · obtain ⟨before, after⟩ := ih distinct.2 member
      have other : writeKey write ≠ change.key :=
        fun same => distinct.1 (same ▸ rest.change_key_mem change member)
      rw [getElem?_putDocument, if_neg other] at before
      exact ⟨before, after⟩

end

/-! ## Runs -/

/-- The distinct versions, by key and contents, behind the retained log fit the limit. -/
def HonoursBudget (limit : Nat) (state : State) : Prop :=
  ∀ versions : List Reference, versions.Nodup →
    (∀ version ∈ versions, version ∈ logReferences state.window.changeLog) →
    (versions.map Reference.logicalBytes).sum ≤ limit

/-- The versions a state knows: stored documents and those the log refers to. -/
def State.Knows (state : State) (reference : Reference) : Prop :=
  state.documents[reference.1]? = some reference.2 ∨
    reference ∈ logReferences state.window.changeLog

def CountersFit (history : History) (request : Request) : Prop :=
  match history.state.commit request.clock request.writes with
  | .error _ => True
  | .ok (_, changes, _) =>
    history.state.window.replayVersionsLogicalBytes +
        (changes.map changeBytes).sum ≤ u64Max ∧
      2 * (history.state.window.changeLog.length + changes.length) ≤ u64Max

instance (history : History) (request : Request) : Decidable (CountersFit history request) :=
  match committed : history.state.commit request.clock request.writes with
  | .error _ => isTrue (by rw [CountersFit, committed]; trivial)
  | .ok (_, changes, _) => decidable_of_iff
      (history.state.window.replayVersionsLogicalBytes +
          (changes.map changeBytes).sum ≤ u64Max ∧
        2 * (history.state.window.changeLog.length + changes.length) ≤ u64Max)
      (by rw [CountersFit, committed])

/-- A commit in time, of distinct documents, within the range of the counters. -/
structure CountsExactly (history : History) (request : Request) : Prop where
  inTime : history.BelowTimeLimit request
  distinct : (request.writes.map writeKey).Nodup
  fits : CountersFit history request

instance (history : History) (request : Request) : Decidable (CountsExactly history request) :=
  decidable_of_iff (history.BelowTimeLimit request ∧ (request.writes.map writeKey).Nodup ∧
    CountersFit history request) ⟨fun all => ⟨all.1, all.2.1, all.2.2⟩,
      fun counts => ⟨counts.inTime, counts.distinct, counts.fits⟩⟩

/-- What the conditions keep: versions are told apart by update times up to the last commit,
and the window counts them. -/
structure Budgeted (limit : Nat) (history : History) : Prop where
  recorded : Recorded history
  limited : history.state.options.maxChangeLogLogicalBytes = max limit 1
  timeBound : history.state.lastCommitTime.seconds < Timestamp.maxSeconds
  times : ∀ reference, history.state.Knows reference →
    reference.2.updateTime ≤ history.state.lastCommitTime
  toldApart : ToldApart history.state.Knows
  exact : Exact (logReferences history.state.window.changeLog) history.state.window

theorem budgeted_start : Budgeted options.maxChangeLogLogicalBytes (.start options) where
  recorded := recorded_start options
  limited := rfl
  timeBound := by
    change (0 : Int) < Timestamp.maxSeconds
    decide
  times reference knows := by
    simp [State.Knows, start, State.new, emptyAt, logReferences] at knows
  toldApart first second knows := by
    simp [State.Knows, start, State.new, emptyAt, logReferences] at knows
  exact := by
    constructor <;> simp [start, State.new, emptyAt, logReferences]

theorem mem_documentReferences {reference : Reference} :
    reference ∈ documentReferences key document ↔
      reference.1 = key ∧ document = some reference.2 := by
  obtain ⟨other, contents⟩ := reference
  cases document <;> simp [documentReferences, eq_comm]

section

variable {limit : Nat} {history : History} {request : Request} {next : History}
  {planned : DocumentMap} {changes : List Change}

def KnownAfter (history : History) (planned : DocumentMap) (reference : Reference) : Prop :=
  history.state.Knows reference ∨ planned[reference.1]? = some reference.2

section

variable (commits : Committed history request next planned changes)
include commits

theorem KnownAfter.cases {reference : Reference} (known : KnownAfter history planned reference) :
    history.state.Knows reference ∨ planned[reference.1]? = some reference.2 ∧
      reference.2.updateTime = history.state.nextCommitTime request.clock := by
  rcases known with before | stored
  · exact .inl before
  · rcases commits.plans.kept_or_stamped stored with old | stamped
    · exact .inl (.inl old)
    · exact .inr ⟨stored, stamped⟩

theorem Budgeted.toldApart_after (budgeted : Budgeted limit history) :
    ToldApart (KnownAfter history planned) := by
  have later := lt_nextCommitTime budgeted.timeBound request.clock
  -- an older version cannot carry the time of this commit
  have apart : ∀ {old new : Reference}, history.state.Knows old →
      new.2.updateTime = history.state.nextCommitTime request.clock →
      old.version ≠ new.version := by
    intro old new knows stamped same
    have time := budgeted.times old knows
    have sameTime : old.2.updateTime = new.2.updateTime := congrArg DocumentVersion.updateTime same
    rw [sameTime, stamped] at time
    exact (later.trans_le time).false
  intro first second firstKnown secondKnown same
  rcases firstKnown.cases commits with firstOld | ⟨firstStored, firstStamped⟩ <;>
    rcases secondKnown.cases commits with secondOld | ⟨secondStored, secondStamped⟩
  · exact budgeted.toldApart first second firstOld secondOld same
  · exact absurd same (apart firstOld secondStamped)
  · exact absurd same.symm (apart secondOld firstStamped)
  · have sameKey : first.1 = second.1 := congrArg DocumentVersion.key same
    rw [sameKey, secondStored] at firstStored
    exact Prod.ext sameKey (Option.some.inj firstStored).symm

theorem Committed.knownAfter_of_mem (distinct : (request.writes.map writeKey).Nodup) :
    ∀ reference ∈ logReferences changes, KnownAfter history planned reference := by
  intro reference member
  obtain ⟨change, isChange, member⟩ := mem_flatMap.mp member
  obtain ⟨before, after⟩ := commits.plans.change_of_nodup distinct isChange
  rcases mem_append.mp member with member | member
  · obtain ⟨isKey, stored⟩ := mem_documentReferences.mp member
    rw [before, ← isKey] at stored
    exact .inl (.inl stored)
  · obtain ⟨isKey, stored⟩ := mem_documentReferences.mp member
    rw [after, ← isKey] at stored
    exact .inr stored

theorem Budgeted.committed (budgeted : Budgeted limit history)
    (recorded : Recorded next) (inTime : history.BelowTimeLimit request)
    (distinct : (request.writes.map writeKey).Nodup)
    (bytesFit : history.state.window.replayVersionsLogicalBytes +
      (changes.map ReplayWindow.changeBytes).sum ≤ u64Max)
    (countsFit : 2 * (history.state.window.changeLog.length + changes.length) ≤ u64Max) :
    Budgeted limit next := by
  have toldApart := budgeted.toldApart_after commits
  have tracks : ReplayWindow.Tracks (KnownAfter history planned) next.state.window := by
    rw [commits.window]
    apply ReplayWindow.Tracks.foldl_pushChange _ _ toldApart
      (commits.knownAfter_of_mem distinct) bytesFit countsFit
    exact ⟨budgeted.exact, fun reference member => .inl (.inr member)⟩
  have knows : ∀ reference, next.state.Knows reference →
      KnownAfter history planned reference := by
    intro reference known
    rcases known with stored | logged
    · rw [commits.documents] at stored
      exact .inr stored
    · exact tracks.isKnown reference logged
  constructor
  · exact recorded
  · rw [commits.options]
    exact budgeted.limited
  · rw [commits.lastCommitTime]
    exact inTime
  · intro reference known
    rw [commits.lastCommitTime]
    rcases (knows reference known).cases commits with old | ⟨_, stamped⟩
    · have later := lt_nextCommitTime budgeted.timeBound request.clock
      exact (budgeted.times reference old).trans later.le
    · exact stamped.le
  · intro first second firstKnown secondKnown
    exact toldApart first second (knows first firstKnown) (knows second secondKnown)
  · exact tracks.exact

end

end

theorem Budgeted.step {limit : Nat} {history : History} (budgeted : Budgeted limit history)
    {request : Request} (counts : CountsExactly history request) :
    Budgeted limit (history.step request) := by
  have recorded := budgeted.recorded.step request
  have fits := counts.fits
  cases success : history.state.commit request.clock request.writes with
  | error error =>
    rw [History.step, success]
    exact budgeted
  | ok outcome =>
    rw [CountersFit, success] at fits
    obtain ⟨planned, committed⟩ := committed_of_commit success
    exact budgeted.committed committed recorded counts.inTime counts.distinct fits.1 fits.2

theorem le_logicalBytes (reference : Reference) : 24 ≤ reference.logicalBytes := by
  simp only [Reference.logicalBytes, documentEntryLogicalBytes, documentLogicalBytes,
    saturatingAdd, u64Max]
  omega

theorem Budgeted.honoursBudget {limit : Nat} {history : History}
    (budgeted : Budgeted limit history) : HonoursBudget limit history.state := by
  intro versions distinct among
  have counted := budgeted.exact.sum_le
    (fun first second isFirst isSecond => budgeted.toldApart first second (.inr isFirst)
      (.inr isSecond)) distinct among
  have budget := budgeted.recorded.budget
  simp only [overBudget, Bool.or_eq_false_iff, decide_eq_false_iff_not, budgeted.limited] at budget
  cases versions with
  | nil => exact Nat.zero_le _
  | cons version versions =>
    -- a budget of zero is raised to one, below the size of any version
    have size := le_logicalBytes version
    rw [map_cons, sum_cons] at counted ⊢
    omega

/-- In every run whose commits each write distinct documents, in time and within the range of
the counters, the window honours the byte budget of the options in every state reached. -/
theorem replay_window_honours_budget (options : StoreOptions) (requests : List Request)
    (exactly : Runs.AllSteps step CountsExactly (.start options) requests) :
    HonoursBudget options.maxChangeLogLogicalBytes (run options requests).state := by
  have budgeted : Budgeted options.maxChangeLogLogicalBytes (run options requests) := by
    apply Runs.invariant_run (Budgeted options.maxChangeLogLogicalBytes) _
      (budgeted_start options) exactly
    intro history request counts before
    exact before.step counts
  exact budgeted.honoursBudget

theorem replay_window_honours_budget_sample :
    HonoursBudget Sample.options.maxChangeLogLogicalBytes
      (run Sample.options [⟨Sample.clock, [.create Sample.itemA .empty,
        .create Sample.itemB .empty]⟩, ⟨Sample.clock, [Sample.patchDouble 0]⟩]).state :=
  replay_window_honours_budget Sample.options _ (by decide +kernel)

/-- Room for one version of the empty document `items/a`, and no more. -/
def Sample.tightOptions : StoreOptions :=
  ⟨4096, documentEntryLogicalBytes itemA ⟨.empty, .epoch, .epoch⟩⟩

/-- One commit that creates `items/a` and gives it a field. -/
def Sample.writtenTwice : History :=
  .run tightOptions [⟨clock, [.create itemA .empty, patchDouble 0]⟩]

/-- Only the first of two versions with one update time is counted: the log keeps both, and
together they exceed the budget. -/
theorem version_written_twice_exceeds_budget :
    ¬ HonoursBudget Sample.tightOptions.maxChangeLogLogicalBytes Sample.writtenTwice.state := by
  intro honours
  let versions := (logReferences Sample.writtenTwice.state.window.changeLog).drop 1
  have distinct : (versions.map fun version => version.2.fields.entries.length).Nodup := by
    decide +kernel
  have within := honours versions (.of_map _ distinct) fun version => mem_of_mem_drop
  exact absurd within (by decide +kernel)

/-! ## Accounts of the change log -/

namespace ReplayWindow

/-- The counters agree with the retained log and the table of its versions. -/
structure Ledger (exact : Prop) (window : ReplayWindow) : Prop where
  versions : BalancedLog exact window
  metadata : Agrees exact window.changeLogLogicalBytes
    (window.changeLog.map changeMetadataLogicalBytes).sum

def Fits (window : ReplayWindow) (change : Change) : Prop :=
  window.VersionsFit change ∧
    window.changeLogLogicalBytes + changeMetadataLogicalBytes change ≤ u64Max

section

variable {exact : Prop} {window : ReplayWindow} (ledger : Ledger exact window)
include ledger

theorem Ledger.popFront {removed : Change} {rest : List Change}
    (log : window.changeLog = removed :: rest) : Ledger exact (window.popFront removed rest) where
  versions := ledger.versions.popFront log
  metadata := by
    have metadata := ledger.metadata
    rw [log, map_cons, sum_cons, Nat.add_comm] at metadata
    simpa [ReplayWindow.popFront] using metadata.sub

theorem Ledger.pushChange {change : Change} (fits : exact → window.Fits change) :
    Ledger exact (window.pushChange options change) := by
  refine evictFrom_keeps options (fun log ledger => ledger.popFront log) rfl
    (show Ledger exact (window.appended change) from
      ⟨ledger.versions.appended fun isExact => (fits isExact).1, ?_⟩)
  have metadata := ledger.metadata.add _ fun isExact => (fits isExact).2
  simpa [appended] using metadata

theorem Ledger.foldl_pushChange {changes : List Change}
    (fits : exact → Runs.AllSteps (ReplayWindow.pushChange options) Fits window changes) :
    Ledger exact (changes.foldl (ReplayWindow.pushChange options) window) := by
  induction changes generalizing window with
  | nil => exact ledger
  | cons change changes ih =>
    exact ih (ledger.pushChange options fun isExact => (fits isExact).1)
      fun isExact => (fits isExact).2

end

end ReplayWindow

def Unsaturated (history : History) (request : Request) : Prop :=
  ∀ result changes state, history.state.commit request.clock request.writes =
    .ok (result, changes, state) →
      Runs.AllSteps (pushChange history.state.options) Fits history.state.window changes

theorem ledger_run {exact : Prop} {history : History} {requests : List Request}
    (ledger : Ledger exact history.state.window)
    (fits : exact → Runs.AllSteps step Unsaturated history requests) :
    Ledger exact (Runs.run step history requests).state.window := by
  induction requests generalizing history with
  | nil => exact ledger
  | cons request requests ih =>
    refine ih ?_ fun isExact => (fits isExact).2
    cases success : history.state.commit request.clock request.writes with
    | error error =>
      rw [step, success]
      exact ledger
    | ok outcome =>
      obtain ⟨planned, committed⟩ := committed_of_commit success
      rw [committed.window]
      exact ledger.foldl_pushChange _ fun isExact => (fits isExact).1 _ _ _ success

theorem push_change_accounts_exactly (options : StoreOptions) (requests : List Request) :
    let state := (run options requests).state
    let window := state.window
    (∀ change, (window.pushChange state.options change).overBudget state.options = false) ∧
    (Runs.AllSteps step Unsaturated (.start options) requests →
      (∀ version, (window.replayVersions[version]?).elim 0 RetainedVersion.references =
        (window.changeLog.flatMap changeVersions).count version) ∧
      window.replayVersionsLogicalBytes =
        total (fun _ retained => retained.logicalBytes) window.replayVersions ∧
      window.changeLogLogicalBytes =
        (window.changeLog.map changeMetadataLogicalBytes).sum) := by
  intro state window
  have ledger : Ledger (Runs.AllSteps step Unsaturated (.start options) requests) window :=
    ledger_run ⟨by constructor <;> simp [start, State.new, emptyAt, Agrees],
      by simp [start, State.new, emptyAt, Agrees]⟩ id
  refine ⟨fun change => ?_, fun fits => ⟨fun version => (ledger.versions.counts version).2 fits,
    ledger.versions.bytes.2 fits, ledger.metadata.2 fits⟩⟩
  exact withinBudget_pushChange _ (recorded_run options requests).window change

section

open Sample

theorem push_change_accounts_exactly_sample :
    let window := (run ⟨2, u64Max⟩ [twoCreates [7]]).state.window
    window.changeLog.length = 2 ∧ window.replayVersionsLogicalBytes =
        total (fun _ retained => retained.logicalBytes) window.replayVersions := by
  have unsaturated : Runs.AllSteps step Unsaturated (start ⟨2, u64Max⟩) [twoCreates [7]] := by
    refine ⟨fun result changes state success => ?_, trivial⟩
    rw [commit_of_planWrites (by decide) (planWrites_twoCreates [7] _)] at success
    cases success
    refine ⟨⟨⟨?_, ?_⟩, ?_⟩, ⟨⟨?_, ?_⟩, ?_⟩, trivial⟩ <;> decide +kernel
  exact ⟨by decide +kernel, ((push_change_accounts_exactly ⟨2, u64Max⟩ _).2 unsaturated).2.1⟩

theorem creates_saturate {document : Document}
    (large : ∀ key, 2 ^ 63 ≤ documentEntryLogicalBytes key document) :
    let window := [itemA, itemB].foldl (fun window key =>
      window.pushChange ⟨2, u64Max⟩ ⟨1, key, none, some document⟩) (emptyAt 0)
    window.replayVersionsLogicalBytes ≠
      total (fun _ retained => retained.logicalBytes) window.replayVersions := by
  have first := large itemA
  have second := large itemB
  have absent : ∀ retained : RetainedVersion,
      ((∅ : Std.ExtTreeMap DocumentVersion RetainedVersion).insert ⟨itemA, document.updateTime⟩
        retained)[(⟨itemB, document.updateTime⟩ : DocumentVersion)]? = none := by
    intro retained
    have different : itemA ≠ itemB := by decide
    simp [different]
  simp [pushChange, addReplayVersion, emptyAt, evictFrom, overBudget, saturatingAdd, absent,
    total_insert, erase_of_absent]
  unfold u64Max
  omega

theorem twoCreates_saturates {bytes : List UInt8} (long : bytes.length = 2 ^ 63 - 1) :
    let window := (run ⟨2, u64Max⟩ [twoCreates bytes]).state.window
    window.replayVersionsLogicalBytes ≠
      total (fun _ retained => retained.logicalBytes) window.replayVersions := by
  let time := (start ⟨2, u64Max⟩).state.nextCommitTime (twoCreates bytes).clock
  have success : (start ⟨2, u64Max⟩).state.commit (twoCreates bytes).clock
      (twoCreates bytes).writes = _ :=
    commit_of_planWrites (by decide) (planWrites_twoCreates bytes time)
  obtain ⟨_, committed⟩ := committed_of_commit success
  have limits : (start ⟨2, u64Max⟩).state.options = ⟨2, u64Max⟩ := by decide
  have window := committed.window
  rw [limits, foldl_map] at window
  rw [run, Runs.run, foldl_cons, foldl_nil, window]
  apply creates_saturate
  intro key
  have size := le_documentEntryLogicalBytes bytes key time (by omega)
  omega

theorem push_change_saturates :
    ∃ options requests, let window := (run options requests).state.window
      window.replayVersionsLogicalBytes ≠
        total (fun _ retained => retained.logicalBytes) window.replayVersions :=
  ⟨⟨2, u64Max⟩, [twoCreates (replicate (2 ^ 63 - 1) 0)], twoCreates_saturates length_replicate⟩

end

end Firenook
