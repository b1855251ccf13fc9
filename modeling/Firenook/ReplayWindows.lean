import Firenook.StoreCommits

/-!
# The bounded change log

The replay window holds a suffix of all changes ever logged, and everything it
evicted is at or below its floor.  Its byte counter never exceeds the retained
versions it accounts for, so the eviction loop always ends within both limits:
an empty log retains nothing.
-/

namespace Firenook

open OrderedMaps List ReplayWindow

def changeVersions (change : Change) : List DocumentVersion :=
  (change.before.toList ++ change.after.toList).map fun document =>
    ⟨change.key, document.updateTime⟩

namespace ReplayWindow

/-- Every retained version is referenced, and the byte counter does not exceed the
retained bytes.  Saturation can only lower the two sides of these bounds. -/
structure Accounted (references : List DocumentVersion) (window : ReplayWindow) : Prop where
  counts : ∀ (version : DocumentVersion) (retained : RetainedVersion),
    window.replayVersions[version]? = some retained →
      1 ≤ retained.references ∧ retained.references ≤ references.count version
  bytes : window.replayVersionsLogicalBytes ≤
    total (fun _ retained => retained.logicalBytes) window.replayVersions

/-- The log is a suffix of all changes, and evicted ones are not above the floor. -/
def Retains (all : List Change) (window : ReplayWindow) : Prop :=
  ∃ evicted, all = evicted ++ window.changeLog ∧
    ∀ change ∈ evicted, change.revision ≤ window.changeFloor

section Accounting

variable {exact : Prop} {references : List DocumentVersion} {window : ReplayWindow}

/-- A counter that does not exceed the sum it stands for, and is equal to it when `exact`. -/
def Agrees (exact : Prop) (counter sum : Nat) : Prop :=
  counter ≤ sum ∧ (exact → counter = sum)

theorem Agrees.add {counter sum : Nat} (agrees : Agrees exact counter sum) (amount : Nat)
    (fits : exact → counter + amount ≤ u64Max) :
    Agrees exact (saturatingAdd counter amount) (sum + amount) := by
  refine ⟨(min_le_left _ _).trans (Nat.add_le_add_right agrees.1 amount), fun isExact => ?_⟩
  rw [← agrees.2 isExact]
  exact min_eq_left (fits isExact)

theorem Agrees.sub {counter sum amount : Nat} (agrees : Agrees exact counter (sum + amount)) :
    Agrees exact (counter - amount) sum := by
  refine ⟨Nat.sub_le_of_le_add agrees.1, fun isExact => ?_⟩
  rw [agrees.2 isExact, Nat.add_sub_cancel]

/-- The counters of the window agree with the references made and the retained bytes. -/
structure Balanced (exact : Prop) (references : List DocumentVersion) (window : ReplayWindow) :
    Prop where
  positive : ∀ (version : DocumentVersion) (retained : RetainedVersion),
    window.replayVersions[version]? = some retained → 1 ≤ retained.references
  counts : ∀ version, Agrees exact
    ((window.replayVersions[version]?).elim 0 RetainedVersion.references) (references.count version)
  bytes : Agrees exact window.replayVersionsLogicalBytes
    (total (fun _ retained => retained.logicalBytes) window.replayVersions)

theorem accounted_iff : Accounted references window ↔ Balanced False references window := by
  constructor
  · refine fun accounted => ⟨fun version retained stored =>
      (accounted.counts version retained stored).1, fun version => ⟨?_, nofun⟩,
      accounted.bytes, nofun⟩
    cases stored : window.replayVersions[version]? with
    | none => exact Nat.zero_le _
    | some retained => exact (accounted.counts version retained stored).2
  · refine fun balanced => ⟨fun version retained stored =>
      ⟨balanced.positive version retained stored, ?_⟩, balanced.bytes.1⟩
    have counted := (balanced.counts version).1
    rwa [stored] at counted

theorem total_insert_references {version : DocumentVersion}
    {retained : RetainedVersion} (stored : window.replayVersions[version]? = some retained)
    (count : Nat) :
    total (fun _ retained => retained.logicalBytes)
        (window.replayVersions.insert version { retained with references := count }) =
      total (fun _ retained => retained.logicalBytes) window.replayVersions := by
  rw [total_insert, ← total_erase_add _ stored]

theorem Balanced.insert (balanced : Balanced exact references window) {version : DocumentVersion}
    {retained : RetainedVersion} {others : List DocumentVersion} {bytes : Nat}
    (positive : 1 ≤ retained.references)
    (counts : Agrees exact retained.references (others.count version))
    (elsewhere : ∀ other, version ≠ other → others.count other = references.count other)
    (counted : Agrees exact bytes (total (fun _ retained => retained.logicalBytes)
      (window.replayVersions.insert version retained))) :
    Balanced exact others { window with
      replayVersions := window.replayVersions.insert version retained
      replayVersionsLogicalBytes := bytes } := by
  refine ⟨fun other found isFound => ?_, fun other => ?_, counted⟩
  · rw [getElem?_insert_eq] at isFound
    split_ifs at isFound
    · cases isFound
      exact positive
    · exact balanced.positive other found isFound
  · rw [getElem?_insert_eq]
    split_ifs with same
    · exact same ▸ counts
    · rw [elsewhere other same]
      exact balanced.counts other

def documentBytes (key : DocumentKey) (document : Option Document) : Nat :=
  document.elim 0 (documentEntryLogicalBytes key)

theorem Balanced.addReplayVersion (balanced : Balanced exact references window)
    (key : DocumentKey) (document : Option Document)
    (bytesFit : exact →
      window.replayVersionsLogicalBytes + documentBytes key document ≤ u64Max)
    (countsFit : exact → references.length + 1 ≤ u64Max) :
    Balanced exact (references ++ document.toList.map fun document => ⟨key, document.updateTime⟩)
      (window.addReplayVersion key document) := by
  cases document with
  | none => simpa [ReplayWindow.addReplayVersion] using balanced
  | some document =>
    let version : DocumentVersion := ⟨key, document.updateTime⟩
    have counted := (balanced.counts version).add 1 fun isExact =>
      (Nat.add_le_add_right ((balanced.counts version).1.trans count_le_length) 1).trans
        (countsFit isExact)
    have here : (references ++ [version]).count version = references.count version + 1 := by
      rw [count_append, count_singleton_self]
    have elsewhere : ∀ other, version ≠ other →
        (references ++ [version]).count other = references.count other := by
      intro other different
      rw [count_append, count_singleton, beq_false_of_ne different]
      rfl
    rw [← here] at counted
    simp only [ReplayWindow.addReplayVersion]
    split
    · next retained stored =>
      rw [stored] at counted
      refine balanced.insert ?_ counted elsewhere ?_
      · simp [saturatingAdd, u64Max]
      · rw [total_insert_references stored]
        exact balanced.bytes
    · next absent =>
      rw [absent] at counted
      refine balanced.insert le_rfl counted elsewhere ?_
      rw [total_insert, erase_of_absent absent]
      exact balanced.bytes.add _ bytesFit

theorem Balanced.removeReplayVersion {key : DocumentKey} {document : Option Document}
    (balanced : Balanced exact
      ((document.toList.map fun document => ⟨key, document.updateTime⟩) ++ references) window) :
    Balanced exact references (window.removeReplayVersion key document) := by
  cases document with
  | none => simpa [ReplayWindow.removeReplayVersion] using balanced
  | some document =>
    let version : DocumentVersion := ⟨key, document.updateTime⟩
    replace balanced : Balanced exact (version :: references) window := balanced
    have counted := balanced.counts version
    rw [count_cons_self] at counted
    have elsewhere : ∀ other, version ≠ other →
        references.count other = (version :: references).count other :=
      fun other different => (count_cons_of_ne different).symm
    simp only [ReplayWindow.removeReplayVersion]
    split
    · next absent =>
      refine ⟨balanced.positive, fun other => ?_, balanced.bytes⟩
      by_cases same : version = other
      · subst same
        rw [absent] at counted ⊢
        exact counted.sub
      · rw [elsewhere other same]
        exact balanced.counts other
    · next retained stored =>
      rw [stored] at counted
      split_ifs with last
      · refine ⟨fun other found isFound => ?_, fun other => ?_, ?_⟩
        · rw [getElem?_erase] at isFound
          split_ifs at isFound
          exact balanced.positive other found isFound
        · rw [getElem?_erase]
          split_ifs with same
          · have none := counted.sub
            rw [Option.elim_some, last] at none
            exact same ▸ none
          · rw [elsewhere other same]
            exact balanced.counts other
        · have bytes := balanced.bytes
          rw [← total_erase_add _ stored] at bytes
          exact bytes.sub
      · refine balanced.insert (Nat.one_le_iff_ne_zero.mpr last) counted.sub elsewhere ?_
        rw [total_insert_references stored]
        exact balanced.bytes

end Accounting

/-! ## Eviction -/

section Frames

variable (window : ReplayWindow) (key : DocumentKey) (document : Option Document)

theorem addReplayVersion_frame : ∃ replayVersions replayVersionsLogicalBytes,
    window.addReplayVersion key document =
      { window with replayVersions, replayVersionsLogicalBytes } := by
  unfold addReplayVersion
  split
  · exact ⟨_, _, rfl⟩
  · dsimp only
    split <;> exact ⟨_, _, rfl⟩

theorem removeReplayVersion_frame : ∃ replayVersions replayVersionsLogicalBytes,
    window.removeReplayVersion key document =
      { window with replayVersions, replayVersionsLogicalBytes } := by
  unfold removeReplayVersion
  split
  · exact ⟨_, _, rfl⟩
  · dsimp only
    split
    · exact ⟨_, _, rfl⟩
    · split <;> exact ⟨_, _, rfl⟩

@[simp]
theorem addReplayVersion_changeLog :
    (window.addReplayVersion key document).changeLog = window.changeLog := by
  obtain ⟨_, _, same⟩ := addReplayVersion_frame window key document
  rw [same]

@[simp]
theorem addReplayVersion_changeFloor :
    (window.addReplayVersion key document).changeFloor = window.changeFloor := by
  obtain ⟨_, _, same⟩ := addReplayVersion_frame window key document
  rw [same]

@[simp]
theorem addReplayVersion_changeLogLogicalBytes :
    (window.addReplayVersion key document).changeLogLogicalBytes =
      window.changeLogLogicalBytes := by
  obtain ⟨_, _, same⟩ := addReplayVersion_frame window key document
  rw [same]

@[simp]
theorem removeReplayVersion_changeLog :
    (window.removeReplayVersion key document).changeLog = window.changeLog := by
  obtain ⟨_, _, same⟩ := removeReplayVersion_frame window key document
  rw [same]

@[simp]
theorem removeReplayVersion_changeFloor :
    (window.removeReplayVersion key document).changeFloor = window.changeFloor := by
  obtain ⟨_, _, same⟩ := removeReplayVersion_frame window key document
  rw [same]

@[simp]
theorem removeReplayVersion_changeLogLogicalBytes :
    (window.removeReplayVersion key document).changeLogLogicalBytes =
      window.changeLogLogicalBytes := by
  obtain ⟨_, _, same⟩ := removeReplayVersion_frame window key document
  rw [same]

end Frames

/-- The window is a bounded view of all changes logged up to a revision. -/
structure Invariant (all : List Change) (revision : Nat) (window : ReplayWindow) : Prop where
  accounted : Accounted (window.changeLog.flatMap changeVersions) window
  retains : Retains all window
  floorBound : window.changeFloor ≤ revision
  logBound : ∀ change ∈ window.changeLog, change.revision ≤ revision

theorem invariant_emptyAt (revision : Nat) : Invariant [] revision (emptyAt revision) where
  accounted := ⟨by simp [emptyAt], by simp [emptyAt]⟩
  retains := ⟨[], rfl, by simp⟩
  floorBound := le_rfl
  logBound := by simp [emptyAt]

variable {all : List Change} {revision : Nat} {window : ReplayWindow}

theorem Invariant.mono (invariant : Invariant all revision window) {later : Nat}
    (le : revision ≤ later) : Invariant all later window where
  accounted := invariant.accounted
  retains := invariant.retains
  floorBound := invariant.floorBound.trans le
  logBound change member := (invariant.logBound change member).trans le

section

variable {exact : Prop}

abbrev BalancedLog (exact : Prop) (window : ReplayWindow) : Prop :=
  Balanced exact (window.changeLog.flatMap changeVersions) window

theorem Balanced.popFront (balanced : BalancedLog exact window) {removed : Change}
    {rest : List Change} (log : window.changeLog = removed :: rest) :
    BalancedLog exact (window.popFront removed rest) := by
  rw [BalancedLog, log, flatMap_cons, changeVersions, map_append, append_assoc] at balanced
  have start : Balanced exact _ { window with
      changeLog := rest
      changeLogLogicalBytes :=
        window.changeLogLogicalBytes - changeMetadataLogicalBytes removed } :=
    ⟨balanced.positive, balanced.counts, balanced.bytes⟩
  have popped := start.removeReplayVersion.removeReplayVersion
  have restLog : (window.popFront removed rest).changeLog = rest := by
    simp [ReplayWindow.popFront]
  rw [BalancedLog, restLog]
  exact ⟨popped.positive, popped.counts, popped.bytes⟩

end

theorem Invariant.popFront (invariant : Invariant all revision window) {removed : Change}
    {rest : List Change} (log : window.changeLog = removed :: rest) :
    Invariant all revision (window.popFront removed rest) := by
  have removedBound := invariant.logBound removed (by simp [log])
  have floorBound := invariant.floorBound
  refine ⟨?_, ?_, ?_, ?_⟩
  · exact accounted_iff.mpr ((accounted_iff.mp invariant.accounted).popFront log)
  · obtain ⟨evicted, split, below⟩ := invariant.retains
    refine ⟨evicted ++ [removed], by simp [ReplayWindow.popFront, split, log], ?_⟩
    intro change member
    simp only [ReplayWindow.popFront, removeReplayVersion_changeFloor]
    rcases mem_append.mp member with member | member
    · have := below change member
      omega
    · cases mem_singleton.mp member
      omega
  · simp only [ReplayWindow.popFront, removeReplayVersion_changeFloor]
    omega
  · intro change member
    refine invariant.logBound change ?_
    simp only [ReplayWindow.popFront, removeReplayVersion_changeLog] at member
    simp [log, member]

variable (options : StoreOptions)

theorem evictFrom_keeps {P : ReplayWindow → Prop} (pop : ∀ {window : ReplayWindow} {removed rest},
      window.changeLog = removed :: rest → P window → P (window.popFront removed rest))
    {log : List Change} (logEq : window.changeLog = log) (kept : P window) :
    P (window.evictFrom options log) := by
  induction log generalizing window with
  | nil => exact kept
  | cons removed rest ih =>
    rw [evictFrom]
    split_ifs
    · exact ih (by simp [popFront]) (pop logEq kept)
    · exact kept

theorem withinBudget_evictFrom {exact : Prop} {log : List Change}
    (balanced : BalancedLog exact window) (logEq : window.changeLog = log) :
    (window.evictFrom options log).overBudget options = false := by
  induction log generalizing window with
  | nil =>
    have noVersions : window.replayVersions = ∅ := by
      refine Std.ExtTreeMap.ext_getElem? fun version => ?_
      cases stored : window.replayVersions[version]? with
      | none => simp
      | some retained =>
        have positive := balanced.positive version retained stored
        have counted := (balanced.counts version).1
        rw [stored, Option.elim_some, logEq, flatMap_nil, count_nil] at counted
        omega
    have noBytes := balanced.bytes.1
    simp only [noVersions, total_empty, Nat.le_zero] at noBytes
    simp [evictFrom, overBudget, logEq, noBytes]
  | cons removed rest ih =>
    rw [evictFrom]
    split_ifs with exceeded
    · exact ih (balanced.popFront logEq) (by simp [popFront])
    · simpa using exceeded

/-- The window just before the eviction loop of `push_change`. -/
def appended (window : ReplayWindow) (change : Change) : ReplayWindow :=
  let window :=
    { window with
      changeLogLogicalBytes :=
        saturatingAdd window.changeLogLogicalBytes (changeMetadataLogicalBytes change) }
  let window := window.addReplayVersion change.key change.before
  let window := window.addReplayVersion change.key change.after
  { window with changeLog := window.changeLog ++ [change] }

def changeBytes (change : Change) : Nat :=
  documentBytes change.key change.before + documentBytes change.key change.after

/-- The counters of the versions have room for those of one more change. -/
def VersionsFit (window : ReplayWindow) (change : Change) : Prop :=
  window.replayVersionsLogicalBytes + changeBytes change ≤ u64Max ∧
    (window.changeLog.flatMap changeVersions).length + 2 ≤ u64Max

theorem addReplayVersion_bytes_le (window : ReplayWindow) (key : DocumentKey)
    (document : Option Document) :
    (window.addReplayVersion key document).replayVersionsLogicalBytes ≤
      window.replayVersionsLogicalBytes + documentBytes key document := by
  unfold addReplayVersion
  cases document with
  | none => exact le_rfl
  | some document =>
    dsimp only
    split
    · exact Nat.le_add_right _ _
    · exact min_le_left _ _

theorem Balanced.appended {exact : Prop} (balanced : BalancedLog exact window) {change : Change}
    (fits : exact → window.VersionsFit change) : BalancedLog exact (window.appended change) := by
  let start : ReplayWindow := { window with
    changeLogLogicalBytes := saturatingAdd window.changeLogLogicalBytes
      (changeMetadataLogicalBytes change) }
  have initial : Balanced exact _ start := ⟨balanced.positive, balanced.counts, balanced.bytes⟩
  have more : _ ≤ window.replayVersionsLogicalBytes + _ :=
    addReplayVersion_bytes_le start change.key change.before
  unfold VersionsFit changeBytes at fits
  have first := initial.addReplayVersion change.key change.before
    (fun isExact => (Nat.add_le_add_left (Nat.le_add_right _ _) _).trans (fits isExact).1)
    fun isExact => (Nat.le_succ _).trans (fits isExact).2
  have second := first.addReplayVersion change.key change.after
    (fun isExact => by have := (fits isExact).1; omega)
    fun isExact => by
      have := (fits isExact).2
      have := Option.length_toList_le (o := change.before)
      rw [length_append, length_map]
      omega
  have log : (window.appended change).changeLog = window.changeLog ++ [change] := by
    simp [ReplayWindow.appended]
  rw [append_assoc, ← map_append] at second
  rw [BalancedLog, log, flatMap_append, flatMap_singleton]
  exact ⟨second.positive, second.counts, second.bytes⟩

section

variable (invariant : Invariant all revision window)
include invariant

private theorem Invariant.appended {change : Change} (changeBound : change.revision ≤ revision) :
    Invariant (all ++ [change]) revision (window.appended change) := by
  refine ⟨?_, ?_, ?_, ?_⟩
  · exact accounted_iff.mpr ((accounted_iff.mp invariant.accounted).appended nofun)
  · obtain ⟨evicted, split, below⟩ := invariant.retains
    refine ⟨evicted, by simp [ReplayWindow.appended, split], ?_⟩
    simpa [ReplayWindow.appended] using below
  · simpa [ReplayWindow.appended] using invariant.floorBound
  · intro other member
    simp only [ReplayWindow.appended, addReplayVersion_changeLog, mem_append,
      mem_singleton] at member
    rcases member with member | rfl
    · exact invariant.logBound other member
    · exact changeBound

theorem Invariant.pushChange {change : Change} (changeBound : change.revision ≤ revision) :
    Invariant (all ++ [change]) revision (window.pushChange options change) :=
  evictFrom_keeps options (fun log kept => kept.popFront log) rfl (invariant.appended changeBound)

theorem withinBudget_pushChange (change : Change) :
    (window.pushChange options change).overBudget options = false :=
  withinBudget_evictFrom options ((accounted_iff.mp invariant.accounted).appended nofun) rfl

end

theorem Retains.filter_eq (retains : Retains all window) {after : Nat}
    (reached : window.changeFloor ≤ after) :
    window.changeLog.filter (fun change => after < change.revision) =
      all.filter fun change => after < change.revision := by
  obtain ⟨evicted, rfl, below⟩ := retains
  have none : evicted.filter (fun change => after < change.revision) = [] := by
    refine filter_eq_nil_iff.mpr fun change member => ?_
    have := below change member
    simp only [decide_eq_true_eq]
    omega
  rw [filter_append, none, nil_append]

end ReplayWindow
end Firenook
