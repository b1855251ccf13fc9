import Firenook.StoreHistory

/-!
# Reading the store at a past time

Commit times strictly increase below the limit of the seconds counter, whatever
the clock reads.  The retained commit points are the latest points of the run,
and the point just before them never falls behind the change floor; so every
time that is not older than that point resolves to a revision that can still be
read back.
-/

namespace Firenook

open List Timestamp Version
open History (step run)

def Version.point (version : Version) : CommitPoint :=
  ⟨version.result.revision, version.result.commitTime⟩

theorem trimCommitTimes_spec (excess : List CommitPoint → Bool) (floor : CommitPoint)
    (points : List CommitPoint) :
    (∃ dropped, floor :: points =
        dropped ++ (trimCommitTimes excess floor points).historyFloor ::
          (trimCommitTimes excess floor points).commitTimes) ∧
      ((trimCommitTimes excess floor points).commitTimes = [] ∨
        excess (trimCommitTimes excess floor points).commitTimes = false) := by
  induction points generalizing floor with
  | nil => exact ⟨⟨[], rfl⟩, .inl rfl⟩
  | cons point points ih =>
    rw [trimCommitTimes]
    split_ifs with exceeds
    · obtain ⟨⟨dropped, split⟩, stopped⟩ := ih point
      exact ⟨⟨floor :: dropped, by rw [split, cons_append]⟩, stopped⟩
    · exact ⟨⟨[], rfl⟩, .inr (by simpa using exceeds)⟩

theorem pushCommitPoint_spec (options : StoreOptions) (changeFloor : Nat)
    (index : CommitTimeIndex) (point : CommitPoint) :
    (∃ dropped, index.historyFloor :: (index.commitTimes ++ [point]) =
        dropped ++ (pushCommitPoint options changeFloor index point).historyFloor ::
          (pushCommitPoint options changeFloor index point).commitTimes) ∧
      ∀ first rest,
        (pushCommitPoint options changeFloor index point).commitTimes = first :: rest →
          changeFloor < first.revision := by
  unfold pushCommitPoint
  obtain ⟨⟨dropped, split⟩, _⟩ := trimCommitTimes_spec
    (fun points => points.length > options.maxChangeLogEntries) index.historyFloor
    (index.commitTimes ++ [point])
  generalize trimCommitTimes (fun points => points.length > options.maxChangeLogEntries)
    index.historyFloor (index.commitTimes ++ [point]) = counted at split ⊢
  obtain ⟨⟨dropped', split'⟩, stopped⟩ := trimCommitTimes_spec
    (fun points => points.head?.any fun point => point.revision ≤ changeFloor)
    counted.historyFloor counted.commitTimes
  refine ⟨⟨dropped ++ dropped', by rw [split, split', append_assoc]⟩, ?_⟩
  intro first rest remaining
  rcases stopped with none | kept
  · simp [none] at remaining
  · simpa [remaining] using kept

/-! ## Commit times -/

theorem observed_aligned (clock : ClockReading) : clock.observed.nanos % 1000 = 0 := by
  simp [ClockReading.observed]

theorem saturatingNextMicrosecond_aligned (time : Timestamp) :
    time.saturatingNextMicrosecond.nanos % 1000 = 0 := by
  unfold saturatingNextMicrosecond
  dsimp only
  split <;> simp

theorem nextCommitTime_aligned (state : State) (clock : ClockReading) :
    (state.nextCommitTime clock).nanos % 1000 = 0 := by
  unfold State.nextCommitTime
  split_ifs
  · exact observed_aligned clock
  · exact saturatingNextMicrosecond_aligned _

/-- Commit times increase, and the retained points are the latest ones. -/
structure TimeIndexed (history : History) : Prop where
  increasing : history.versions.Pairwise fun earlier later =>
    earlier.result.commitTime < later.result.commitTime
  bounded : ∀ version ∈ history.versions, version.result.commitTime ≤ history.state.lastCommitTime
  timeBound : history.state.lastCommitTime.seconds < maxSeconds
  aligned : ∀ version ∈ history.versions, version.result.commitTime.nanos % 1000 = 0
  latest : ∃ older, history.versions.map point =
    older ++ history.state.commitIndex.historyFloor :: history.state.commitIndex.commitTimes
  floor : history.state.window.changeFloor ≤ history.state.commitIndex.historyFloor.revision

theorem timeIndexed_start (options : StoreOptions) : TimeIndexed (.start options) where
  increasing := pairwise_singleton _ _
  bounded version member := by
    cases mem_singleton.mp member
    exact le_iff_instant.mpr le_rfl
  timeBound := by
    change (0 : Int) < maxSeconds
    decide
  aligned version member := by
    cases mem_singleton.mp member
    rfl
  latest := ⟨[], rfl⟩
  floor := le_rfl

variable {history : History}

theorem Recorded.revision_of_points (recorded : Recorded history)
    {older newer : List CommitPoint} {point : CommitPoint}
    (split : history.versions.map Version.point = older ++ point :: newer) :
    point.revision = older.length := by
  have atIndex : (history.versions.map Version.point)[older.length]? = some point := by
    rw [split]
    simp
  rw [getElem?_map, Option.map_eq_some_iff] at atIndex
  obtain ⟨version, atIndex, rfl⟩ := atIndex
  exact recorded.revisions _ _ atIndex

theorem Recorded.changeFloor_le (recorded : Recorded history)
    {older newer : List CommitPoint} {floor : CommitPoint}
    (split : history.versions.map Version.point = older ++ floor :: newer)
    (above : ∀ first rest, newer = first :: rest →
      history.state.window.changeFloor < first.revision) :
    history.state.window.changeFloor ≤ floor.revision := by
  have floorRevision := recorded.revision_of_points split
  cases newer with
  | nil =>
    have lengthEq := congrArg List.length split
    simp only [length_map, recorded.length, length_append, length_cons, length_nil] at lengthEq
    have := recorded.window.floorBound
    omega
  | cons first rest =>
    have firstSplit : history.versions.map Version.point =
        (older ++ [floor]) ++ first :: rest := by
      simp [split]
    have firstRevision := recorded.revision_of_points firstSplit
    have := above first rest rfl
    simp only [length_append, length_cons, length_nil] at firstRevision
    omega

theorem TimeIndexed.step (indexed : TimeIndexed history)
    (recorded : Recorded history) {request : Request}
    (below : history.BelowTimeLimit request) : TimeIndexed (history.step request) := by
  have later := lt_nextCommitTime indexed.timeBound request.clock
  rw [lt_iff_instant] at later
  rcases step_cases history request with unchanged | ⟨planned, changes, committed⟩
  · rwa [unchanged]
  have recorded' := recorded.step request
  generalize history.step request = next at committed recorded'
  have older : ∀ version ∈ history.versions, version.result.commitTime.instant <
      (history.state.nextCommitTime request.clock).instant := by
    intro version member
    have := indexed.bounded version member
    rw [le_iff_instant] at this
    omega
  obtain ⟨⟨dropped, pushed⟩, above⟩ := pushCommitPoint_spec history.state.options
    next.state.window.changeFloor history.state.commitIndex
    ⟨history.state.revision + 1, history.state.nextCommitTime request.clock⟩
  rw [← committed.commitIndex] at pushed above
  obtain ⟨oldest, split⟩ := indexed.latest
  have newSplit : next.versions.map point = (oldest ++ dropped) ++
      next.state.commitIndex.historyFloor :: next.state.commitIndex.commitTimes := by
    rw [committed.versions, map_append, split, append_assoc, append_assoc, ← pushed]
    rfl
  refine ⟨?_, ?_, ?_, ?_, ⟨oldest ++ dropped, newSplit⟩, recorded'.changeFloor_le newSplit above⟩
  · rw [committed.versions]
    refine pairwise_append.mpr ⟨indexed.increasing, pairwise_singleton _ _, ?_⟩
    intro earlier member new isNew
    cases mem_singleton.mp isNew
    exact lt_iff_instant.mpr (older earlier member)
  · rw [committed.versions, committed.lastCommitTime]
    intro version member
    rw [le_iff_instant]
    rcases mem_append.mp member with member | member
    · exact (older version member).le
    · cases mem_singleton.mp member
      exact le_rfl
  · rw [committed.lastCommitTime]
    exact below
  · rw [committed.versions]
    intro version member
    rcases mem_append.mp member with member | member
    · exact indexed.aligned version member
    · cases mem_singleton.mp member
      exact nextCommitTime_aligned _ _

theorem timeIndexed_run {options : StoreOptions} {requests : List Request}
    (below : Runs.AllSteps step History.BelowTimeLimit (.start options) requests) :
    TimeIndexed (.run options requests) :=
  invariant_run_recorded (timeIndexed_start options)
    (fun indexed recorded => indexed.step recorded) below

/-! ## Resolving a time -/

/-- The version is the last one committed at or before the time. -/
structure History.CurrentAt (history : History) (time : Timestamp) (version : Version) :
    Prop where
  member : version ∈ history.versions
  committed : version.result.commitTime ≤ time
  last : ∀ later ∈ history.versions, version.result.revision < later.result.revision →
    time < later.result.commitTime

theorem lt_of_mem_dropWhile {points : List CommitPoint} {time : Timestamp}
    (increasing : points.Pairwise fun earlier later => earlier.commitTime < later.commitTime)
    {point : CommitPoint}
    (member : point ∈ points.dropWhile fun point => point.commitTime ≤ time) :
    time < point.commitTime := by
  have notYet := head?_dropWhile_not (fun point => decide (point.commitTime ≤ time)) points
  have lateIncreasing := increasing.sublist
    (dropWhile_sublist fun point => decide (point.commitTime ≤ time))
  cases lateEq : points.dropWhile fun point => decide (point.commitTime ≤ time) with
  | nil => simp [lateEq] at member
  | cons first rest =>
    rw [lateEq] at notYet lateIncreasing member
    have firstLater : time < first.commitTime := by
      simp only [head?_cons, decide_eq_false_iff_not, le_iff_instant] at notYet
      exact lt_iff_instant.mpr (by omega)
    rcases mem_cons.mp member with rfl | member
    · exact firstLater
    · have restLater := (pairwise_cons.mp lateIncreasing).1 point member
      rw [lt_iff_instant] at firstLater restLater ⊢
      omega

theorem TimeIndexed.revisionAtTime (indexed : TimeIndexed history)
    (recorded : Recorded history) {time : Timestamp}
    (retained : history.state.commitIndex.historyFloor.commitTime ≤ time) :
    ∃ version, history.versions[history.state.revisionAtTime time]? = some version ∧
      history.CurrentAt time version ∧
      history.state.window.changeFloor ≤ history.state.revisionAtTime time := by
  obtain ⟨older, split⟩ := indexed.latest
  have increasing : (history.versions.map Version.point).Pairwise fun earlier later =>
      earlier.commitTime < later.commitTime := pairwise_map.mpr indexed.increasing
  have floorRevision := recorded.revision_of_points split
  have floorBound := indexed.floor
  unfold State.revisionAtTime
  generalize history.state.commitIndex.historyFloor = floor at *
  generalize history.state.commitIndex.commitTimes = points at *
  -- The points up to the time end in the resolved one; all others are later.
  have pointsSplit := takeWhile_append_dropWhile
    (p := fun point => decide (point.commitTime ≤ time)) (l := points)
  have earlyBound : ∀ point ∈ floor :: points.takeWhile fun point =>
      decide (point.commitTime ≤ time), point.commitTime ≤ time := by
    intro point member
    rcases mem_cons.mp member with rfl | member
    · exact retained
    · simpa using mem_takeWhile_imp member
  have lateLater : ∀ point ∈ points.dropWhile fun point => decide (point.commitTime ≤ time),
      time < point.commitTime := by
    rw [split] at increasing
    exact fun point => lt_of_mem_dropWhile (pairwise_cons.mp (pairwise_append.mp increasing).2.1).2
  generalize points.takeWhile (fun point => decide (point.commitTime ≤ time)) = early at *
  generalize points.dropWhile (fun point => decide (point.commitTime ≤ time)) = late at *
  obtain ⟨init, resolved, endsIn⟩ : ∃ init resolved, floor :: early = init ++ [resolved] :=
    ⟨_, _, (dropLast_append_getLast (cons_ne_nil floor early)).symm⟩
  have resolvedRevision : (early.getLast?.map CommitPoint.revision).getD floor.revision =
      resolved.revision := by
    have last := congrArg getLast? endsIn
    rw [getLast?_cons] at last
    cases earlyLast : early.getLast? with
    | none => simp_all
    | some point => simp_all
  have resolvedSplit : history.versions.map Version.point =
      (older ++ init) ++ resolved :: late := by
    rw [split, ← pointsSplit, ← cons_append, endsIn]
    simp
  have placed := recorded.revision_of_points resolvedSplit
  rw [resolvedRevision]
  have atPlace : (history.versions.map Version.point)[resolved.revision]? = some resolved := by
    rw [resolvedSplit, placed]
    simp
  rw [getElem?_map, Option.map_eq_some_iff] at atPlace
  obtain ⟨version, atPlace, rfl⟩ := atPlace
  refine ⟨version, atPlace, ⟨mem_of_getElem? atPlace, ?_, ?_⟩, ?_⟩
  · exact earlyBound version.point (by simp [endsIn])
  · intro later member newer
    obtain ⟨index, atIndex⟩ := mem_iff_getElem?.mp member
    rw [recorded.revisions index later atIndex] at newer
    refine lateLater later.point (mem_of_getElem? (i := index -
      (older ++ init ++ [version.point]).length) ?_)
    have pointAt : (history.versions.map Version.point)[index]? = some later.point := by
      rw [getElem?_map, atIndex]
      rfl
    rw [resolvedSplit, append_cons, getElem?_append_right] at pointAt
    · exact pointAt
    · rw [length_append, ← placed]
      exact newer
  · rw [placed, length_append]
    omega

/-- Commit times strictly increase in whole microseconds, and a read at any time
either expires, exactly when it is older than the history floor, or shows the last
version committed at or before it. -/
theorem snapshotAtTime_shows_current_version (options : StoreOptions) (requests : List Request)
    (below : Runs.AllSteps step History.BelowTimeLimit (.start options) requests) :
    (run options requests).versions.Pairwise (fun earlier later =>
        earlier.result.commitTime < later.result.commitTime) ∧
      (∀ version ∈ (run options requests).versions,
        version.result.commitTime.nanos % 1000 = 0) ∧
      ∀ time : Timestamp,
        if time < (run options requests).state.commitIndex.historyFloor.commitTime then
          (run options requests).state.snapshotAtTime time =
            .error (.readTimeExpired time
              (run options requests).state.commitIndex.historyFloor.commitTime)
        else
          ∃ version snapshot, (run options requests).CurrentAt time version ∧
            (run options requests).state.snapshotAtTime time = .ok snapshot ∧
            snapshot.Shows version := by
  have recorded := recorded_run options requests
  have linked := timeLinked_run below
  have indexed := timeIndexed_run below
  generalize run options requests = history at *
  refine ⟨indexed.increasing, indexed.aligned, fun time => ?_⟩
  unfold State.snapshotAtTime
  split_ifs with expired
  · rfl
  · obtain ⟨version, atRevision, current, reachable⟩ :=
      indexed.revisionAtTime recorded expired
    have reached : history.state.revisionAtTime time ≤ history.state.revision := by
      obtain ⟨inRange, _⟩ := List.getElem?_eq_some_iff.mp atRevision
      rw [recorded.length] at inRange
      omega
    obtain ⟨snapshot, success, shows, _⟩ :=
      linked.snapshotAtRevision recorded reachable reached atRevision
    exact ⟨version, snapshot, current, success, shows⟩

/-- A clock that goes backwards and then repeats itself. -/
theorem snapshotAtTime_sample :
    (run ⟨2, 1000⟩
      [⟨⟨5, 7, by decide, by decide⟩, [Sample.patchDouble 0]⟩,
        ⟨⟨3, 0, by decide, by decide⟩, []⟩,
        ⟨⟨5, 8, by decide, by decide⟩, [.delete Sample.itemA .none]⟩]).versions.Pairwise
      (fun earlier later => earlier.result.commitTime < later.result.commitTime) :=
  (snapshotAtTime_shows_current_version _ _ (by decide)).1

end Firenook
