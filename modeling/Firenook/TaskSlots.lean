import Firenook.TaskQueues

/-!
# The slots of task queues

Slots are filled, started, freed and refilled by the timer, while responses to earlier
requests come in and queues are replaced under their key.  The invariant below links the
free stack to the slots, tasks to their places, and requests to the dispatches they were
sent for; a response can then reach no other dispatch.
-/

namespace Firenook.Tasks

variable {Double : Type}

namespace TaskQueue

open List TaskRecord

def Holds (queue : TaskQueue Double) (index : Nat) (dispatch : Dispatch Double) : Prop :=
  queue.slots[index]? = some (some dispatch)

theorem Holds.eq {queue : TaskQueue Double} {index : Nat} {first second : Dispatch Double}
    (left : queue.Holds index first) (right : queue.Holds index second) : first = second :=
  Option.some.inj (Option.some.inj (left.symm.trans right))

structure Sound (queue : TaskQueue Double) : Prop where
  openDistinct : queue.openDispatches.Nodup
  openEmpty : ∀ index, index ∈ queue.openDispatches ↔ queue.slots[index]? = some none
  pendingDistinct : (queue.pending.map name).Nodup
  slotsDistinct : ∀ {i j d e}, queue.Holds i d → queue.Holds j e → d.task.name = e.task.name → i = j
  apart : ∀ {i d}, queue.Holds i d → d.task.name ∉ queue.pending.map name
  pendingQueued : ∀ name ∈ queue.pending.map TaskRecord.name, name ∈ queue.queuedIds
  slotsQueued : ∀ {i d}, queue.Holds i d → d.task.name ∈ queue.queuedIds

/-- Slots hold what they held, perhaps in another state, or less. -/
def Inherits (before after : TaskQueue Double) : Prop :=
  ∀ i d, after.Holds i d → ∃ e, before.Holds i e ∧ e.id = d.id ∧ e.task = d.task

section Operations

variable {queue after : TaskQueue Double} {task : TaskRecord} {now : Nat}
  {config : QueueConfig Double} {index slot : Nat} {tasks : List TaskRecord} {i : Nat}
  {d : Dispatch Double} {nowMs : Nat}

theorem sound_enqueue (sound : queue.Sound) (ok : queue.enqueue task now = some after) :
    after.Sound ∧ after.key = queue.key ∧ after.slots = queue.slots := by
  unfold enqueue at ok
  split_ifs at ok with refused
  cases ok
  rw [Bool.not_eq_true, Bool.or_eq_false_iff, Bool.or_eq_false_iff] at refused
  have unused : task.name ∉ queue.queuedIds := by simpa using refused.1.1
  refine ⟨⟨sound.openDistinct, sound.openEmpty, ?_, sound.slotsDistinct, ?_, ?_, ?_⟩, rfl, rfl⟩
  · rw [map_append]
    refine nodup_append.mpr ⟨sound.pendingDistinct, nodup_singleton _, ?_⟩
    rintro name old other new rfl
    rw [mem_singleton.mp new] at old
    exact unused (sound.pendingQueued _ old)
  · intro i d holds
    rw [map_append, mem_append, not_or]
    refine ⟨sound.apart holds, fun same => unused ?_⟩
    rw [← mem_singleton.mp same]
    exact sound.slotsQueued holds
  · intro name member
    rw [map_append, mem_append] at member
    rcases member with old | new
    · exact mem_cons_of_mem _ (sound.pendingQueued name old)
    · rw [mem_singleton.mp new]
      exact mem_cons_self ..
  · exact fun holds => mem_cons_of_mem _ (sound.slotsQueued holds)

theorem sound_remove (sound : queue.Sound) {name : Text} (ok : queue.remove name = some after) :
    after.Sound ∧ after.key = queue.key ∧ after.slots = queue.slots := by
  unfold remove at ok
  split_ifs at ok
  cases ok
  have fewer : ((queue.pending.filter (·.name ≠ name)).map TaskRecord.name).Sublist
      (queue.pending.map TaskRecord.name) := filter_sublist.map _
  exact ⟨⟨sound.openDistinct, sound.openEmpty, sound.pendingDistinct.sublist fewer,
    sound.slotsDistinct, fun holds member => sound.apart holds (fewer.subset member),
    fun other member => sound.pendingQueued other (fewer.subset member), sound.slotsQueued⟩, rfl, rfl⟩

theorem inherits_of_slots (same : after.slots = queue.slots) : queue.Inherits after := by
  intro i d holds
  exact ⟨d, by rw [Holds, ← same]; exact holds, rfl, rfl⟩

/-! ## Dispatching -/

/-- What dispatching does with the slots: empty ones may be filled, under new ids. -/
structure Dispatched (queue : TaskQueue Double) (nextId : Nat) (after : TaskQueue Double)
    (nextId' : Nat) : Prop where
  key : after.key = queue.key
  sound : after.Sound
  grows : nextId ≤ nextId'
  slots : ∀ i, after.slots[i]? = queue.slots[i]? ∨ queue.slots[i]? = some none ∧
    ∃ d, after.Holds i d ∧ nextId < d.id ∧ d.id ≤ nextId'
  distinct : ∀ i j d e, queue.slots[i]? = some none → queue.slots[j]? = some none →
    after.Holds i d → after.Holds j e → d.id = e.id → i = j

theorem Dispatched.refl (sound : queue.Sound) (nextId : Nat) :
    Dispatched queue nextId queue nextId :=
  ⟨rfl, sound, le_refl _, fun _ => .inl rfl,
    fun _ _ _ _ empty _ holds => nomatch empty.symm.trans holds⟩

variable [Doubles Double]

theorem not_holds_new {key : Text}
    {dispatch : Dispatch Double} : ¬(new key config now).Holds index dispatch := by
  intro holds
  have inside := mem_of_getElem? holds
  cases eq_of_mem_replicate inside

theorem sound_new (key : Text) (config : QueueConfig Double) (now : Nat) :
    (new key config now).Sound where
  openDistinct := nodup_range
  openEmpty index := by
    change index ∈ range config.slots ↔ (replicate config.slots none)[index]? = some none
    rw [getElem?_replicate]
    split_ifs with within <;> simp [within]
  pendingDistinct := nodup_nil
  slotsDistinct holds := absurd holds not_holds_new
  apart holds := absurd holds not_holds_new
  pendingQueued _ member := absurd member not_mem_nil
  slotsQueued holds := absurd holds not_holds_new

theorem refillTokens_frame (now : Nat) (queue : TaskQueue Double) :
    (queue.refillTokens now).key = queue.key ∧ (queue.refillTokens now).slots = queue.slots ∧
      (queue.Sound → (queue.refillTokens now).Sound) := by
  unfold refillTokens
  dsimp only
  split_ifs
  · exact ⟨rfl, rfl, id⟩
  · exact ⟨rfl, rfl, fun sound => ⟨sound.openDistinct, sound.openEmpty, sound.pendingDistinct,
      sound.slotsDistinct, sound.apart, sound.pendingQueued, sound.slotsQueued⟩⟩

theorem holds_fill {id : Nat}
    (empty : queue.slots[slot]? = some none) : (queue.fill now id slot task tasks).Holds i d ↔
      if i = slot then d.id = id ∧ d.task = task ∧
        some (some d) = (queue.fill now id slot task tasks).slots[i]? else queue.Holds i d := by
  have within := (List.getElem?_eq_some_iff.mp empty).1
  unfold Holds fill
  split_ifs with same
  · subst same
    rw [List.getElem?_set_self within]
    constructor
    · rintro ⟨⟩
      exact ⟨rfl, rfl, rfl⟩
    · rintro ⟨-, -, stored⟩
      exact stored.symm
  · rw [List.getElem?_set_ne (Ne.symm same)]

theorem sound_fill (now id : Nat) (sound : queue.Sound)
    (pending : queue.pending = task :: tasks) (top : queue.openDispatches.getLast? = some slot) :
    (queue.fill now id slot task tasks).Sound := by
  have stack := List.dropLast_append_getLast? slot top
  have distinct := sound.openDistinct
  have pendingDistinct := sound.pendingDistinct
  have empty : queue.slots[slot]? = some none :=
    (sound.openEmpty slot).mp (List.mem_of_getLast? top)
  have within := (List.getElem?_eq_some_iff.mp empty).1
  rw [← stack, List.nodup_append] at distinct
  rw [pending, List.map_cons, List.nodup_cons] at pendingDistinct
  have kept : ∀ name ∈ tasks.map TaskRecord.name, name ∈ queue.pending.map TaskRecord.name := by
    intro name member
    rw [pending]
    exact List.mem_cons_of_mem _ member
  have moved : task.name ∈ queue.pending.map TaskRecord.name := by
    rw [pending]
    exact List.mem_cons_self ..
  refine ⟨distinct.1, ?_, pendingDistinct.2, ?_, ?_, ?_, ?_⟩
  · intro index
    have free := sound.openEmpty index
    rw [← stack] at free
    unfold fill
    by_cases same : index = slot
    · subst same
      rw [List.getElem?_set_self within]
      have gone : index ∉ queue.openDispatches.dropLast := fun member =>
        distinct.2.2 index member index (List.mem_singleton_self _) rfl
      simp [gone]
    · rw [List.getElem?_set_ne (Ne.symm same), ← free]
      simp [same]
  · intro i j d e left right
    rw [holds_fill empty] at left right
    intro names
    split_ifs at left right with first second second
    · rw [first, second]
    · rw [left.2.1] at names
      exact absurd moved (names ▸ sound.apart right)
    · rw [right.2.1] at names
      exact absurd moved (names ▸ sound.apart left)
    · exact sound.slotsDistinct left right names
  · intro i d holds
    rw [holds_fill empty] at holds
    split_ifs at holds with same
    · rw [holds.2.1]
      exact pendingDistinct.1
    · exact fun member => sound.apart holds (kept _ member)
  · exact fun name member => sound.pendingQueued name (kept name member)
  · intro i d holds
    rw [holds_fill empty] at holds
    split_ifs at holds with same
    · rw [holds.2.1]
      exact sound.pendingQueued _ moved
    · exact sound.slotsQueued holds

theorem Dispatched.fill {nextId nextId' : Nat} (empty : queue.slots[slot]? = some none)
    (rest : Dispatched (queue.fill now (nextId + 1) slot task tasks) (nextId + 1) after nextId') :
    Dispatched queue nextId after nextId' := by
  have within := (List.getElem?_eq_some_iff.mp empty).1
  have other : ∀ i, i ≠ slot →
      (queue.fill now (nextId + 1) slot task tasks).slots[i]? = queue.slots[i]? :=
    fun i differs => List.getElem?_set_ne (Ne.symm differs)
  obtain ⟨first, stored, id⟩ :
      ∃ d, (queue.fill now (nextId + 1) slot task tasks).Holds slot d ∧ d.id = nextId + 1 := by
    exact ⟨_, List.getElem?_set_self within, rfl⟩
  have held : after.Holds slot first := by
    rcases rest.slots slot with same | ⟨vacant, -⟩
    · exact same.trans stored
    · cases stored.symm.trans vacant
  have later : ∀ i d, i ≠ slot → queue.slots[i]? = some none → after.Holds i d →
      nextId + 1 < d.id ∧ d.id ≤ nextId' := by
    intro i d differs vacant holds
    rcases rest.slots i with same | ⟨-, e, new, bounds⟩
    · rw [other i differs, vacant] at same
      cases same.symm.trans holds
    · rw [Holds.eq holds new]
      exact bounds
  have grows := rest.grows
  refine ⟨rest.key, rest.sound, by omega, ?_, ?_⟩
  · intro i
    by_cases same : i = slot
    · subst same
      exact .inr ⟨empty, first, held, by omega, by omega⟩
    · rcases rest.slots i with kept | ⟨vacant, d, holds, -⟩
      · exact .inl (kept.trans (other i same))
      · rw [other i same] at vacant
        have bounds := later i d same vacant holds
        exact .inr ⟨vacant, d, holds, by omega, bounds.2⟩
  · intro i j d e left right holds holds' ids
    by_cases here : i = slot <;> by_cases there : j = slot
    · rw [here, there]
    · subst here
      have same := holds.eq held
      have bounds := later j e there right holds'
      rw [← ids, same] at bounds
      omega
    · subst there
      have same := holds'.eq held
      have bounds := later i d here left holds
      rw [ids, same] at bounds
      omega
    · rw [← other i here] at left
      rw [← other j there] at right
      exact rest.distinct i j d e left right holds holds' ids

theorem dispatched_from (now nextId : Nat) (sound : queue.Sound) (pending : queue.pending = tasks) :
    Dispatched queue nextId (dispatchFrom now tasks queue nextId).1
      (dispatchFrom now tasks queue nextId).2 := by
  induction tasks generalizing queue nextId with
  | nil => exact .refl sound nextId
  | cons task tasks ih =>
    unfold dispatchFrom
    cases top : queue.openDispatches.getLast? with
    | none => exact .refl sound nextId
    | some slot =>
      split_ifs with token
      · have empty : queue.slots[slot]? = some none :=
          (sound.openEmpty slot).mp (mem_of_getLast? top)
        have filled := sound_fill now (nextId + 1) sound pending top
        exact .fill empty (ih (nextId + 1) filled rfl)
      · exact .refl sound nextId

/-! ## Processing -/

/-- Where a visit leaves a dispatch; nothing if it frees the slot. -/
def visited (config : QueueConfig Double) (now : Nat) (dispatch : Dispatch Double) :
    Option (Dispatch Double) :=
  match dispatch.status with
  | .failed | .finished => none
  | .notStarted => if waits now dispatch then dispatch else some { dispatch with status := .running }
  | .retry =>
    if shouldStopRetrying dispatch config now then some { dispatch with status := .failed }
    else some { updateMetadata dispatch config with status := .notStarted }
  | .running => dispatch

def requested (key : Text) (now nowMs : Nat) (dispatch : Dispatch Double) : Option RunRequest :=
  if dispatch.status = .notStarted ∧ waits now dispatch = false then
    some (buildRequest key { dispatch with status := .running } nowMs)
  else none

def ended (slot : Option (Dispatch Double)) : Bool :=
  slot.any fun dispatch => dispatch.status = .failed || dispatch.status = .finished

structure Processed (now nowMs : Nat) (queue : TaskQueue Double) (count : Nat)
    (progress : TaskQueue Double × List RunRequest) : Prop where
  frame : progress.1.key = queue.key ∧ progress.1.config = queue.config ∧
    progress.1.pending = queue.pending ∧ progress.1.queuedIds = queue.queuedIds
  slots : ∀ i, progress.1.slots[i]? =
    if i < count then queue.slots[i]?.map (Option.bind · (visited queue.config now))
    else queue.slots[i]?
  openDispatches : progress.1.openDispatches =
    queue.openDispatches ++ (range count).filter fun i => queue.slots[i]?.any ended
  runs : progress.2 = (range count).filterMap fun i =>
    queue.slots[i]?.join.bind (requested queue.key now nowMs)

theorem processSlot_slots {runs : List RunRequest}
    {slot : Option (Dispatch Double)} (present : queue.slots[index]? = some slot) :
    (processSlot now nowMs (queue, runs) index).1.slots =
      queue.slots.set index (slot.bind (visited queue.config now)) := by
  obtain ⟨within, same⟩ := List.getElem?_eq_some_iff.mp present
  have unchanged : queue.slots.set index slot = queue.slots := by
    rw [← same]
    exact set_getElem_self ..
  unfold processSlot
  dsimp only
  rw [present]
  cases slot with
  | none => exact unchanged.symm
  | some dispatch =>
    rw [Option.bind_some, visited]
    dsimp only
    cases status : dispatch.status with
    | notStarted =>
      dsimp only
      split_ifs
      · exact unchanged.symm
      · rfl
    | running => exact unchanged.symm
    | retry =>
      split_ifs <;> rfl
    | failed => rfl
    | finished => rfl

theorem processSlot_rest (now nowMs : Nat) (runs : List RunRequest)
    {slot : Option (Dispatch Double)} (present : queue.slots[index]? = some slot) :
    let result := processSlot now nowMs (queue, runs) index
    (result.1.key = queue.key ∧ result.1.config = queue.config ∧
      result.1.pending = queue.pending ∧ result.1.queuedIds = queue.queuedIds) ∧
    result.1.openDispatches = queue.openDispatches ++ (if ended slot then [index] else []) ∧
    result.2 = runs ++ (slot.bind (requested queue.key now nowMs)).toList := by
  unfold processSlot
  dsimp only
  rw [present]
  cases slot with
  | none => simp [ended]
  | some dispatch =>
    rw [Option.bind_some, requested]
    cases status : dispatch.status with
    | notStarted =>
      by_cases waiting : waits now dispatch = true
      · simp [waiting, ended, status]
      · simp [waiting, ended, status]
    | running | retry => simp [ended, status]
    | failed | finished => simp [ended, status, release]

theorem processed_slot {count : Nat} {progress : TaskQueue Double × List RunRequest}
    (within : count < queue.slots.length) (processed : Processed now nowMs queue count progress) :
    Processed now nowMs queue (count + 1) (processSlot now nowMs progress count) := by
  obtain ⟨current, runs⟩ := progress
  obtain ⟨⟨key, config, pending, queued⟩, slots, opened, sent⟩ := processed
  dsimp only at key config pending queued slots opened sent
  obtain ⟨slot, stored⟩ : ∃ slot, queue.slots[count]? = some slot := ⟨_, getElem?_eq_getElem within⟩
  have present : current.slots[count]? = some slot := by
    rw [slots, if_neg (lt_irrefl _), stored]
  obtain ⟨frame, free, more⟩ := processSlot_rest now nowMs runs present
  refine ⟨?_, ?_, ?_, ?_⟩
  · rw [frame.1, frame.2.1, frame.2.2.1, frame.2.2.2]
    exact ⟨key, config, pending, queued⟩
  · intro i
    rw [processSlot_slots present, getElem?_set, slots i, config]
    have inside := (List.getElem?_eq_some_iff.mp present).1
    split_ifs with here below later later
    · rw [← here, stored]
      rfl
    · omega
    · rfl
    · omega
    · omega
    · rfl
  · rw [free, opened, range_succ]
    simp [filter_cons, stored]
  · rw [more, sent, key, range_succ, filterMap_append]
    simp only [filterMap_cons, stored, Option.join_some]
    cases slot.bind (requested queue.key now nowMs) <;> rfl

theorem processed (queue : TaskQueue Double) (now nowMs : Nat) :
    Processed now nowMs queue queue.slots.length (queue.process now nowMs) := by
  have upTo : ∀ count ≤ queue.slots.length, Processed now nowMs queue count
      ((range count).foldl (processSlot now nowMs) (queue, [])) := by
    intro count within
    induction count with
    | zero => exact ⟨⟨rfl, rfl, rfl, rfl⟩, fun i => rfl, by simp, rfl⟩
    | succ count ih =>
      rw [range_succ, foldl_append]
      exact processed_slot within (ih (Nat.le_of_succ_le within))
  exact upTo _ (le_refl _)

theorem visited_eq_none {dispatch : Dispatch Double} :
    visited config now dispatch = none ↔ ended (some dispatch) = true := by
  unfold visited ended
  cases status : dispatch.status <;> simp [status]
  all_goals split_ifs <;> simp

theorem visited_eq_some
    {before after : Dispatch Double} (result : visited config now before = some after) :
    before.id = after.id ∧ before.task = after.task ∧
      (before.status = .running → after.status = .running) ∧
      ∀ key nowMs request, requested key now nowMs before = some request →
        after.status = .running := by
  unfold visited requested at *
  cases status : before.status with
  | notStarted =>
    rw [status] at result
    dsimp only at result
    split_ifs at result with waiting
    · cases result
      simp [waiting]
    · cases result
      simp
  | running =>
    rw [status] at result
    cases result
    exact ⟨rfl, rfl, fun _ => status, fun _ _ _ _ => status⟩
  | retry =>
    rw [status] at result
    split_ifs at result <;> cases result <;> simp [updateMetadata]
  | failed | finished =>
    rw [status] at result
    cases result

theorem holds_process : (queue.process now nowMs).1.Holds i d ↔
      ∃ e, queue.Holds i e ∧ visited queue.config now e = some d := by
  unfold Holds
  rw [(processed queue now nowMs).slots i]
  constructor
  · intro holds
    split_ifs at holds with within
    · obtain ⟨slot, stored, result⟩ := Option.map_eq_some_iff.mp holds
      obtain ⟨e, rfl, visit⟩ := Option.bind_eq_some_iff.mp result
      exact ⟨e, stored, visit⟩
    · exact absurd (List.getElem?_eq_some_iff.mp holds).1 within
  · rintro ⟨e, stored, visit⟩
    rw [if_pos (List.getElem?_eq_some_iff.mp stored).1, stored, Option.map_some, Option.bind_some,
      visit]

theorem inherits_process (queue : TaskQueue Double) (now nowMs : Nat) :
    queue.Inherits (queue.process now nowMs).1 := by
  intro i d holds
  obtain ⟨e, stored, visit⟩ := holds_process.mp holds
  exact ⟨e, stored, (visited_eq_some visit).1, (visited_eq_some visit).2.1⟩

omit [Doubles Double] in
theorem Sound.inherit (sound : queue.Sound) (pending : after.pending = queue.pending)
    (queued : after.queuedIds = queue.queuedIds) (inherits : queue.Inherits after)
    (distinct : after.openDispatches.Nodup)
    (empty : ∀ index, index ∈ after.openDispatches ↔ after.slots[index]? = some none) :
    after.Sound where
  openDistinct := distinct
  openEmpty := empty
  pendingDistinct := pending ▸ sound.pendingDistinct
  slotsDistinct {i j d e} left right names := by
    obtain ⟨d', stored, -, task⟩ := inherits i d left
    obtain ⟨e', stored', -, task'⟩ := inherits j e right
    exact sound.slotsDistinct stored stored' (by rw [task, task', names])
  apart {i d} holds := by
    obtain ⟨d', stored, -, task⟩ := inherits i d holds
    rw [pending, ← task]
    exact sound.apart stored
  pendingQueued := by
    rw [pending, queued]
    exact sound.pendingQueued
  slotsQueued {i d} holds := by
    obtain ⟨d', stored, -, task⟩ := inherits i d holds
    rw [queued, ← task]
    exact sound.slotsQueued stored

theorem Sound.process (sound : queue.Sound) (now nowMs : Nat) :
    (queue.process now nowMs).1.Sound := by
  have loop := processed queue now nowMs
  refine sound.inherit loop.frame.2.2.1 loop.frame.2.2.2 (inherits_process queue now nowMs) ?_ ?_
  · rw [loop.openDispatches, nodup_append]
    refine ⟨sound.openDistinct, nodup_range.filter _, ?_⟩
    rintro index free other freed rfl
    rw [mem_filter, (sound.openEmpty index).mp free] at freed
    simp [ended] at freed
  · intro index
    rw [loop.openDispatches, mem_append, mem_filter, sound.openEmpty, loop.slots]
    cases stored : queue.slots[index]? with
    | none => simp
    | some slot =>
      have within := (List.getElem?_eq_some_iff.mp stored).1
      cases slot with
      | none => simp
      | some dispatch => simp [within, visited_eq_none]

theorem mem_process_runs {request : RunRequest} (sent : request ∈ (queue.process now nowMs).2) :
    ∃ i d e, queue.Holds i d ∧ d.status = .notStarted ∧ d.id = request.dispatchId ∧
      (queue.process now nowMs).1.Holds i e ∧ e.id = request.dispatchId ∧ e.status = .running ∧
      request.queueKey = queue.key := by
  rw [(processed queue now nowMs).runs] at sent
  obtain ⟨i, -, made⟩ := mem_filterMap.mp sent
  obtain ⟨d, stored, requests⟩ := Option.bind_eq_some_iff.mp made
  have holds : queue.Holds i d := Option.join_eq_some_iff.mp stored
  have started := requests
  unfold requested at started
  split_ifs at started with starts
  cases started
  have visit : visited queue.config now d = some { d with status := .running } := by
    simp [visited, starts.1, starts.2]
  exact ⟨i, d, { d with status := .running }, holds, starts.1, rfl,
    holds_process.mpr ⟨d, holds, visit⟩, rfl, rfl, rfl⟩

theorem nodup_process_runs
    (distinct : ∀ i j d e, queue.Holds i d → queue.Holds j e → d.id = e.id → i = j) :
    ((queue.process now nowMs).2.map RunRequest.dispatchId).Nodup := by
  rw [(processed queue now nowMs).runs, map_filterMap]
  refine Nodup.filterMap ?_ nodup_range
  have origin : ∀ i id, id ∈ (queue.slots[i]?.join.bind (requested queue.key now nowMs)).map
      RunRequest.dispatchId → ∃ d, queue.Holds i d ∧ d.id = id := by
    intro i id made
    obtain ⟨request, sent, rfl⟩ := Option.map_eq_some_iff.mp made
    obtain ⟨d, stored, requests⟩ := Option.bind_eq_some_iff.mp sent
    unfold requested at requests
    split_ifs at requests
    cases requests
    exact ⟨d, Option.join_eq_some_iff.mp stored, rfl⟩
  intro i j id left right
  obtain ⟨d, holds, rfl⟩ := origin i id left
  obtain ⟨e, holds', same⟩ := origin j d.id right
  exact distinct i j d e holds holds' same.symm

/-! ## Completion -/

omit [Doubles Double] in
theorem complete_cases (queue : TaskQueue Double) (id : Nat) (outcome : Outcome) (now : Nat) :
    queue.complete id outcome now = queue ∨
      ∃ i d, queue.Holds i d ∧ d.id = id ∧ d.status = .running ∧
        queue.complete id outcome now =
          { queue with slots := queue.slots.set i (some (settle outcome now d)) } := by
  unfold complete
  cases found : queue.slots.findIdx? (runs id) with
  | none => exact .inl rfl
  | some index =>
    obtain ⟨within, matching, -⟩ := findIdx?_eq_some_iff_getElem.mp found
    obtain ⟨d, stored, test⟩ := Option.any_eq_true _ _ |>.mp matching
    rw [Bool.and_eq_true, decide_eq_true_eq, decide_eq_true_eq] at test
    refine .inr ⟨index, d, ?_, test.1, test.2, ?_⟩
    · rw [Holds, getElem?_eq_getElem within, stored]
    · dsimp only
      rw [modify_eq_set_get _ within, get_eq_getElem, stored]
      rfl

omit [Doubles Double] in
theorem settle_frame (outcome : Outcome) (now : Nat) (dispatch : Dispatch Double) :
    (settle outcome now dispatch).id = dispatch.id ∧
      (settle outcome now dispatch).task = dispatch.task := by
  unfold settle
  cases outcome with
  | status code =>
    dsimp only
    split_ifs <;> exact ⟨rfl, rfl⟩
  | failed => exact ⟨rfl, rfl⟩

omit [Doubles Double] in
theorem holds_complete {id : Nat} {outcome : Outcome}
    (holds : (queue.complete id outcome now).Holds i d) :
    ∃ e, queue.Holds i e ∧ e.id = d.id ∧ e.task = d.task ∧ (d.id ≠ id → e = d) := by
  rcases complete_cases queue id outcome now with same | ⟨j, e, stored, named, -, result⟩
  · rw [same] at holds
    exact ⟨d, holds, rfl, rfl, fun _ => rfl⟩
  · rw [result, Holds, getElem?_set] at holds
    split_ifs at holds with here within
    · cases holds
      obtain ⟨sameId, sameTask⟩ := settle_frame outcome now e
      exact ⟨e, here ▸ stored, sameId.symm, sameTask.symm,
        fun other => absurd (sameId.trans named) other⟩
    · exact ⟨d, holds, rfl, rfl, fun _ => rfl⟩

omit [Doubles Double] in
theorem Sound.complete (sound : queue.Sound) (id : Nat) (outcome : Outcome) (now : Nat) :
    (queue.complete id outcome now).Sound := by
  rcases complete_cases queue id outcome now with same | ⟨j, e, stored, -, -, result⟩
  · rw [same]
    exact sound
  · have inherits : queue.Inherits (queue.complete id outcome now) := by
      intro i d holds
      obtain ⟨e, old, sameId, task, -⟩ := holds_complete holds
      exact ⟨e, old, sameId, task⟩
    rw [result] at inherits ⊢
    refine sound.inherit rfl rfl inherits sound.openDistinct fun index => ?_
    rw [sound.openEmpty index]
    rw [getElem?_set]
    split_ifs with here within
    · rw [← here, stored]
      simp
    · exact absurd (List.getElem?_eq_some_iff.mp stored).1 within
    · rfl

omit [Doubles Double] in
theorem complete_key (queue : TaskQueue Double) (id : Nat) (outcome : Outcome) (now : Nat) :
    (queue.complete id outcome now).key = queue.key := by
  rcases complete_cases queue id outcome now with same | ⟨_, _, -, -, -, result⟩
  · rw [same]
  · rw [result]

end Operations
end TaskQueue
end Firenook.Tasks
