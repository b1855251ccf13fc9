import Firenook.TaskSlots

/-!
# Runs of the tasks runtime

The invariant of all queues together, over every run of registrations, changes, timer
steps and responses.
-/

namespace Firenook.Tasks

open List Runs TaskQueue Option RunRequest

variable {Double : Type}

theorem lookup_cons_if (key other : Text) (queue : TaskQueue Double)
    (queues : List (Text × TaskQueue Double)) :
    ((key, queue) :: queues).lookup other =
      if other = key then some queue else queues.lookup other := by
  rw [lookup_cons]
  split_ifs with same
  · rw [same, beq_self_eq_true]
  · rw [beq_eq_false_iff_ne.mpr same]

theorem lookup_insertQueue (key other : Text) (queue : TaskQueue Double)
    (queues : List (Text × TaskQueue Double)) :
    (insertQueue key queue queues).lookup other =
      if other = key then some queue else queues.lookup other := by
  induction queues with
  | nil => rw [insertQueue, lookup_cons_if]
  | cons pair queues ih =>
    obtain ⟨first, old⟩ := pair
    rw [insertQueue, lookup_cons_if]
    by_cases here : first = key
    · rw [if_pos here, lookup_cons_if, here]
      split_ifs <;> rfl
    · rw [if_neg here, lookup_cons_if, ih]
      split_ifs with left right
      · exact absurd (left.symm.trans right) here
      · rfl
      · rfl
      · rfl

theorem insertQueue_self {key : Text} {queue : TaskQueue Double}
    {queues : List (Text × TaskQueue Double)} (present : queues.lookup key = some queue) :
    insertQueue key queue queues = queues := by
  induction queues with
  | nil => cases present
  | cons pair queues ih =>
    obtain ⟨first, old⟩ := pair
    rw [lookup_cons_if] at present
    rw [insertQueue]
    by_cases here : first = key
    · rw [if_pos here.symm, some.injEq] at present
      rw [if_pos here, here, present]
    · rw [if_neg (Ne.symm here)] at present
      rw [if_neg here, ih present]

theorem mem_fillings {before after : List (Option (Dispatch Double))} {id : Nat} :
    id ∈ fillings before after ↔
      ∃ (i : Nat) (d : Dispatch Double),
        before[i]? = some none ∧ after[i]? = some (some d) ∧ d.id = id := by
  unfold fillings
  rw [mem_filterMap]
  constructor
  · rintro ⟨i, -, made⟩
    split at made
    · rename_i d empty holds
      exact ⟨i, d, empty, holds, some.inj made⟩
    · cases made
  · rintro ⟨i, d, empty, holds, rfl⟩
    refine ⟨i, List.mem_range.mpr (List.getElem?_eq_some_iff.mp holds).1, ?_⟩
    rw [empty, holds]

theorem nodup_fillings {queue after : TaskQueue Double} {nextId nextId' : Nat}
    (dispatched : Dispatched queue nextId after nextId') :
    (fillings queue.slots after.slots).Nodup := by
  refine Nodup.filterMap ?_ nodup_range
  intro i j id left right
  split at left
  · rename_i d empty holds
    split at right
    · rename_i e empty' holds'
      exact dispatched.distinct i j d e empty empty' holds holds'
        ((some.inj left).trans (some.inj right).symm)
    · cases right
  · cases left

namespace TasksRuntime

variable {runtime : TasksRuntime Double} {key : Text} {queue after : TaskQueue Double}
  {other : Text} {i : Nat} {d : Dispatch Double}

theorem queue?_setQueue (runtime : TasksRuntime Double) (key other : Text)
    (queue : TaskQueue Double) : (runtime.setQueue key queue).queue? other =
      if other = key then some queue else runtime.queue? other :=
  lookup_insertQueue ..

def Holds (runtime : TasksRuntime Double) (key : Text) (index : Nat)
    (dispatch : Dispatch Double) : Prop :=
  ∃ queue, runtime.queue? key = some queue ∧ queue.Holds index dispatch

theorem holds_setQueue : (runtime.setQueue key queue).Holds other i d ↔
      if other = key then queue.Holds i d else runtime.Holds other i d := by
  unfold Holds
  rw [queue?_setQueue]
  split_ifs
  · exact ⟨fun ⟨_, same, holds⟩ => some.inj same ▸ holds, fun holds => ⟨_, rfl, holds⟩⟩
  · rfl

structure Disciplined (runtime : TasksRuntime Double) : Prop where
  queues : ∀ key queue, runtime.queue? key = some queue → queue.Sound ∧ queue.key = key
  recorded : ∀ {key i d}, runtime.Holds key i d → d.id ∈ runtime.filled
  unique : ∀ {key i d key' j e}, runtime.Holds key i d → runtime.Holds key' j e → d.id = e.id →
    key = key' ∧ i = j
  filledOnce : runtime.filled.Nodup
  bounded : ∀ id ∈ runtime.filled, id ≤ runtime.nextDispatch
  single : (runtime.outstanding.map dispatchId).Nodup
  running : ∀ request ∈ runtime.outstanding, ∀ {key i d}, runtime.Holds key i d →
    d.id = request.dispatchId → d.status = .running
  waiting : ∀ request ∈ runtime.outstanding, request ∈ runtime.sent
  sent : ∀ request ∈ runtime.sent, request.dispatchId ∈ runtime.filled
  addressed : ∀ request ∈ runtime.sent, ∀ {key i d}, runtime.Holds key i d →
    d.id = request.dispatchId → key = request.queueKey

variable {operation : TaskQueue Double → Option (TaskQueue Double)}

namespace Disciplined

theorem start : Disciplined ({} : TasksRuntime Double) where
  queues _ _ present := nomatch present
  recorded holds := nomatch holds.choose_spec.1
  unique holds := nomatch holds.choose_spec.1
  filledOnce := nodup_nil
  bounded _ member := absurd member not_mem_nil
  single := nodup_nil
  running _ member := absurd member not_mem_nil
  waiting _ member := absurd member not_mem_nil
  sent _ member := absurd member not_mem_nil
  addressed _ member := absurd member not_mem_nil

section

variable (disciplined : runtime.Disciplined)
include disciplined

theorem replace (sound : after.Sound) (named : after.key = key)
    (inherits : ∀ i d, after.Holds i d → ∃ e, runtime.Holds key i e ∧ e.id = d.id)
    (running : ∀ request ∈ runtime.outstanding, ∀ i d, after.Holds i d →
      d.id = request.dispatchId → d.status = .running) :
    (runtime.setQueue key after).Disciplined := by
  have origin : ∀ {other i d}, (runtime.setQueue key after).Holds other i d →
      ∃ e, runtime.Holds other i e ∧ e.id = d.id := by
    intro other i d holds
    rw [holds_setQueue] at holds
    split_ifs at holds with same
    · exact same ▸ inherits i d holds
    · exact ⟨d, holds, rfl⟩
  refine ⟨?_, ?_, ?_, disciplined.filledOnce, disciplined.bounded, disciplined.single, ?_,
    disciplined.waiting, disciplined.sent, ?_⟩
  · intro other queue present
    rw [queue?_setQueue] at present
    split_ifs at present with same
    · cases present
      exact ⟨sound, named.trans same.symm⟩
    · exact disciplined.queues other queue present
  · intro other i d holds
    obtain ⟨e, held, id⟩ := origin holds
    rw [← id]
    exact disciplined.recorded held
  · intro first i d second j e left right ids
    obtain ⟨d', held, id⟩ := origin left
    obtain ⟨e', held', id'⟩ := origin right
    exact disciplined.unique held held' (by rw [id, id', ids])
  · intro request waiting other i d holds id
    rw [holds_setQueue] at holds
    split_ifs at holds
    · exact running request waiting i d holds id
    · exact disciplined.running request waiting holds id
  · intro request member other i d holds id
    obtain ⟨e, held, same⟩ := origin holds
    exact disciplined.addressed request member held (same.trans id)

theorem change_slots (keeps : ∀ queue after, operation queue = some after → queue.Sound →
      after.Sound ∧ after.key = queue.key ∧ after.slots = queue.slots) :
    (runtime.change key operation).Disciplined := by
  unfold change
  cases result : (runtime.queue? key).bind operation with
  | none => exact disciplined
  | some after =>
    obtain ⟨queue, present, done⟩ := bind_eq_some_iff.mp result
    obtain ⟨sound, named⟩ := disciplined.queues key queue present
    obtain ⟨soundAfter, sameKey, slots⟩ := keeps queue after done sound
    have held : ∀ i d, after.Holds i d → runtime.Holds key i d := by
      intro i d holds
      rw [TaskQueue.Holds, slots] at holds
      exact ⟨queue, present, holds⟩
    exact disciplined.replace soundAfter (sameKey.trans named)
      (fun i d holds => ⟨d, held i d holds, rfl⟩)
      fun request waiting i d holds => disciplined.running request waiting (held i d holds)

theorem send {runs : List RunRequest} (distinct : (runs.map dispatchId).Nodup)
    (idle : ∀ run ∈ runs, ∀ request ∈ runtime.outstanding, request.dispatchId ≠ run.dispatchId)
    (started : ∀ run ∈ runs, ∃ i d, runtime.Holds run.queueKey i d ∧ d.id = run.dispatchId ∧
      d.status = .running) : Disciplined { runtime with
      sent := runtime.sent ++ runs
      outstanding := runtime.outstanding ++ runs } := by
  refine ⟨disciplined.queues, disciplined.recorded, disciplined.unique, disciplined.filledOnce,
    disciplined.bounded, ?_, ?_, ?_, ?_, ?_⟩
  · rw [map_append, nodup_append]
    refine ⟨disciplined.single, distinct, ?_⟩
    rintro id old other new rfl
    obtain ⟨request, waiting, rfl⟩ := mem_map.mp old
    obtain ⟨run, member, same⟩ := mem_map.mp new
    exact idle run member request waiting same.symm
  · intro request member other i d holds id
    rcases mem_append.mp member with old | new
    · exact disciplined.running request old holds id
    · obtain ⟨j, e, held, sameId, status⟩ := started request new
      obtain ⟨rfl, rfl⟩ := disciplined.unique holds held (id.trans sameId.symm)
      obtain ⟨queue, present, stored⟩ := holds
      obtain ⟨queue', present', stored'⟩ := held
      cases present.symm.trans present'
      rw [stored.eq stored']
      exact status
  · intro request member
    rcases mem_append.mp member with old | new
    · exact mem_append_left _ (disciplined.waiting request old)
    · exact mem_append_right _ new
  · intro request member
    rcases mem_append.mp member with old | new
    · exact disciplined.sent request old
    · obtain ⟨j, e, held, sameId, -⟩ := started request new
      rw [← sameId]
      exact disciplined.recorded held
  · intro request member other i d holds id
    rcases mem_append.mp member with old | new
    · exact disciplined.addressed request old holds id
    · obtain ⟨j, e, held, sameId, -⟩ := started request new
      exact (disciplined.unique holds held (id.trans sameId.symm)).1

theorem fill (present : runtime.queue? key = some queue)
    {next : Nat} (dispatched : Dispatched queue runtime.nextDispatch after next)
    (named : queue.key = key) : Disciplined { runtime.setQueue key after with
      nextDispatch := next
      filled := runtime.filled ++ fillings queue.slots after.slots } := by
  have old : ∀ {other i d}, runtime.Holds other i d → d.id ≤ runtime.nextDispatch :=
    fun holds => disciplined.bounded _ (disciplined.recorded holds)
  have origin : ∀ {other i d}, (runtime.setQueue key after).Holds other i d →
      runtime.Holds other i d ∨ other = key ∧ queue.slots[i]? = some none ∧ after.Holds i d ∧
        runtime.nextDispatch < d.id ∧ d.id ≤ next := by
    intro other i d holds
    rw [holds_setQueue] at holds
    split_ifs at holds with same
    · rcases dispatched.slots i with kept | ⟨empty, e, held, bounds⟩
      · rw [TaskQueue.Holds, kept] at holds
        exact .inl ⟨queue, same ▸ present, holds⟩
      · rw [← holds.eq held] at bounds
        exact .inr ⟨same, empty, holds, bounds⟩
    · exact .inl holds
  have known : ∀ request ∈ runtime.sent, request.dispatchId ≤ runtime.nextDispatch :=
    fun request member => disciplined.bounded _ (disciplined.sent request member)
  have fresh : ∀ id ∈ fillings queue.slots after.slots,
      runtime.nextDispatch < id ∧ id ≤ next := by
    intro id member
    obtain ⟨i, d, empty, holds, rfl⟩ := mem_fillings.mp member
    rcases dispatched.slots i with kept | ⟨-, e, held, bounds⟩
    · cases (kept.trans empty).symm.trans holds
    · rw [Holds.eq holds held]
      exact bounds
  refine ⟨?_, ?_, ?_, ?_, ?_, disciplined.single, ?_, disciplined.waiting, ?_, ?_⟩
  · intro other found stored
    change (runtime.setQueue key after).queue? other = some found at stored
    rw [queue?_setQueue] at stored
    split_ifs at stored with same
    · cases stored
      exact ⟨dispatched.sound, dispatched.key.trans (named.trans same.symm)⟩
    · exact disciplined.queues other found stored
  · intro other i d holds
    rcases origin holds with before | ⟨-, empty, held, -⟩
    · exact mem_append_left _ (disciplined.recorded before)
    · exact mem_append_right _ (mem_fillings.mpr ⟨i, d, empty, held, rfl⟩)
  · intro first i d second j e left right ids
    rcases origin left with before | ⟨rfl, empty, held, low, -⟩ <;>
      rcases origin right with before' | ⟨rfl, empty', held', low', -⟩
    · exact disciplined.unique before before' ids
    · have := old before
      omega
    · have := old before'
      omega
    · exact ⟨rfl, dispatched.distinct i j d e empty empty' held held' ids⟩
  · rw [nodup_append]
    refine ⟨disciplined.filledOnce, nodup_fillings dispatched, ?_⟩
    rintro id before other new rfl
    have := disciplined.bounded id before
    have := fresh id new
    omega
  · intro id member
    rcases mem_append.mp member with before | new
    · exact (disciplined.bounded id before).trans dispatched.grows
    · exact (fresh id new).2
  · intro request waiting other i d holds id
    have := known request (disciplined.waiting request waiting)
    rcases origin holds with before | ⟨-, -, -, low, -⟩
    · exact disciplined.running request waiting before id
    · omega
  · exact fun request member => mem_append_left _ (disciplined.sent request member)
  · intro request member other i d holds id
    have := known request member
    rcases origin holds with before | ⟨-, -, -, low, -⟩
    · exact disciplined.addressed request member before id
    · omega

theorem answer (index : Nat) :
    Disciplined { runtime with outstanding := runtime.outstanding.eraseIdx index } := by
  have fewer := eraseIdx_sublist runtime.outstanding index
  exact ⟨disciplined.queues, disciplined.recorded, disciplined.unique, disciplined.filledOnce,
    disciplined.bounded, disciplined.single.sublist (fewer.map _),
    fun request member => disciplined.running request (fewer.subset member),
    fun request member => disciplined.waiting request (fewer.subset member), disciplined.sent,
    disciplined.addressed⟩

theorem complete (request : RunRequest) (outcome : Outcome)
    (now : Nat) (last : ∀ other ∈ runtime.outstanding, other.dispatchId ≠ request.dispatchId) :
    (runtime.complete request outcome now).Disciplined := by
  unfold TasksRuntime.complete change
  cases present : runtime.queue? request.queueKey with
  | none => exact disciplined
  | some queue =>
    obtain ⟨sound, named⟩ := disciplined.queues _ queue present
    refine disciplined.replace (sound.complete request.dispatchId outcome now)
      ((queue.complete_key request.dispatchId outcome now).trans named) ?_ ?_
    · intro i d holds
      obtain ⟨e, held, id, -⟩ := holds_complete holds
      exact ⟨e, ⟨queue, present, held⟩, id⟩
    · intro other waiting i d holds id
      obtain ⟨e, held, -, -, same⟩ := holds_complete holds
      rw [same (id ▸ last other waiting)] at held
      exact disciplined.running other waiting ⟨queue, present, held⟩ id

theorem respond (index : Nat) (outcome : Outcome) (now : Nat) :
    (runtime.respond index outcome now).Disciplined := by
  unfold TasksRuntime.respond
  cases found : runtime.outstanding[index]? with
  | none => exact disciplined
  | some request =>
    obtain ⟨within, same⟩ := List.getElem?_eq_some_iff.mp found
    have distinct := ((getElem_cons_eraseIdx_perm within).map
      dispatchId).nodup_iff.mpr disciplined.single
    rw [map_cons, nodup_cons, same] at distinct
    have last : ∀ other ∈ runtime.outstanding.eraseIdx index,
        other.dispatchId ≠ request.dispatchId := by
      intro other member equal
      exact distinct.1 (equal ▸ mem_map_of_mem member)
    have result := (disciplined.answer index).complete request outcome now last
    have commutes : TasksRuntime.complete request outcome now
        { runtime with outstanding := runtime.outstanding.eraseIdx index } =
        { runtime.complete request outcome now with
          outstanding := runtime.outstanding.eraseIdx index } := by
      unfold TasksRuntime.complete change queue?
      dsimp only
      split <;> rfl
    rw [commutes] at result
    exact result

end

variable [Doubles Double]

theorem process (disciplined : runtime.Disciplined) (key : Text) (now nowMs : Nat) :
    (runtime.process key now nowMs).Disciplined := by
  unfold TasksRuntime.process
  cases present : runtime.queue? key with
  | none => exact disciplined
  | some queue =>
    obtain ⟨sound, named⟩ := disciplined.queues key queue present
    have replaced : (runtime.setQueue key (queue.process now nowMs).1).Disciplined := by
      refine disciplined.replace (sound.process now nowMs)
        ((processed queue now nowMs).frame.1.trans named) ?_ ?_
      · intro i d holds
        obtain ⟨e, held, id, -⟩ := inherits_process queue now nowMs i d holds
        exact ⟨e, ⟨queue, present, held⟩, id⟩
      · intro request waiting i d holds id
        obtain ⟨e, held, visit⟩ := holds_process.mp holds
        obtain ⟨sameId, -, keeps, -⟩ := visited_eq_some visit
        exact keeps (disciplined.running request waiting ⟨queue, present, held⟩ (sameId.trans id))
    refine replaced.send ?_ ?_ ?_
    · refine nodup_process_runs fun i j d e left right ids => ?_
      exact (disciplined.unique ⟨queue, present, left⟩ ⟨queue, present, right⟩ ids).2
    · intro run member request waiting same
      obtain ⟨i, d, -, held, status, id, -⟩ := mem_process_runs member
      have runs := disciplined.running request waiting ⟨queue, present, held⟩ (id.trans same.symm)
      cases status.symm.trans runs
    · intro run member
      obtain ⟨i, -, e, -, -, -, held, id, status, address⟩ := mem_process_runs member
      refine ⟨i, e, holds_setQueue.mpr ?_, id, status⟩
      rw [if_pos (address.trans named)]
      exact held

theorem dispatch (disciplined : runtime.Disciplined) (key : Text) (now : Nat) :
    (runtime.dispatch key now).Disciplined := by
  unfold TasksRuntime.dispatch
  cases present : runtime.queue? key with
  | none => exact disciplined
  | some queue =>
    obtain ⟨sound, named⟩ := disciplined.queues key queue present
    have dispatched : Dispatched queue runtime.nextDispatch
        (queue.dispatchTasks now runtime.nextDispatch).1
        (queue.dispatchTasks now runtime.nextDispatch).2 :=
      dispatched_from now runtime.nextDispatch sound rfl
    exact disciplined.fill present dispatched named

theorem step (runtime : TasksRuntime Double) (action : TaskStep Double)
    (disciplined : runtime.Disciplined) : (runtime.step action).Disciplined := by
  cases action with
  | registerQueue key config now =>
    exact disciplined.replace (sound_new key config now) rfl
      (fun i d holds => absurd holds not_holds_new)
      fun request waiting i d holds => absurd holds not_holds_new
  | enqueue key task now =>
    refine disciplined.change_slots fun queue after ok sound => ?_
    obtain ⟨soundAfter, named, slots⟩ := sound_enqueue sound ok
    exact ⟨soundAfter, named, slots⟩
  | remove key name =>
    refine disciplined.change_slots fun queue after ok sound => ?_
    obtain ⟨soundAfter, named, slots⟩ := sound_remove sound ok
    exact ⟨soundAfter, named, slots⟩
  | refill key now =>
    refine disciplined.change_slots fun queue after ok sound => ?_
    cases ok
    obtain ⟨named, slots, keeps⟩ := refillTokens_frame now queue
    exact ⟨keeps sound, named, slots⟩
  | dispatch key now => exact disciplined.dispatch key now
  | process key now nowMs => exact disciplined.process key now nowMs
  | respond index outcome now => exact disciplined.respond index outcome now

theorem run (steps : List (TaskStep Double)) : (run TasksRuntime.step {} steps).Disciplined :=
  invariant_run_unconditional Disciplined step start steps

end Disciplined

/-! ## Late responses -/

theorem change_origin
    (inherits : ∀ queue after, operation queue = some after → queue.Inherits after)
    (holds : (runtime.change key operation).Holds other i d) :
    ∃ e, runtime.Holds other i e ∧ e.id = d.id := by
  unfold change at holds
  cases result : (runtime.queue? key).bind operation with
  | none =>
    rw [result] at holds
    exact ⟨d, holds, rfl⟩
  | some after =>
    rw [result] at holds
    obtain ⟨queue, present, done⟩ := bind_eq_some_iff.mp result
    rw [holds_setQueue] at holds
    split_ifs at holds with same
    · obtain ⟨e, held, id, -⟩ := inherits queue after done i d holds
      exact ⟨e, ⟨queue, same ▸ present, held⟩, id⟩
    · exact ⟨d, holds, rfl⟩

theorem complete_origin {request : RunRequest} {outcome : Outcome} {now : Nat}
    (holds : (runtime.complete request outcome now).Holds other i d) :
    ∃ e, runtime.Holds other i e ∧ e.id = d.id := by
  refine change_origin (fun queue after done i d holds => ?_) holds
  cases done
  obtain ⟨e, held, id, task, -⟩ := holds_complete holds
  exact ⟨e, held, id, task⟩

theorem change_nextDispatch (runtime : TasksRuntime Double) (key : Text)
    (operation : TaskQueue Double → Option (TaskQueue Double)) :
    (runtime.change key operation).nextDispatch = runtime.nextDispatch := by
  unfold change
  split <;> rfl

section Steps

variable [Doubles Double]

theorem step_origin (disciplined : runtime.Disciplined) {action : TaskStep Double} {other : Text}
    {i : Nat} {d : Dispatch Double} (holds : (runtime.step action).Holds other i d) :
    (∃ e, runtime.Holds other i e ∧ e.id = d.id) ∨ runtime.nextDispatch < d.id := by
  cases action with
  | registerQueue key config now =>
    rw [step, registerQueue, holds_setQueue] at holds
    split_ifs at holds
    · exact absurd holds TaskQueue.not_holds_new
    · exact .inl ⟨d, holds, rfl⟩
  | enqueue key task now =>
    refine .inl (change_origin (fun queue after done => ?_) holds)
    unfold TaskQueue.enqueue at done
    split_ifs at done
    cases done
    exact TaskQueue.inherits_of_slots rfl
  | remove key name =>
    refine .inl (change_origin (fun queue after done => ?_) holds)
    unfold TaskQueue.remove at done
    split_ifs at done
    cases done
    exact TaskQueue.inherits_of_slots rfl
  | refill key now =>
    refine .inl (change_origin (fun queue after done => ?_) holds)
    cases done
    exact TaskQueue.inherits_of_slots (TaskQueue.refillTokens_frame now queue).2.1
  | dispatch key now =>
    unfold step dispatch at holds
    dsimp only at holds
    split at holds
    · next queue present =>
      change (runtime.setQueue key _).Holds other i d at holds
      rw [holds_setQueue] at holds
      split_ifs at holds with same
      · have dispatched := TaskQueue.dispatched_from now runtime.nextDispatch
          (disciplined.queues key queue present).1 rfl
        rcases dispatched.slots i with kept | ⟨-, e, held, bounds⟩
        · exact .inl ⟨d, ⟨queue, same ▸ present, kept.symm.trans holds⟩, rfl⟩
        · rw [← holds.eq held] at bounds
          exact .inr bounds.1
      · exact .inl ⟨d, holds, rfl⟩
    · exact .inl ⟨d, holds, rfl⟩
  | process key now nowMs =>
    unfold step process at holds
    dsimp only at holds
    split at holds
    · next queue present =>
      change (runtime.setQueue key _).Holds other i d at holds
      rw [holds_setQueue] at holds
      split_ifs at holds with same
      · obtain ⟨e, held, id, -⟩ := TaskQueue.inherits_process queue now nowMs i d holds
        exact .inl ⟨e, ⟨queue, same ▸ present, held⟩, id⟩
      · exact .inl ⟨d, holds, rfl⟩
    · exact .inl ⟨d, holds, rfl⟩
  | respond index outcome now =>
    unfold step respond at holds
    dsimp only at holds
    split at holds
    · exact .inl (complete_origin holds)
    · exact .inl ⟨d, holds, rfl⟩

theorem nextDispatch_step (disciplined : runtime.Disciplined) (action : TaskStep Double) :
    runtime.nextDispatch ≤ (runtime.step action).nextDispatch := by
  cases action with
  | registerQueue key config now => exact le_refl _
  | enqueue key task now | remove key name | refill key now =>
    exact (change_nextDispatch runtime ..).ge
  | dispatch key now =>
    unfold step dispatch
    dsimp only
    cases present : runtime.queue? key with
    | none => exact le_refl _
    | some queue =>
      exact (dispatched_from now runtime.nextDispatch
        (disciplined.queues key queue present).1 rfl).grows
  | process key now nowMs =>
    unfold step process
    dsimp only
    split <;> exact le_refl _
  | respond index outcome now =>
    unfold step respond
    dsimp only
    split
    · exact (change_nextDispatch runtime ..).ge
    · exact le_refl _

/-- The queue under the key has only dispatches above the bound. -/
structure Fresh (key : Text) (bound : Nat) (runtime : TasksRuntime Double) : Prop where
  disciplined : runtime.Disciplined
  reached : bound ≤ runtime.nextDispatch
  above : ∀ {i d}, runtime.Holds key i d → bound < d.id

theorem Fresh.step {bound : Nat} (runtime : TasksRuntime Double) (action : TaskStep Double)
    (fresh : runtime.Fresh key bound) : (runtime.step action).Fresh key bound where
  disciplined := fresh.disciplined.step runtime action
  reached := fresh.reached.trans (nextDispatch_step fresh.disciplined action)
  above {i d} holds := by
    rcases step_origin fresh.disciplined holds with ⟨e, held, id⟩ | later
    · rw [← id]
      exact fresh.above held
    · exact fresh.reached.trans_lt later

theorem fresh_registered (disciplined : runtime.Disciplined) (config : QueueConfig Double)
    (now : Nat) : (runtime.registerQueue key config now).Fresh key runtime.nextDispatch where
  disciplined := disciplined.step runtime (.registerQueue key config now)
  reached := le_refl _
  above {i d} holds := by
    rw [registerQueue, holds_setQueue, if_pos rfl] at holds
    exact absurd holds not_holds_new

end Steps

theorem setQueue_self (present : runtime.queue? key = some queue) :
    runtime.setQueue key queue = runtime := by
  unfold setQueue
  rw [insertQueue_self present]

theorem complete_cases (runtime : TasksRuntime Double) (request : RunRequest) (outcome : Outcome)
    (now : Nat) :
    runtime.complete request outcome now = runtime ∨
      ∃ queue i d, runtime.queue? request.queueKey = some queue ∧ queue.Holds i d ∧
        d.id = request.dispatchId ∧ d.status = .running ∧
        runtime.complete request outcome now = runtime.setQueue request.queueKey
          { queue with slots := queue.slots.set i (some (settle outcome now d)) } := by
  unfold complete change
  cases present : runtime.queue? request.queueKey with
  | none => exact .inl rfl
  | some queue =>
    rw [bind_some]
    rcases queue.complete_cases request.dispatchId outcome now with same | ⟨i, d, held, rest⟩
    · rw [same]
      exact .inl (setQueue_self present)
    · refine .inr ⟨queue, i, d, rfl, held, rest.1, rest.2.1, ?_⟩
      rw [rest.2.2]

section Ticks

variable [Doubles Double]

theorem visit_eq_run (now nowMs : Nat) (runtime : TasksRuntime Double) (key : Text) :
    ∃ steps, runtime.visit now nowMs key = run step runtime steps := by
  unfold visit
  dsimp only
  split_ifs
  · exact ⟨[.refill key now, .dispatch key now, .process key now nowMs], rfl⟩
  · exact ⟨[.refill key now], rfl⟩

/-- A tick of the timer is a run of the queues' steps. -/
theorem tick_eq_run (now nowMs : Nat) (runtime : TasksRuntime Double) :
    ∃ steps, runtime.tick now nowMs = run step runtime steps := by
  unfold tick
  generalize runtime.queues.map Prod.fst = keys
  induction keys generalizing runtime with
  | nil => exact ⟨[], rfl⟩
  | cons key keys ih =>
    obtain ⟨first, visited⟩ := visit_eq_run now nowMs runtime key
    obtain ⟨rest, later⟩ := ih (runtime.visit now nowMs key)
    refine ⟨first ++ rest, ?_⟩
    rw [run_append, ← visited, ← later]
    rfl

end Ticks
end TasksRuntime

inductive Place
  | pending (position : Nat)
  | slot (index : Nat)

def TaskQueue.taskAt (queue : TaskQueue Double) : Place → Option TaskRecord
  | .pending position => queue.pending[position]?
  | .slot index => queue.slots[index]?.join.map Dispatch.task

theorem TaskQueue.Sound.place_unique {queue : TaskQueue Double} (sound : queue.Sound)
    {here there : Place} {task other : TaskRecord} (first : queue.taskAt here = some task)
    (second : queue.taskAt there = some other) (names : task.name = other.name) :
    here = there := by
  have named : ∀ {position : Nat} {task : TaskRecord}, queue.pending[position]? = some task →
      (queue.pending.map TaskRecord.name)[position]? = some task.name := by
    intro position task stored
    rw [getElem?_map, stored, map_some]
  have held : ∀ {index : Nat} {task : TaskRecord}, queue.taskAt (.slot index) = some task →
      ∃ d, queue.Holds index d ∧ d.task = task := by
    intro index task stored
    obtain ⟨d, occupied, same⟩ := map_eq_some_iff.mp stored
    exact ⟨d, join_eq_some_iff.mp occupied, same⟩
  cases here with
  | pending position =>
    have inside := mem_of_getElem? (named first)
    cases there with
    | pending position' =>
      have same := (nodup_iff_injective_get.mp sound.pendingDistinct)
      obtain ⟨within, left⟩ := List.getElem?_eq_some_iff.mp (named first)
      obtain ⟨within', right⟩ := List.getElem?_eq_some_iff.mp (named second)
      have equal := @same ⟨position, within⟩ ⟨position', within'⟩
        (by rw [get_eq_getElem, get_eq_getElem, left, right, names])
      rw [Fin.mk.inj equal]
    | slot index =>
      obtain ⟨d, holds, rfl⟩ := held second
      exact absurd (names ▸ inside) (sound.apart holds)
  | slot index =>
    obtain ⟨d, holds, rfl⟩ := held first
    cases there with
    | pending position =>
      exact absurd (names ▸ mem_of_getElem? (named second)) (sound.apart holds)
    | slot index' =>
      obtain ⟨e, holds', rfl⟩ := held second
      rw [sound.slotsDistinct holds holds' names]

namespace TasksRuntime

/-- At every point of every run: the free stack has the empty slots, each once; tasks are in
one place; no two slot fillings of any queue share an id; dispatches have one outstanding
request at most; and an outcome changes nothing but the running dispatch with its id, hence
nothing at all after the queue was registered again. -/
theorem task_slots_disciplined [Doubles Double] (steps : List (TaskStep Double)) :
    let runtime := run step ({} : TasksRuntime Double) steps
    (∀ key queue, runtime.queue? key = some queue →
      queue.openDispatches.Nodup ∧
      (∀ index, index ∈ queue.openDispatches ↔ queue.slots[index]? = some none) ∧
      ∀ here there task other, queue.taskAt here = some task → queue.taskAt there = some other →
        task.name = other.name → here = there) ∧
    runtime.filled.Nodup ∧
    (∀ key i d key' j e, runtime.Holds key i d → runtime.Holds key' j e →
      d.id ∈ runtime.filled ∧ (d.id = e.id → key = key' ∧ i = j)) ∧
    (runtime.outstanding.map RunRequest.dispatchId).Nodup ∧
    (∀ request ∈ runtime.sent, ∀ outcome now,
      runtime.complete request outcome now = runtime ∨
      ∃ queue i d, runtime.queue? request.queueKey = some queue ∧ queue.Holds i d ∧
        d.id = request.dispatchId ∧ d.status = .running ∧
        runtime.complete request outcome now = runtime.setQueue request.queueKey
          { queue with slots := queue.slots.set i (some (settle outcome now d)) }) ∧
    ∀ earlier key config registered later,
      steps = earlier ++ .registerQueue key config registered :: later →
      ∀ request ∈ (run step ({} : TasksRuntime Double) earlier).sent,
        request.queueKey = key → ∀ outcome now,
        runtime.complete request outcome now = runtime := by
  intro runtime
  have disciplined : runtime.Disciplined := Disciplined.run steps
  refine ⟨?_, disciplined.filledOnce, ?_, disciplined.single,
    fun request _ outcome now => runtime.complete_cases request outcome now, ?_⟩
  · intro key queue present
    have sound := (disciplined.queues key queue present).1
    exact ⟨sound.openDistinct, sound.openEmpty, fun here there task other => sound.place_unique⟩
  · intro key i d key' j e left right
    exact ⟨disciplined.recorded left, disciplined.unique left right⟩
  · intro earlier key config registered later split_ request member addressed outcome now
    have before := Disciplined.run earlier
    have fresh : runtime.Fresh key (run step ({} : TasksRuntime Double) earlier).nextDispatch := by
      change Fresh key _ (run step {} steps)
      rw [split_, run_append]
      exact invariant_run_unconditional _ Fresh.step
        (fresh_registered before config registered) later
    rcases runtime.complete_cases request outcome now with same | ⟨queue, i, d, present, held, id, -⟩
    · exact same
    · have low := before.bounded _ (before.sent request member)
      have high := fresh.above ⟨queue, addressed ▸ present, held⟩
      omega

end TasksRuntime

/-- Exact arithmetic; powers have natural exponents. -/
instance : Doubles Rat where
  literal := id
  seconds duration := duration / 1000000000
  add := (· + ·)
  sub := (· - ·)
  mul := (· * ·)
  div := (· / ·)
  powf base exponent := base ^ exponent.num.toNat
  min := Min.min
  max := Max.max
  lt left right := left < right
  le left right := left ≤ right
  eq left right := left = right
  nan := 0
  isNan _ := false

namespace Sample

def config : QueueConfig Rat where
  maxAttempts := 3
  maxRetrySeconds := none
  maxBackoffSeconds := 3600
  maxDoublings := 16
  minBackoffSeconds := 1 / 10
  slots := 2
  maxDispatchesPerSecond := 5

def task (name : String) : TaskRecord where
  name := name.toList
  url := none
  headers := []
  body := []
  scheduleTime := none
  deadline := 60000000000

def key : Text := "queue".toList

def waiting : List (TaskStep Rat) :=
  [.registerQueue key config 0, .enqueue key (task "a") 0, .enqueue key (task "b") 0,
    .refill key 1000000000, .dispatch key 1000000000, .process key 1000000000 1000]

def again : List (TaskStep Rat) :=
  [.enqueue key (task "a") 2000000000, .refill key 3000000000, .dispatch key 3000000000,
    .process key 3000000000 3000]

def after (steps : List (TaskStep Rat)) : TasksRuntime Rat := run TasksRuntime.step {} steps

end Sample

open Firenook.Tasks.Sample

theorem TasksRuntime.task_slots_disciplined_sample :
    (after waiting).sent.map RunRequest.dispatchId = [2, 1] ∧
    ∀ request ∈ (after waiting).sent, ∀ outcome now,
      let runtime := after
        (waiting ++ .registerQueue key config 2000000000 :: again)
      runtime.outstanding.map RunRequest.dispatchId = [2, 1, 3] ∧
        runtime.complete request outcome now = runtime := by
  have addressed : ∀ request ∈ (after waiting).sent,
      request.queueKey = Sample.key := by decide +kernel
  refine ⟨by decide +kernel, fun request member outcome now => ⟨by decide +kernel, ?_⟩⟩
  exact (task_slots_disciplined _).2.2.2.2.2 waiting key config 2000000000
    again rfl request member (addressed request member) outcome now

end Firenook.Tasks
