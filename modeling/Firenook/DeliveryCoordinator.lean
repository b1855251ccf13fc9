import Firenook.FunctionsDelivery

/-!
# The delivery coordinator

One loop takes requests from the queue, drops those whose event it has seen among the last
ones it admitted, and keeps a bounded set of deliveries running.  Once it is told to stop,
it closes the queue, admits all that is left in it, and waits for the deliveries.
-/

namespace Firenook.Functions

open List

structure DeliveryHealth where
  admitted : Nat := 0
  deduplicated : Nat := 0
  delivered : Nat := 0
  assumedDeliveredAfterResponseLoss : Nat := 0
  retries : Nat := 0
  failed : Nat := 0
  lastError : Option Text := none
  deliveryLatenciesMicros : List Nat := []

/-- The coordinator between two events of its loop, with the queue and the two signals it
listens to; besides, what the queue accepted, how requests were decided, and which
deliveries have ended. -/
structure Coordinator where
  queue : List DispatchRequest := []
  closed : Bool := false
  /-- All senders are gone. -/
  disconnected : Bool := false
  /-- The shutdown channel has changed. -/
  signalled : Bool := false
  seen : List Text := []
  seenOrder : List Text := []
  deliveries : List DispatchRequest := []
  stopping : Bool := false
  finished : Bool := false
  health : DeliveryHealth := {}
  accepted : List DispatchRequest := []
  decided : List (DispatchRequest × Bool) := []
  ended : List DispatchRequest := []

inductive CoordinatorStep
  | enqueue (request : DispatchRequest)
  /-- The last sender goes. -/
  | disconnect
  /-- Shutdown is sent, or its sender is dropped. -/
  | signal
  /-- The branches of the loop. -/
  | receive
  | joinNext (index : Nat) (outcome : Except Text DeliveryOutcome)
  | changed

/-- Forgets the oldest events until there is room for another one. -/
def expire (capacity : Nat) : List Text → List Text → List Text × List Text
  | [], seen => ([], seen)
  | expired :: order, seen =>
    if capacity ≤ seen.length then expire capacity order (seen.filter (· ≠ expired))
    else (expired :: order, seen)

def recordOutcome (outcome : Except Text DeliveryOutcome) (health : DeliveryHealth) :
    DeliveryHealth :=
  match outcome with
  | .ok (.delivered retries latencyMicros) =>
    let latencies := health.deliveryLatenciesMicros
    { health with
      delivered := health.delivered + 1
      retries := health.retries + retries
      deliveryLatenciesMicros :=
        (if 4096 ≤ latencies.length then latencies.drop 1 else latencies) ++ [latencyMicros] }
  | .ok (.assumedDelivered retries reason) =>
    { health with
      assumedDeliveredAfterResponseLoss := health.assumedDeliveredAfterResponseLoss + 1
      retries := health.retries + retries
      lastError := some reason }
  | .ok (.failed retries error) =>
    { health with
      failed := health.failed + 1
      retries := health.retries + retries
      lastError := some error }
  | .error error =>
    { health with
      failed := health.failed + 1
      lastError := some ("Functions delivery task failed: ".toList ++ error) }

variable (policy : DeliveryPolicy)

namespace Coordinator

def enqueue (request : DispatchRequest) (state : Coordinator) : Coordinator :=
  if state.closed || state.disconnected then state
  else
    { state with
      queue := state.queue ++ [request]
      accepted := state.accepted ++ [request] }

variable (state : Coordinator)

def admitDelivery (request : DispatchRequest) : Coordinator :=
  if state.seen.contains request.eventId then
    { state with
      health := { state.health with deduplicated := state.health.deduplicated + 1 }
      decided := state.decided ++ [(request, false)] }
  else
    let (seenOrder, seen) := expire policy.dedupeCapacity state.seenOrder state.seen
    { state with
      seen := if seen.contains request.eventId then seen else seen ++ [request.eventId]
      seenOrder := seenOrder ++ [request.eventId]
      health := { state.health with admitted := state.health.admitted + 1 }
      deliveries := state.deliveries ++ [request]
      decided := state.decided ++ [(request, true)] }

def proceed : Coordinator :=
  if state.stopping then
    let drained := state.queue.foldl (admitDelivery policy) { state with closed := true, queue := [] }
    { drained with finished := drained.deliveries.isEmpty }
  else state

def receive : Coordinator :=
  if state.stopping || policy.maxConcurrent ≤ state.deliveries.length then state
  else
    match state.queue with
    | request :: queue => proceed policy (admitDelivery policy { state with queue } request)
    | [] => if state.disconnected then proceed policy { state with stopping := true } else state

def joinNext (index : Nat) (outcome : Except Text DeliveryOutcome)
    (state : Coordinator) : Coordinator :=
  match state.deliveries[index]? with
  | some request =>
    proceed policy
      { state with
        deliveries := state.deliveries.eraseIdx index
        ended := state.ended ++ [request]
        health := recordOutcome outcome state.health }
  | none => state

def changed : Coordinator :=
  if state.stopping || !state.signalled then state
  else proceed policy { state with stopping := true }

def step : CoordinatorStep → Coordinator
  | .enqueue request => state.enqueue request
  | .disconnect => { state with disconnected := true }
  | .signal => { state with signalled := true }
  | .receive => state.receive policy
  | .joinNext index outcome => state.joinNext policy index outcome
  | .changed => state.changed policy

end Coordinator

variable (decided : List (DispatchRequest × Bool))

def admittedIds : List Text :=
  (decided.filter Prod.snd).map fun pair => pair.1.eventId

variable (capacity : Nat)

def recentIds (decided : List (DispatchRequest × Bool)) : List Text :=
  (admittedIds decided).drop ((admittedIds decided).length - capacity)

def admittedRequests : List DispatchRequest :=
  (decided.filter Prod.snd).map Prod.fst

/-! ## The window of seen events -/

theorem admittedIds_append (first second : List (DispatchRequest × Bool)) :
    admittedIds (first ++ second) = admittedIds first ++ admittedIds second := by
  unfold admittedIds
  rw [filter_append, map_append]

theorem expire_recent {capacity : Nat} {window : List Text} (distinct : window.Nodup)
    (bounded : window.length ≤ capacity) :
    expire capacity window window =
      (window.drop (window.length + 1 - capacity), window.drop (window.length + 1 - capacity)) := by
  cases window with
  | nil =>
    rw [expire, drop_nil]
  | cons first rest =>
    rw [length_cons] at bounded
    obtain ⟨fresh, -⟩ := nodup_cons.mp distinct
    have removed : (first :: rest).filter (· ≠ first) = rest := by
      rw [filter_cons_of_neg (by simp)]
      exact filter_eq_self.mpr fun other member =>
        decide_eq_true fun same => fresh (same ▸ member)
    have settled : ∀ order, rest.length < capacity →
        expire capacity order rest = (order, rest) := by
      intro order room
      cases order with
      | nil => rfl
      | cons head tail =>
        rw [expire, if_neg (by omega)]
    rw [expire, length_cons]
    split_ifs with full
    · rw [removed, settled rest (by omega), show rest.length + 1 + 1 - capacity = 1 by omega]
      rfl
    · rw [show rest.length + 1 + 1 - capacity = 0 by omega, drop_zero]

theorem length_recentIds_le (decided : List (DispatchRequest × Bool)) :
    (recentIds capacity decided).length ≤ capacity := by
  rw [recentIds, length_drop]
  omega

theorem recentIds_admitted {capacity : Nat} (positive : 0 < capacity)
    (decided : List (DispatchRequest × Bool)) (request : DispatchRequest) :
    recentIds capacity (decided ++ [(request, true)]) =
      (recentIds capacity decided).drop ((recentIds capacity decided).length + 1 - capacity) ++
        [request.eventId] := by
  have last : admittedIds [(request, true)] = [request.eventId] := rfl
  unfold recentIds
  rw [admittedIds_append, last, length_append, length_singleton, drop_drop,
    length_drop, drop_append_of_le_length (by omega)]
  congr 2
  omega

theorem recentIds_deduplicated (decided : List (DispatchRequest × Bool))
    (request : DispatchRequest) :
    recentIds capacity (decided ++ [(request, false)]) = recentIds capacity decided := by
  have nothing : admittedIds [(request, false)] = [] := rfl
  unfold recentIds
  rw [admittedIds_append, nothing, append_nil]

/-! ## Accounts -/

/-- The accounts of the coordinator, which has taken some requests from the queue. -/
structure Accounted (policy : DeliveryPolicy) (taken : List DispatchRequest)
    (state : Coordinator) : Prop where
  order : state.accepted = state.decided.map Prod.fst ++ (taken ++ state.queue)
  seen : state.seen = recentIds policy.dedupeCapacity state.decided
  seenOrder : state.seenOrder = recentIds policy.dedupeCapacity state.decided
  distinct : (recentIds policy.dedupeCapacity state.decided).Nodup
  justified : ∀ earlier request admitted later,
    state.decided = earlier ++ (request, admitted) :: later →
    (admitted = false ↔ request.eventId ∈ recentIds policy.dedupeCapacity earlier)
  admitted : state.health.admitted = (admittedRequests state.decided).length
  deduplicated : state.health.deduplicated = (state.decided.filter (!·.2)).length
  started : (state.deliveries ++ state.ended).Perm (admittedRequests state.decided)
  settled : state.health.delivered + state.health.assumedDeliveredAfterResponseLoss +
    state.health.failed = state.ended.length

theorem justified_append {capacity : Nat} {decided : List (DispatchRequest × Bool)}
    {next : DispatchRequest} {decision : Bool}
    (before : ∀ earlier request admitted later,
      decided = earlier ++ (request, admitted) :: later →
      (admitted = false ↔ request.eventId ∈ recentIds capacity earlier))
    (now : decision = false ↔ next.eventId ∈ recentIds capacity decided) :
    ∀ earlier request admitted later,
      decided ++ [(next, decision)] = earlier ++ (request, admitted) :: later →
      (admitted = false ↔ request.eventId ∈ recentIds capacity earlier) := by
  intro earlier request admitted later split_
  rcases eq_nil_or_concat later with rfl | ⟨front, last, rfl⟩
  · obtain ⟨rfl, same⟩ := append_inj' split_ rfl
    cases same
    exact now
  · rw [concat_eq_append, ← cons_append, ← append_assoc] at split_
    obtain ⟨rfl, -⟩ := append_inj' split_ rfl
    exact before earlier request admitted front rfl

namespace Accounted

variable {policy : DeliveryPolicy} {state : Coordinator} {taken : List DispatchRequest}

theorem start (policy : DeliveryPolicy) : Accounted policy [] {} where
  order := rfl
  seen := by simp [recentIds, admittedIds]
  seenOrder := by simp [recentIds, admittedIds]
  distinct := by simp [recentIds, admittedIds]
  justified earlier request admitted later split_ := by
    cases earlier <;> cases split_
  admitted := rfl
  deduplicated := rfl
  started := .refl _
  settled := rfl

theorem admitDelivery (positive : 0 < policy.dedupeCapacity) {request : DispatchRequest}
    (accounted : Accounted policy (request :: taken) state) :
    Accounted policy taken (state.admitDelivery policy request) := by
  have order : ∀ decision, state.accepted =
      (state.decided ++ [(request, decision)]).map Prod.fst ++ (taken ++ state.queue) := by
    rw [accounted.order]
    simp
  unfold Coordinator.admitDelivery
  by_cases known : request.eventId ∈ state.seen
  · rw [if_pos (by simpa using known)]
    have recent : request.eventId ∈ recentIds policy.dedupeCapacity state.decided :=
      accounted.seen ▸ known
    refine ⟨order false, ?_, ?_, ?_, justified_append accounted.justified (by simp [recent]), ?_,
      ?_, ?_, accounted.settled⟩
    · exact accounted.seen.trans (recentIds_deduplicated ..).symm
    · exact accounted.seenOrder.trans (recentIds_deduplicated ..).symm
    · exact (recentIds_deduplicated ..).symm ▸ accounted.distinct
    · simpa [admittedRequests] using accounted.admitted
    · simpa using accounted.deduplicated
    · simpa [admittedRequests] using accounted.started
  · rw [if_neg (by simpa using known)]
    have fresh : request.eventId ∉ recentIds policy.dedupeCapacity state.decided :=
      accounted.seen ▸ known
    have window := expire_recent accounted.distinct (length_recentIds_le _ _)
    rw [accounted.seen, accounted.seenOrder, window]
    generalize remaining : (recentIds policy.dedupeCapacity state.decided).drop
      ((recentIds policy.dedupeCapacity state.decided).length + 1 - policy.dedupeCapacity) = rest
    have result := recentIds_admitted positive state.decided request
    rw [remaining] at result
    have sublist : rest.Sublist (recentIds policy.dedupeCapacity state.decided) :=
      remaining ▸ drop_sublist ..
    have absent : request.eventId ∉ rest := fun member => fresh (sublist.subset member)
    refine ⟨order true, ?_, result.symm, ?_, justified_append accounted.justified (by simp [fresh]),
      ?_, ?_, ?_, accounted.settled⟩
    · dsimp only
      rw [if_neg (by simpa using absent)]
      exact result.symm
    · rw [result, nodup_append]
      refine ⟨accounted.distinct.sublist sublist, nodup_singleton _, ?_⟩
      rintro id old other new rfl
      exact absent (mem_singleton.mp new ▸ old)
    · simpa [admittedRequests] using accounted.admitted
    · simpa using accounted.deduplicated
    · have grown : admittedRequests (state.decided ++ [(request, true)]) =
          admittedRequests state.decided ++ [request] := by simp [admittedRequests]
      rw [grown, append_assoc]
      exact (perm_append_comm.append_left _).trans
        (by rw [← append_assoc]; exact accounted.started.append_right _)

theorem drain (positive : 0 < policy.dedupeCapacity) (accounted : Accounted policy taken state) :
    Accounted policy [] (taken.foldl (Coordinator.admitDelivery policy) state) := by
  induction taken generalizing state with
  | nil => exact accounted
  | cons request taken ih => exact ih (accounted.admitDelivery positive)

end Accounted

/-- A coordinator that stops has emptied its queue, and ends without deliveries. -/
structure Orderly (policy : DeliveryPolicy) (state : Coordinator) : Prop where
  accounted : Accounted policy [] state
  stopped : state.stopping = true → state.closed = true ∧ state.queue = []
  finished : state.finished = true → state.stopping = true ∧ state.deliveries = []

theorem admit_frame (requests : List DispatchRequest) (state : Coordinator) :
    let after := requests.foldl (Coordinator.admitDelivery policy) state
    after.queue = state.queue ∧ after.closed = state.closed ∧ after.stopping = state.stopping ∧
      after.finished = state.finished ∧
      after.deliveries.length ≤ state.deliveries.length + requests.length := by
  induction requests generalizing state with
  | nil => exact ⟨rfl, rfl, rfl, rfl, le_refl _⟩
  | cons request requests ih =>
    obtain ⟨queue, closed, stopping, finished, deliveries⟩ :=
      ih (state.admitDelivery policy request)
    have one : (state.admitDelivery policy request).queue = state.queue ∧
        (state.admitDelivery policy request).closed = state.closed ∧
        (state.admitDelivery policy request).stopping = state.stopping ∧
        (state.admitDelivery policy request).finished = state.finished ∧
        (state.admitDelivery policy request).deliveries.length ≤ state.deliveries.length + 1 := by
      unfold Coordinator.admitDelivery
      split_ifs <;> simp
    refine ⟨queue.trans one.1, closed.trans one.2.1, stopping.trans one.2.2.1,
      finished.trans one.2.2.2.1, ?_⟩
    rw [foldl_cons, length_cons]
    omega

namespace Orderly

variable {policy : DeliveryPolicy} {state : Coordinator}

theorem proceed (positive : 0 < policy.dedupeCapacity) (accounted : Accounted policy [] state)
    (finished : state.stopping = false → state.finished = false) :
    Orderly policy (state.proceed policy) := by
  unfold Coordinator.proceed
  split_ifs with stopping
  · have taken : Accounted policy state.queue { state with closed := true, queue := [] } :=
      ⟨by simpa using accounted.order, accounted.seen, accounted.seenOrder, accounted.distinct,
        accounted.justified, accounted.admitted, accounted.deduplicated, accounted.started,
        accounted.settled⟩
    have drained := taken.drain positive
    obtain ⟨queue, closed, stops, -⟩ :=
      admit_frame policy state.queue { state with closed := true, queue := [] }
    refine ⟨⟨drained.order, drained.seen, drained.seenOrder, drained.distinct, drained.justified,
      drained.admitted, drained.deduplicated, drained.started, drained.settled⟩,
      fun _ => ⟨closed, queue⟩, fun ends => ⟨stops.trans stopping, isEmpty_iff.mp ends⟩⟩
  · rw [Bool.not_eq_true] at stopping
    refine ⟨accounted, fun stops => ?_, fun ends => ?_⟩
    · cases stopping.symm.trans stops
    · cases (finished stopping).symm.trans ends

theorem running (orderly : Orderly policy state) (going : state.stopping = false) :
    state.finished = false := by
  by_contra ended
  have stops := (orderly.finished (Bool.not_eq_false _ ▸ ended)).1
  cases going.symm.trans stops

section

variable (positive : 0 < policy.dedupeCapacity)
include positive

theorem receive (orderly : Orderly policy state) : Orderly policy (state.receive policy) := by
  unfold Coordinator.receive
  by_cases blocked :
      (state.stopping || decide (policy.maxConcurrent ≤ state.deliveries.length)) = true
  · rw [if_pos blocked]
    exact orderly
  · rw [if_neg blocked]
    rw [Bool.or_eq_true, not_or, Bool.not_eq_true] at blocked
    have going := orderly.running blocked.1
    split
    · rename_i request queue waiting
      have taken : Accounted policy [request] { state with queue } := by
        refine { orderly.accounted with order := ?_ }
        rw [orderly.accounted.order, waiting]
        rfl
      obtain ⟨-, -, stopping, finished, -⟩ := admit_frame policy [request] { state with queue }
      exact proceed positive (taken.admitDelivery positive) fun _ => finished.trans going
    · split_ifs
      · exact proceed positive { orderly.accounted with } nofun
      · exact orderly

theorem joinNext (orderly : Orderly policy state)
    (index : Nat) (outcome : Except Text DeliveryOutcome) :
    Orderly policy (state.joinNext policy index outcome) := by
  unfold Coordinator.joinNext
  split
  · rename_i request found
    obtain ⟨within, same⟩ := List.getElem?_eq_some_iff.mp found
    refine proceed positive { orderly.accounted with
      admitted := ?_, deduplicated := ?_, started := ?_, settled := ?_ } orderly.running
    · rw [← orderly.accounted.admitted]
      unfold recordOutcome
      split <;> rfl
    · rw [← orderly.accounted.deduplicated]
      unfold recordOutcome
      split <;> rfl
    · have moved : (state.deliveries.eraseIdx index ++ (state.ended ++ [request])).Perm
          (state.deliveries ++ state.ended) := by
        have first := getElem_cons_eraseIdx_perm within
        rw [same] at first
        rw [← append_assoc]
        refine (perm_append_comm.trans ?_)
        exact first.append_right state.ended
      exact moved.trans orderly.accounted.started
    · have settled := orderly.accounted.settled
      rw [length_append, length_singleton]
      unfold recordOutcome
      split <;> dsimp only <;> omega
  · exact orderly

theorem changed (orderly : Orderly policy state) : Orderly policy (state.changed policy) := by
  unfold Coordinator.changed
  split_ifs
  · exact orderly
  · exact proceed positive { orderly.accounted with } nofun

end

theorem enqueue (orderly : Orderly policy state) (request : DispatchRequest) :
    Orderly policy (state.enqueue request) := by
  unfold Coordinator.enqueue
  split_ifs with refused
  · exact orderly
  · rw [Bool.or_eq_true, not_or, Bool.not_eq_true] at refused
    refine ⟨{ orderly.accounted with order := ?_ }, fun stops => ?_, orderly.finished⟩
    · rw [orderly.accounted.order, nil_append, nil_append, append_assoc]
    · cases refused.1.symm.trans (orderly.stopped stops).1

theorem step (positive : 0 < policy.dedupeCapacity) (state : Coordinator)
    (action : CoordinatorStep) (orderly : Orderly policy state) :
    Orderly policy (state.step policy action) := by
  cases action with
  | enqueue request => exact orderly.enqueue request
  | disconnect | signal => exact ⟨{ orderly.accounted with }, orderly.stopped, orderly.finished⟩
  | receive => exact orderly.receive positive
  | joinNext index outcome => exact orderly.joinNext positive index outcome
  | changed => exact orderly.changed positive

end Orderly

/-! ## Concurrency -/

namespace Coordinator

/-- When the coordinator starts to stop, what is in flight and what is queued fit together. -/
def Fits (state : Coordinator) : CoordinatorStep → Prop
  | .changed => state.stopping = false → state.signalled = true →
    state.deliveries.length + state.queue.length ≤ policy.maxConcurrent
  | _ => True

variable {policy : DeliveryPolicy} {state : Coordinator}

theorem length_proceed (policy : DeliveryPolicy) (state : Coordinator) :
    (state.proceed policy).deliveries.length ≤
      if state.stopping then state.deliveries.length + state.queue.length
      else state.deliveries.length := by
  unfold proceed
  split_ifs
  · exact (admit_frame policy state.queue { state with closed := true, queue := [] }).2.2.2.2
  · exact le_refl _

theorem bounded_step (positive : 0 < policy.dedupeCapacity) (state : Coordinator)
    (action : CoordinatorStep) (fits : state.Fits policy action)
    (sound : Orderly policy state ∧ state.deliveries.length ≤ policy.maxConcurrent) :
    Orderly policy (state.step policy action) ∧
      (state.step policy action).deliveries.length ≤ policy.maxConcurrent := by
  obtain ⟨orderly, bounded⟩ := sound
  refine ⟨orderly.step positive state action, ?_⟩
  cases action with
  | enqueue request =>
    unfold step enqueue
    split_ifs <;> exact bounded
  | disconnect => exact bounded
  | signal => exact bounded
  | receive =>
    unfold step receive
    dsimp only
    by_cases blocked :
        (state.stopping || decide (policy.maxConcurrent ≤ state.deliveries.length)) = true
    · rw [if_pos blocked]
      exact bounded
    · rw [if_neg blocked]
      rw [Bool.or_eq_true, not_or, Bool.not_eq_true, decide_eq_true_eq] at blocked
      split
      · rename_i request queue waiting
        have frame := admit_frame policy [request] { state with queue }
        have limit := length_proceed policy (admitDelivery policy { state with queue } request)
        rw [show (admitDelivery policy { state with queue } request).stopping = false from
          frame.2.2.1.trans blocked.1, if_neg Bool.false_ne_true] at limit
        have one : (admitDelivery policy { state with queue } request).deliveries.length ≤
          state.deliveries.length + 1 := frame.2.2.2.2
        omega
      · rename_i empty
        split_ifs
        · have limit := length_proceed policy { state with stopping := true }
          rw [if_pos rfl] at limit
          have none : state.queue.length = 0 := by rw [empty, length_nil]
          dsimp only at limit
          omega
        · exact bounded
  | joinNext index outcome =>
    unfold step joinNext
    dsimp only
    split
    · refine (length_proceed policy _).trans ?_
      have fewer := (eraseIdx_sublist state.deliveries index).length_le
      dsimp only
      split_ifs with stopping
      · rw [(orderly.stopped stopping).2, length_nil]
        omega
      · omega
    · exact bounded
  | changed =>
    unfold step changed
    split_ifs with idle
    · exact bounded
    · rw [Bool.or_eq_true, not_or, Bool.not_eq_true, Bool.not_eq_true, Bool.not_eq_false'] at idle
      have limit := length_proceed policy { state with stopping := true }
      exact limit.trans (fits idle.1 idle.2)

end Coordinator

theorem dedupeCapacity_pos {policy : DeliveryPolicy} (valid : validatePolicy policy = true) :
    0 < policy.dedupeCapacity := by
  unfold validatePolicy at valid
  by_contra zero
  simp [Nat.eq_zero_of_not_pos zero] at valid

/-- Every accepted request is decided once, in order, and dropped exactly if its event is
among the last ones admitted; the counters agree with the decisions and with what is in
flight; a coordinator that finished has nothing left; and if the shutdown finds room for what
is queued, the limit on deliveries is kept throughout. -/
theorem delivery_disciplined (policy : DeliveryPolicy) (valid : validatePolicy policy = true)
    (steps : List CoordinatorStep) :
    let state := Runs.run (Coordinator.step policy) {} steps
    (Runs.AllSteps (Coordinator.step policy) (Coordinator.Fits policy) {} steps →
      state.deliveries.length ≤ policy.maxConcurrent) ∧
    state.accepted = state.decided.map Prod.fst ++ state.queue ∧
    (∀ earlier request admitted later,
      state.decided = earlier ++ (request, admitted) :: later →
      (admitted = false ↔ request.eventId ∈ recentIds policy.dedupeCapacity earlier)) ∧
    (state.deliveries ++ state.ended).Perm (admittedRequests state.decided) ∧
    state.health.admitted = (admittedRequests state.decided).length ∧
    state.health.deduplicated = (state.decided.filter (!·.2)).length ∧
    state.health.admitted = state.health.delivered +
      state.health.assumedDeliveredAfterResponseLoss + state.health.failed +
      state.deliveries.length ∧
    (state.finished = true → state.queue = [] ∧ state.deliveries = [] ∧ state.closed = true) := by
  intro state
  have positive := dedupeCapacity_pos valid
  have orderlyStart : Orderly policy {} :=
    ⟨Accounted.start policy, nofun, nofun⟩
  have orderly : Orderly policy state :=
    Runs.invariant_run_unconditional (Orderly policy) (Orderly.step positive) orderlyStart steps
  have accounted := orderly.accounted
  refine ⟨fun fits => ?_, accounted.order, accounted.justified, accounted.started,
    accounted.admitted, accounted.deduplicated, ?_, fun ends => ?_⟩
  · exact (Runs.invariant_run _ (Coordinator.bounded_step positive)
      ⟨orderlyStart, Nat.zero_le _⟩ fits).2
  · have lengths := accounted.started.length_eq
    rw [length_append] at lengths
    rw [accounted.admitted, accounted.settled]
    omega
  · obtain ⟨stops, empty⟩ := orderly.finished ends
    obtain ⟨closed, drained⟩ := orderly.stopped stops
    exact ⟨drained, empty, closed⟩

namespace Sample

def event (id : String) : CoordinatorStep := .enqueue ⟨[], [], [], id.toList⟩

def narrow : DeliveryPolicy := ⟨1, 1, 0, 0, 1⟩

def after (steps : List CoordinatorStep) : Coordinator :=
  Runs.run (Coordinator.step narrow) {} steps

/-- A repeated event, and one whose turn comes after the first has ended. -/
def calm : List CoordinatorStep :=
  [event "a", event "a", .receive, .receive, .joinNext 0 (.ok (.delivered 0 1)), .receive,
    event "b", .receive, .signal, .changed, .joinNext 0 (.error [])]

def hurried : List CoordinatorStep := [event "a", event "b", event "c", .signal, .changed]

end Sample

open Sample

theorem delivery_disciplined_sample :
    let state := after calm
    state.finished = true ∧ state.health.admitted = 2 ∧ state.health.deduplicated = 1 ∧
      state.deliveries.length ≤ narrow.maxConcurrent ∧
      state.accepted = state.decided.map Prod.fst ++ state.queue := by
  have valid : validatePolicy narrow = true := by decide
  have disciplined := delivery_disciplined narrow valid calm
  refine ⟨by decide +kernel, by decide +kernel, by decide +kernel, disciplined.1 ?_,
    disciplined.2.1⟩
  exact ⟨trivial, trivial, trivial, trivial, trivial, trivial, trivial, trivial, trivial,
    fun _ _ => by decide +kernel, trivial, trivial⟩

/-- The drain at shutdown starts all queued deliveries at once. -/
theorem drain_exceeds_limit :
    validatePolicy narrow = true ∧ narrow.maxConcurrent = 1 ∧
      (after hurried).deliveries.length = 3 := by
  decide +kernel

end Firenook.Functions
