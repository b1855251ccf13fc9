import Firenook.TaskRuns

/-!
# The rate of task dispatch

A queue moves tasks into slots while its bucket has tokens.  The tokens that were ever added are
worth the time since the registration, and no refill leaves more than the bucket holds; what was
moved and the tokens that are left never exceed either.
-/

namespace Firenook.Tasks

open TaskQueue Runs

/-! ## Token buckets -/

structure Bucket where
  rate : Rat
  tokens : Rat
  capacity : Rat
  updated : Nat

namespace Bucket

def gain (now : Nat) (bucket : Bucket) : Rat :=
  ((now - bucket.updated : Nat) : Rat) / 1000000000 * bucket.rate

def refill (now : Nat) (bucket : Bucket) : Bucket :=
  if now - bucket.updated < 1000000000 then bucket
  else
    { bucket with
      tokens := min (bucket.tokens + bucket.gain now) bucket.capacity
      updated := now }

def take (bucket : Bucket) : Bucket := { bucket with tokens := bucket.tokens - 1 }

/-- The tokens taken since the start, and since the last effective refill, are paid for by the
time and by the capacity. -/
structure Funded (rate : Rat) (start time taken recent : Nat) (bucket : Bucket) : Prop where
  rated : bucket.rate = rate
  capacity : bucket.capacity = max rate 1.1
  positive : 0 ≤ bucket.tokens
  since : start ≤ bucket.updated ∧ bucket.updated ≤ time
  total : taken + bucket.tokens ≤ (bucket.updated - start) / 1000000000 * rate
  recent : recent + bucket.tokens ≤ max rate 1.1

namespace Funded

variable {rate : Rat} {start time taken recent : Nat} {bucket : Bucket}

theorem take (funded : Funded rate start time taken recent bucket) (token : 1 ≤ bucket.tokens) :
    Funded rate start time (taken + 1) (recent + 1) bucket.take where
  rated := funded.rated
  capacity := funded.capacity
  positive := sub_nonneg.mpr token
  since := funded.since
  total := by
    have total := funded.total
    simp only [Bucket.take]
    push_cast
    linarith
  recent := by
    have recent := funded.recent
    simp only [Bucket.take]
    push_cast
    linarith

theorem refill (funded : Funded rate start time taken recent bucket) (nonneg : 0 ≤ rate)
    {now : Nat} (inTime : now ≤ time) :
    Funded rate start time taken
      (if 1000000000 ≤ now - bucket.updated then 0 else recent) (bucket.refill now) := by
  obtain ⟨rfl, capacity, positive, ⟨since, _⟩, total, bounded⟩ := funded
  unfold Bucket.refill
  by_cases effective : 1000000000 ≤ now - bucket.updated
  · rw [if_pos effective, if_neg (not_lt.mpr effective)]
    have later : bucket.updated ≤ now := by omega
    have added : 0 ≤ bucket.gain now := mul_nonneg (by positivity) nonneg
    refine ⟨rfl, capacity, ?_, ⟨since.trans later, inTime⟩, ?_, ?_⟩
    · exact le_min (add_nonneg positive added) (by rw [capacity]; exact le_max_of_le_left nonneg)
    · have least := min_le_left (bucket.tokens + bucket.gain now) bucket.capacity
      rw [gain, Nat.cast_sub later] at least ⊢
      linarith
    · rw [← capacity]
      simp
  · rw [if_neg effective, if_pos (not_le.mp effective)]
    exact ⟨rfl, capacity, positive, ⟨since, ‹_›⟩, total, bounded⟩

end Funded
end Bucket

/-! ## Queues -/

namespace TaskQueue

def bucket (queue : TaskQueue Rat) : Bucket :=
  ⟨queue.config.maxDispatchesPerSecond, queue.tokens, queue.maxTokens, queue.lastTokenUpdate⟩

theorem bucket_refillTokens (now : Nat) (queue : TaskQueue Rat) :
    (queue.refillTokens now).bucket = queue.bucket.refill now :=
  apply_ite bucket _ _ _

theorem bucket_processSlot (now nowMs : Nat) (progress : TaskQueue Rat × List RunRequest)
    (index : Nat) : (processSlot now nowMs progress index).1.bucket = progress.1.bucket := by
  unfold processSlot
  dsimp only
  split
  · split
    · rfl
    · rfl
    · split_ifs <;> rfl
    · rfl
    · rfl
  · rfl

theorem bucket_process (now nowMs : Nat) (queue : TaskQueue Rat) :
    (queue.process now nowMs).1.bucket = queue.bucket :=
  invariant_run_unconditional (fun progress => progress.1.bucket = queue.bucket)
    (fun progress index same => (bucket_processSlot now nowMs progress index).trans same) rfl _

theorem funded_dispatchFrom {rate : Rat} {start time moved recent : Nat} {queue : TaskQueue Rat}
    (funded : queue.bucket.Funded rate start time moved recent) (now : Nat)
    (tasks : List TaskRecord) (id : Nat) :
    id ≤ (dispatchFrom now tasks queue id).2 ∧
      (dispatchFrom now tasks queue id).1.bucket.Funded rate start time
        (moved + ((dispatchFrom now tasks queue id).2 - id))
        (recent + ((dispatchFrom now tasks queue id).2 - id)) := by
  fun_induction dispatchFrom now tasks queue id generalizing moved recent with
  | case2 task tasks queue id slot top token ih =>
    obtain ⟨later, funded⟩ := ih (funded.take (of_decide_eq_true token))
    refine ⟨by omega, ?_⟩
    convert funded using 1 <;> omega
  | _ => simpa using funded

end TaskQueue

/-! ## Runs -/

/-- What happens to a queue; the dispatch ids are shared with the other queues. -/
inductive QueueStep
  | enqueue (task : TaskRecord) (now : Nat)
  | remove (name : Text)
  | refill (now : Nat)
  | dispatch (now nextId : Nat)
  | process (now nowMs : Nat)
  | complete (dispatchId : Nat) (outcome : Outcome) (now : Nat)

/-- A queue, with the number of tasks that it moved into slots, in all and since its last
effective refill. -/
structure Meter where
  queue : TaskQueue Rat
  moved : Nat := 0
  recent : Nat := 0

def Meter.step (meter : Meter) : QueueStep → Meter
  | .enqueue task now => { meter with queue := (meter.queue.enqueue task now).getD meter.queue }
  | .remove name => { meter with queue := (meter.queue.remove name).getD meter.queue }
  | .refill now =>
    ⟨meter.queue.refillTokens now, meter.moved,
      if 1000000000 ≤ now - meter.queue.lastTokenUpdate then 0 else meter.recent⟩
  | .dispatch now nextId =>
    let (queue, last) := meter.queue.dispatchTasks now nextId
    ⟨queue, meter.moved + (last - nextId), meter.recent + (last - nextId)⟩
  | .process now nowMs => { meter with queue := (meter.queue.process now nowMs).1 }
  | .complete id outcome now => { meter with queue := meter.queue.complete id outcome now }

def QueueStep.Within (time : Nat) : QueueStep → Prop
  | .refill now => now ≤ time
  | _ => True

def Meter.Funded (rate : Rat) (start time : Nat) (meter : Meter) : Prop :=
  meter.queue.bucket.Funded rate start time meter.moved meter.recent

theorem Meter.Funded.step {rate : Rat} {start time : Nat} (nonneg : 0 ≤ rate) (meter : Meter)
    (action : QueueStep) (within : action.Within time) (funded : meter.Funded rate start time) :
    (meter.step action).Funded rate start time := by
  have unchanged : ∀ {queue : TaskQueue Rat}, queue.bucket = meter.queue.bucket →
      Meter.Funded rate start time { meter with queue } := by
    intro queue same
    rw [Meter.Funded, same]
    exact funded
  cases action with
  | enqueue task now =>
    apply unchanged
    unfold enqueue
    split_ifs <;> rfl
  | remove name =>
    apply unchanged
    unfold remove
    split_ifs <;> rfl
  | refill now =>
    have refilled := Bucket.Funded.refill funded nonneg within
    rw [← bucket_refillTokens] at refilled
    exact refilled
  | dispatch now nextId => exact (funded_dispatchFrom funded now meter.queue.pending nextId).2
  | process now nowMs => exact unchanged (bucket_process now nowMs meter.queue)
  | complete id outcome now =>
    apply unchanged
    rcases meter.queue.complete_cases id outcome now with same | ⟨_, _, _, _, _, result⟩
    · rw [same]
    · rw [result]
      rfl

/-- Whatever happens to a queue after its registration, up to any time that no refill is later
than: the tasks that moved into slots are at most as many as the rate allows for the time since
then, and those since the last effective refill at most the capacity. -/
theorem dispatch_rate_limited (key : Text) (config : QueueConfig Rat) (start time : Nat)
    (steps : List QueueStep) (nonneg : 0 ≤ config.maxDispatchesPerSecond) (inTime : start ≤ time)
    (within : ∀ step ∈ steps, step.Within time) :
    let meter := run Meter.step ⟨.new key config start, 0, 0⟩ steps
    meter.moved ≤ config.maxDispatchesPerSecond * ((time - start) / 1000000000) ∧
      meter.recent ≤ max config.maxDispatchesPerSecond 1.1 := by
  intro meter
  have funded : meter.Funded config.maxDispatchesPerSecond start time := by
    refine invariant_run _ (Meter.Funded.step nonneg) ?_ (allSteps_of_forall (fun _ => within) _)
    refine ⟨rfl, rfl, le_refl _, ⟨le_refl _, inTime⟩, ?_, ?_⟩
    · simp [bucket, new, Doubles.literal]
    · simpa using .inl nonneg
  have positive := funded.positive
  constructor
  · have updated : (meter.queue.bucket.updated : Rat) ≤ time := Nat.cast_le.mpr funded.since.2
    calc _ ≤ _ := (le_add_of_nonneg_right positive).trans funded.total
      _ ≤ ((time : Rat) - start) / 1000000000 * config.maxDispatchesPerSecond := by gcongr
      _ = _ := mul_comm ..
  · exact (le_add_of_nonneg_right positive).trans funded.recent

def Sample.moving : List QueueStep :=
  [.enqueue (task "a") 0, .enqueue (task "b") 0, .refill 1000000000, .dispatch 1000000000 0]

theorem dispatch_rate_limited_sample :
    let meter := run Meter.step ⟨.new Sample.key Sample.config 0, 0, 0⟩ Sample.moving
    meter.moved = 2 ∧ (meter.moved : Rat) ≤ 5 * ((1000000000 - 0) / 1000000000) := by
  refine ⟨by decide +kernel, (dispatch_rate_limited Sample.key Sample.config 0 1000000000
    Sample.moving ?_ ?_ ?_).1⟩
  · decide +kernel
  · decide
  · simp [Sample.moving, QueueStep.Within]

end Firenook.Tasks
