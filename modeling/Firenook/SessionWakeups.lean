import Firenook.WebChannelSession

/-!
# Wake-ups of backchannels

A backchannel looks for arrays above its cursor; when there are none it creates a future of
the session's `Notify` and waits for it.  Looking and creating are two steps, and
`notify_waiters` reaches the futures that exist.
-/

namespace Firenook.WebChannel

open List Runs

variable {Value : Type}

inductive Phase
  | looking
  /-- Nothing was there, and the future is not created yet. -/
  | empty
  | waiting (notified : Bool)
  | ended
  deriving DecidableEq

structure Waiter where
  cursor : Nat
  polling : Bool
  phase : Phase := .looking
  deriving DecidableEq

structure Waking (Value : Type) where
  session : SessionState Value := {}
  waiters : List Waiter := []

inductive WaiterMove
  | look
  | listen
  | wake
  /-- The session is terminated, or the client is gone. -/
  | finish

inductive WakingStep (Value : Type)
  | enqueue (payload : Value)
  | acknowledge (aid : Nat)
  /-- The notification of `fail` and `terminate`. -/
  | notify
  | attach (aid : Nat) (polling : Bool)
  | move (index : Nat) (move : WaiterMove)
  /-- The keep-alive of a stream, or the deadline of a long poll. -/
  | timeout (index : Nat)

namespace Waiter

def move (session : SessionState Value) (waiter : Waiter) : WaiterMove → Waiter
  | .look =>
    if waiter.phase = .looking then
      match (session.arraysAfter waiter.cursor).getLast? with
      | none => { waiter with phase := .empty }
      | some last =>
        if waiter.polling then { waiter with phase := .ended } else { waiter with cursor := last.id }
    else waiter
  | .listen => if waiter.phase = .empty then { waiter with phase := .waiting false } else waiter
  | .wake => if waiter.phase = .waiting true then { waiter with phase := .looking } else waiter
  | .finish => { waiter with phase := .ended }

def notify (waiter : Waiter) : Waiter :=
  if waiter.phase = .waiting false then { waiter with phase := .waiting true } else waiter

/-- A stream looks again after its keep-alive, a long poll answers. -/
def timeOut (waiter : Waiter) : Waiter :=
  { waiter with phase := if waiter.polling then .ended else .looking }

end Waiter

namespace Waking

variable (encodedBytes : Value → Nat) (noop : Value) (waking : Waking Value)

def enqueue (payload : Value) : Waking Value :=
  match waking.session.enqueue encodedBytes payload with
  | .ok (session, _) => ⟨session, waking.waiters.map .notify⟩
  | .error _ => waking

def step (waking : Waking Value) : WakingStep Value → Waking Value
  | .enqueue payload => waking.enqueue encodedBytes payload
  | .acknowledge aid => { waking with session := waking.session.acknowledge aid }
  | .notify => { waking with waiters := waking.waiters.map .notify }
  | .attach cursor polling => { waking with waiters := waking.waiters ++ [⟨cursor, polling, .looking⟩] }
  | .move index move =>
    { waking with waiters := waking.waiters.modify index (·.move waking.session move) }
  | .timeout index =>
    if (waking.waiters[index]?.map Waiter.phase).any (fun phase => phase matches .waiting _) then
      let enqueued := waking.enqueue encodedBytes noop
      { enqueued with waiters := enqueued.waiters.modify index .timeOut }
    else waking

/-- The payload is not stored, or no backchannel has looked whose future does not exist yet. -/
def Awaited (payload : Value) : Prop :=
  (waking.session.enqueue encodedBytes payload).isOk = true →
    ∀ waiter ∈ waking.waiters, waiter.phase ≠ .empty

/-- No array comes while a backchannel has looked and its future does not exist yet. -/
def Unhurried : WakingStep Value → Prop
  | .enqueue payload => waking.Awaited encodedBytes payload
  | .timeout _ => waking.Awaited encodedBytes noop
  | _ => True

/-- A backchannel that found nothing, or waits, has nothing to write. -/
def Drained (session : SessionState Value) (waiter : Waiter) : Prop :=
  waiter.phase = .empty ∨ waiter.phase = .waiting false → session.arraysAfter waiter.cursor = []

variable {encodedBytes noop waking} {session : SessionState Value} {waiter : Waiter}

theorem drained_move (drained : Drained session waiter) (move : WaiterMove) :
    Drained session (waiter.move session move) := by
  cases move with
  | look =>
    dsimp only [Waiter.move]
    by_cases looking : waiter.phase = .looking
    · rw [if_pos looking]
      split
      · next nothing => exact fun _ => getLast?_eq_none_iff.mp nothing
      · split_ifs <;> simp [Drained, looking]
    · rw [if_neg looking]
      exact drained
  | listen =>
    dsimp only [Waiter.move]
    split_ifs with empty
    · exact fun _ => drained (.inl empty)
    · exact drained
  | wake =>
    dsimp only [Waiter.move]
    split_ifs
    · simp [Drained]
    · exact drained
  | finish => simp [Drained, Waiter.move]

theorem drained_notify (hasFuture : waiter.phase ≠ .empty) : Drained session waiter.notify := by
  unfold Waiter.notify
  split_ifs with waits <;> simp [Drained, *]

theorem drained_enqueue {payload : Value} (awaited : waking.Awaited encodedBytes payload)
    (drained : ∀ waiter ∈ waking.waiters, Drained waking.session waiter) :
    ∀ waiter ∈ (waking.enqueue encodedBytes payload).waiters,
      Drained (waking.enqueue encodedBytes payload).session waiter := by
  unfold enqueue
  split
  next stored =>
    intro waiter member
    obtain ⟨before, present, rfl⟩ := mem_map.mp member
    exact drained_notify (awaited (by rw [stored]; rfl) before present)
  next => exact drained

theorem drained_step (waking : Waking Value) (action : WakingStep Value)
    (unhurried : waking.Unhurried encodedBytes noop action)
    (drained : ∀ waiter ∈ waking.waiters, Drained waking.session waiter) :
    ∀ waiter ∈ (waking.step encodedBytes noop action).waiters,
      Drained (waking.step encodedBytes noop action).session waiter := by
  cases action with
  | enqueue payload => exact drained_enqueue unhurried drained
  | acknowledge aid =>
    intro waiter member stands
    have before := drained waiter member stands
    rw [SessionState.arraysAfter, filter_eq_nil_iff] at before ⊢
    exact fun array kept => before array ((SessionState.dropAcknowledged_sublist ..).subset kept)
  | notify =>
    intro waiter member
    obtain ⟨before, present, rfl⟩ := mem_map.mp member
    have earlier := drained before present
    unfold Waiter.notify
    split_ifs
    · simp [Drained]
    · exact earlier
  | attach cursor polling =>
    intro waiter member
    rcases mem_append.mp member with old | new
    · exact drained waiter old
    · simp [Drained, mem_singleton.mp new]
  | move index move =>
    exact forall_mem_modify drained (fun waiter present => drained_move (drained waiter present) move)
      index
  | timeout index =>
    dsimp only [step]
    split_ifs
    · refine forall_mem_modify (drained_enqueue unhurried drained) (fun waiter _ => ?_) index
      unfold Drained Waiter.timeOut
      split_ifs <;> simp
    · exact drained

/-- Unless an array comes between the look of a backchannel and the creation of its future,
no backchannel waits for a notification while it has an array to write. -/
theorem wakeups_not_missed (encodedBytes : Value → Nat) (noop : Value)
    (steps : List (WakingStep Value))
    (unhurried : AllSteps (step encodedBytes noop) (Unhurried encodedBytes noop) {} steps) :
    let waking := run (step encodedBytes noop) {} steps
    ∀ waiter ∈ waking.waiters, waiter.phase = .waiting false →
      waking.session.arraysAfter waiter.cursor = [] := by
  intro waking waiter member waits
  have drained : ∀ waiter ∈ waking.waiters, Drained waking.session waiter :=
    invariant_run (fun waking => ∀ waiter ∈ waking.waiters, Drained waking.session waiter)
      drained_step (fun _ member => absurd member not_mem_nil) unhurried
  exact drained waiter member (.inr waits)

theorem wakeups_not_missed_sample :
    let waking := run (step (fun _ => 2) 0) {}
      [.attach 0 false, .move 0 .look, .move 0 .listen, .enqueue 7, .move 0 .wake, .move 0 .look,
        .move 0 .look, .move 0 .listen]
    waking.waiters = [⟨1, false, .waiting false⟩] ∧
      ∀ waiter ∈ waking.waiters, waiter.phase = .waiting false →
        waking.session.arraysAfter waiter.cursor = [] := by
  refine ⟨by decide +kernel, wakeups_not_missed (fun _ => 2) 0 _ ?_⟩
  refine ⟨trivial, trivial, trivial, ?_, trivial, trivial, trivial, trivial, trivial⟩
  intro _
  change ∀ waiter ∈ [(⟨0, false, .waiting false⟩ : Waiter)], waiter.phase ≠ .empty
  decide

/-- An array comes after the look and before the future: the stream waits beside it. -/
theorem wakeup_missed :
    let waking := run (step (fun _ => 2) 0) {}
      [.attach 0 false, .move 0 .look, .enqueue 7, .move 0 .listen]
    waking.waiters = [⟨0, false, .waiting false⟩] ∧
      (waking.session.arraysAfter 0).map ArrayRecord.id = [1] := by
  decide +kernel

end Waking
end Firenook.WebChannel
