import Firenook.OrderedDelivery

/-!
# Waiting pulls

A pull that finds nothing waits until the change counter goes up.  An operation and its
notification are one step here: the counter includes what is still to be announced.
-/

namespace Firenook.Pubsub

open List Runs

variable {maxMessages : Int} {name : Text} {broker : Broker} {now : Moment}

namespace SubscriptionEntry

theorem takeFrom_eq_nil (blocked : List Text) (deadline room ack : Nat) (messages : Messages)
    (ids : List Nat) : (takeFrom blocked deadline ids (room + 1) ack messages).2 = [] ↔
      ids.filter (eligible blocked messages) = [] := by
  induction ids with
  | nil => simp [takeFrom]
  | cons first ids ih =>
    cases free : eligible blocked messages first with
    | false => rw [takeFrom_cons_of_not_eligible free, filter_cons_of_neg (by simp [free]), ih]
    | true =>
      obtain ⟨tracked, found⟩ := exists_of_eligible free
      simp [takeFrom_cons_of_eligible found free, filter_cons_of_pos free]

theorem take_eq_nil (positive : 0 < maxMessages) (ack : Nat) (now : Moment)
    (entry : SubscriptionEntry) :
    (entry.take maxMessages ack now).2 = [] ↔ entry.deliverable = [] := by
  obtain ⟨room, enough⟩ := Nat.exists_eq_succ_of_ne_zero (by omega : maxMessages.toNat ≠ 0)
  rw [take, enough]
  exact takeFrom_eq_nil ..

end SubscriptionEntry

namespace Broker

def finds (now : Moment) (name : Text) (maxMessages : Int) (broker : Broker) : Option Nat :=
  (broker.pull now name maxMessages).toOption.map fun answer => answer.2.length

theorem deliverable_of_finds (positive : 0 < maxMessages) {count : Nat}
    (finds : broker.finds now name maxMessages = some count) :
    ∃ entry, broker.subscriptions[name]? = some entry ∧ (count = 0 ↔ entry.deliverable = []) := by
  cases result : broker.pull now name maxMessages with
  | error failure => simp [Broker.finds, result, Except.toOption] at finds
  | ok answer =>
    obtain ⟨entry, found, leases, -⟩ := pull_ok result
    rw [Broker.finds, result] at finds
    cases finds
    rw [length_eq_zero_iff, leases, entry.take_eq_nil positive]
    exact ⟨entry, found, Iff.rfl⟩

end Broker

/-- Without a notification since, there is nothing to deliver. -/
def Rests (name : Text) (seen : Nat) (broker : Broker) : Prop :=
  seen ≤ broker.version ∧ (broker.version = seen →
    ∀ entry, broker.subscriptions[name]? = some entry → entry.deliverable = [])

theorem rests_step (externals : Externals) {seen : Nat} (broker : Broker) (request : Request)
    (answered : ¬FailsStale broker request.operation) (rests : Rests name seen broker) :
    Rests name seen (broker.step externals request) := by
  obtain ⟨middle, turn⟩ := broker.perform_turn externals (broker.moment request) request.operation
  have reached := rests.1
  cases turn.noticed with
  | bumped later =>
    have later : broker.version < (broker.step externals request).version := later
    exact ⟨by omega, fun same => by omega⟩
  | stale _ fails => exact absurd fails answered
  | unseen version fewer =>
    refine ⟨reached.trans version.ge, fun same entry found => ?_⟩
    obtain ⟨earlier, stored, subset⟩ := fewer name entry found
    rw [rests.2 (version.symm.trans same) earlier stored] at subset
    exact subset_nil.mp subset

/-- An operation that makes a message deliverable raises the change counter, unless it is an
acknowledgement of a lease together with a stale id; so while the counter stays where it was when a
pull found nothing, a pull finds nothing. -/
theorem pulls_not_left_waiting (externals : Externals) (broker : Broker) :
    (∀ operation now, ¬FailsStale broker operation →
      ∀ (name : Text) (entry : SubscriptionEntry) (id : Nat),
      (broker.perform externals now operation).subscriptions[name]? = some entry →
      id ∈ entry.deliverable → (∀ earlier : SubscriptionEntry,
        broker.subscriptions[name]? = some earlier → id ∉ earlier.deliverable) →
      broker.version < (broker.perform externals now operation).version) ∧
    ∀ requests, AllSteps (Broker.step externals)
        (fun broker request => ¬FailsStale broker request.operation) broker requests →
      ∀ name maxMessages, 0 < maxMessages → ∀ now, broker.finds now name maxMessages = some 0 →
      (run (Broker.step externals) broker requests).version = broker.version →
      ∀ later count, (run (Broker.step externals) broker requests).finds later name maxMessages =
        some count → count = 0 := by
  constructor
  · intro operation now answered name entry id found member absent
    obtain ⟨middle, turn⟩ := broker.perform_turn externals now operation
    cases turn.noticed with
    | bumped later => exact later
    | stale _ fails => exact absurd fails answered
    | unseen _ fewer =>
      obtain ⟨earlier, stored, subset⟩ := fewer name entry found
      exact absurd (subset member) (absent earlier stored)
  · intro requests answered name maxMessages positive now nothing unwoken later count finds
    obtain ⟨entry, found, empty⟩ := Broker.deliverable_of_finds positive nothing
    have start : Rests name broker.version broker := by
      refine ⟨le_refl _, fun _ other stored => ?_⟩
      cases found.symm.trans stored
      exact empty.mp rfl
    have rests := invariant_run _ (rests_step externals) start answered
    obtain ⟨last, stored, zero⟩ := Broker.deliverable_of_finds positive finds
    exact zero.mpr (rests.2 unwoken last stored)

namespace Sample

def heldBack : List Request :=
  [{ operation := .createTopic { name := orders } },
   { operation := .createSubscription
      { name := work, topic := orders, enableMessageOrdering := true,
        enableExactlyOnceDelivery := true } }, publishingTwo, pulling]

def acknowledging (acks : List String) : Request :=
  { operation := .acknowledge work (acks.map fun ack => work ++ ack.toList) }

end Sample

open Firenook.Pubsub.Sample

/-- An acknowledgement of the first message wakes the pull; one of an id that was never issued
fails and leaves it waiting. -/
theorem pulls_not_left_waiting_sample :
    (after heldBack).version <
        ((after heldBack).perform externals ⟨5, 0⟩ (acknowledging [":1"]).operation).version ∧
      ∀ count, (run (Broker.step externals) (after heldBack)
        [acknowledging [":7"]]).finds ⟨9, 0⟩ work 1 = some count → count = 0 := by
  have live : ((after heldBack).subscriptions[work]?.bind (·.findLease 1)).isSome = true := by
    decide +kernel
  have stale : (after heldBack).subscriptions[work]?.bind (·.findLease 7) = none := by
    decide +kernel
  have first : ¬FailsStale (after heldBack) (acknowledging [":1"]).operation := by
    rintro ⟨entry, acks, found, -, parsed, -, missing⟩
    cases (show _ = Except.ok [1] by rfl).symm.trans parsed
    rw [found, Option.bind_some] at live
    simp_all
  have unissued : ¬FailsStale (after heldBack) (acknowledging [":7"]).operation := by
    rintro ⟨entry, acks, found, -, parsed, leased, -⟩
    cases (show _ = Except.ok [7] by rfl).symm.trans parsed
    rw [found, Option.bind_some] at stale
    simp_all
  have waiting := pulls_not_left_waiting externals (after heldBack)
  refine ⟨?_, waiting.2 [acknowledging [":7"]] ⟨unissued, trivial⟩ work 1 (by decide) ⟨5, 0⟩
    (by decide +kernel) (by decide +kernel) ⟨9, 0⟩⟩
  have pulled : ((after heldBack).perform externals ⟨5, 0⟩
      (acknowledging [":1"]).operation).subscriptions[work]?.map (·.deliverable) = some [2] := by
    decide +kernel
  have before : (after heldBack).subscriptions[work]?.map (·.deliverable) = some [] := by
    decide +kernel
  obtain ⟨entry, found, isTwo⟩ := Option.map_eq_some_iff.mp pulled
  refine waiting.1 _ ⟨5, 0⟩ first work entry 2 found (by simp [isTwo]) fun earlier stored => ?_
  rw [stored] at before
  simp_all

/-- An acknowledgement of the first message and of an id that was never issued fails, and yet
makes the second message deliverable; nobody is told. -/
theorem failed_acknowledgement_unnoticed :
    let broker := after heldBack
    let later := broker.step externals (acknowledging [":1", ":7"])
    broker.finds ⟨5, 0⟩ work 1 = some 0 ∧ later.version = broker.version ∧
      later.finds ⟨5, 0⟩ work 1 = some 1 := by
  decide +kernel

end Firenook.Pubsub
