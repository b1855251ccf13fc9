import Firenook.PubsubOperations

/-!
# Messages stay until something discharges them

A message that reaches a subscription stays in its backlog until it is acknowledged,
skipped by a seek, drained, removed with the subscription, or copied to the dead-letter
topic.  Giving a message up and copying it are separate steps of one operation; the copy
is made only while the dead-letter topic exists.
-/

namespace Firenook.Pubsub

open Runs Option SubscriptionEntry
open Broker (step new)

/-! ## Numbering -/

variable {name : Text} {request : Request}

/-- Subscriptions are stored under their names, and message ids are below the counter. -/
structure Numbered (broker : Broker) : Prop where
  named : ∀ (name : Text) (entry : SubscriptionEntry), broker.subscriptions[name]? = some entry →
    entry.subscription.name = name
  tracked : ∀ (name : Text) (entry : SubscriptionEntry) (id : Nat) (tracked : Tracked),
    broker.subscriptions[name]? = some entry → entry.messages[id]? = some tracked →
    tracked.message.id = id ∧ id < broker.nextMessageId
  logged : ∀ (name : Text) (topic : TopicEntry) (message : StoredMessage),
    broker.topics[name]? = some topic → message ∈ topic.messages →
    message.id < broker.nextMessageId

theorem numbered_new (sequence : Nat) : Numbered (.new sequence) where
  named name entry found := by simp [new] at found
  tracked name entry id tracked found := by simp [new] at found
  logged name topic message found := by simp [new] at found

variable {broker : Broker}

theorem Move.message {now : Moment} {operation : Operation}
    {entry changed : SubscriptionEntry} {forwarded : List Forwarded} {id : Nat} {tracked : Tracked}
    {after : Option Tracked} (move : Move now broker name operation entry changed forwarded id tracked after)
    {later : Tracked} (found : after = some later) : later.message = tracked.message := by
  cases move with
  | released mode state released =>
    cases released <;> cases found <;> rfl
  | drained => cases found
  | _ => cases found; rfl

section Phases

variable {externals : Externals} {now : Moment} {broker middle after : Broker}
  {operation : Operation}

theorem Turn.numbered (turn : Turn externals now broker operation middle after)
    (numbered : Numbered broker) : Numbered middle where
  named name entry found := by
    obtain ⟨forwarded, change, -⟩ := turn.changed name
    rw [found] at change
    exact (change.settings (numbered.named name)).1
  tracked name entry id tracked found stored := by
    rw [turn.counter]
    obtain ⟨forwarded, change, -⟩ := turn.changed name
    rw [found] at change
    cases earlier : broker.subscriptions[name]? with
    | none =>
      rw [earlier] at change
      cases change with
      | founded filter asked topicStored valid =>
        obtain ⟨message, member, same, rfl⟩ := getElem?_founded stored
        exact ⟨same, same ▸ numbered.logged _ _ message topicStored member⟩
    | some old =>
      rw [earlier] at change
      rcases change.moves id with ⟨-, absent⟩ | ⟨trackedBefore, before, move⟩
      · cases absent.symm.trans stored
      · rw [move.message stored]
        exact numbered.tracked name old id trackedBefore earlier before
  logged name topic message found member := by
    rw [turn.counter]
    rcases turn.logs name topic found with empty | ⟨earlier, stored, same⟩
    · rw [empty] at member
      cases member
    · exact numbered.logged name earlier message stored (same ▸ member)

theorem Delivered.numbered (delivered : Delivered now middle after) (numbered : Numbered middle) :
    Numbered after where
  named name entry found := by
    obtain ⟨earlier, messages, stored, -, rfl⟩ := grown_after (delivered.entries _) found
    rw [(sameButBacklog_trackAll now messages earlier).subscription]
    exact numbered.named name earlier stored
  tracked name entry id tracked found stored := by
    obtain ⟨earlier, messages, before, fresh, rfl⟩ := grown_after (delivered.entries _) found
    rcases getElem?_trackAll now messages earlier id with
      kept | ⟨message, member, same, -, result⟩
    · obtain ⟨same, below⟩ := numbered.tracked name earlier id tracked before (kept ▸ stored)
      exact ⟨same, below.trans_le delivered.counter⟩
    · rw [result] at stored
      cases stored
      exact ⟨same, same ▸ (fresh message member).2⟩
  logged name topic message found member := by
    obtain ⟨earlier, messages, stored, fresh, rfl⟩ := grown_after (delivered.logs _) found
    rcases List.mem_append.mp member with old | new
    · exact (numbered.logged name earlier message stored old).trans_le delivered.counter
    · exact (fresh message new).2

end Phases

theorem numbered_step (externals : Externals) (broker : Broker) (request : Request)
    (numbered : Numbered broker) : Numbered (broker.step externals request) := by
  obtain ⟨middle, turn⟩ := broker.perform_turn externals (broker.moment request) request.operation
  have after := turn.delivered.numbered (turn.numbered numbered)
  exact ⟨after.named, after.tracked, after.logged⟩

/-! ## Dead-letter topics -/

/-- Every dead-letter policy names a topic that exists. -/
def PoliciesHold (broker : Broker) : Prop :=
  ∀ (name : Text) (entry : SubscriptionEntry) (policy : DeadLetterPolicy),
    broker.subscriptions[name]? = some entry → entry.subscription.deadLetterPolicy = some policy →
    policy.deadLetterTopic ∈ broker.topics

/-- The request deletes no topic that a dead-letter policy names. -/
def KeepsDeadLetterTopics (broker : Broker) (request : Request) : Prop :=
  ∀ (name : Text) (entry : SubscriptionEntry) (policy : DeadLetterPolicy),
    broker.subscriptions[name]? = some entry → entry.subscription.deadLetterPolicy = some policy →
    request.operation ≠ .deleteTopic policy.deadLetterTopic

theorem policiesHold_new (sequence : Nat) : PoliciesHold (.new sequence) := by
  intro name entry policy found
  simp [new] at found

theorem policiesHold_step {externals : Externals}
    (keeps : KeepsDeadLetterTopics broker request) (numbered : Numbered broker)
    (hold : PoliciesHold broker) : PoliciesHold (broker.step externals request) := by
  intro name entry policy found stated
  obtain ⟨middle, turn⟩ := broker.perform_turn externals (broker.moment request) request.operation
  obtain ⟨earlier, messages, stored, -, rfl⟩ := grown_after (turn.delivered.entries _) found
  rw [(sameButBacklog_trackAll _ messages earlier).subscription] at stated
  obtain ⟨forwarded, change, -⟩ := turn.changed name
  rw [stored] at change
  have present : policy.deadLetterTopic ∈ middle.topics := by
    rcases (change.settings (numbered.named name)).2 policy stated with
      ⟨exists_, keepsTopics⟩ | ⟨old, before, same⟩
    · exact turn.topics _ exists_ (keepsTopics _)
    · exact turn.topics _ (hold name old policy before same) (keeps name old policy before same)
  obtain ⟨topic, foundTopic⟩ := isSome_iff_exists.mp
    (Std.ExtTreeMap.mem_iff_isSome_getElem?.mp present)
  obtain ⟨more, -, kept⟩ := grown_before (turn.delivered.logs _) foundTopic
  rw [Std.ExtTreeMap.mem_iff_isSome_getElem?]
  exact isSome_iff_exists.mpr ⟨_, kept⟩

/-! ## Outstanding messages -/

/-- The subscription tracks the message as available, leased or being pushed. -/
def Outstanding (broker : Broker) (name : Text) (message : StoredMessage) : Prop :=
  ∃ entry tracked, broker.subscriptions[name]? = some entry ∧
    entry.messages[message.id]? = some tracked ∧ tracked.message = message ∧
    tracked.state ≠ .acked

/-- A request that ends the tracking of an outstanding message. -/
inductive Discharged (externals : Externals) (broker : Broker) (request : Request) (name : Text)
    (message : StoredMessage) : Prop
  | acknowledged {ackIds : List Text} {ackId : Text} {ack deadline : Nat}
      {entry : SubscriptionEntry} {tracked : Tracked}
      (asked : request.operation = .acknowledge name ackIds) (member : ackId ∈ ackIds)
      (parsed : Broker.parseAckId name ackId = .ok ack)
      (found : broker.subscriptions[name]? = some entry)
      (stored : entry.messages[message.id]? = some tracked)
      (state : tracked.state = .leased ack deadline)
  | pushed {job : PushJob} (asked : request.operation = .recordPush job true)
      (named : job.subscription = name) (numbered : job.messageId = message.id)
  | skipped {entry : SubscriptionEntry} {tracked : Tracked}
      (asked : (∃ time, request.operation = .seekToTime name time) ∨
        ∃ snapshot, request.operation = .seekToSnapshot name snapshot)
      (found : (broker.step externals request).subscriptions[name]? = some entry)
      (stored : entry.messages[message.id]? = some tracked) (state : tracked.state = .acked)
  | drained (asked : request.operation = .drain name)
  | deleted (asked : request.operation = .deleteSubscription name)
  | deadLettered {entry : SubscriptionEntry} {policy : DeadLetterPolicy} {topic : TopicEntry}
      {copyId attempts : Nat} (found : broker.subscriptions[name]? = some entry)
      (stated : entry.subscription.deadLetterPolicy = some policy)
      (published : (broker.step externals request).topics[policy.deadLetterTopic]? = some topic)
      (fresh : broker.nextMessageId ≤ copyId)
      (copied : Broker.deadLetterCopy externals (broker.moment request) copyId
        ⟨name, message, attempts⟩ ∈ topic.messages)

theorem movedState_acked {now : Moment} {settings : Subscription} {entry : SubscriptionEntry}
    {state : MessageState} (moved : entry.movedState now settings state = .acked) :
    state = .acked := by
  unfold movedState at moved
  split_ifs at moved <;> exact moved

variable {message : StoredMessage}

theorem outstanding_of_middle {externals : Externals} {broker middle : Broker}
    (turn : Turn externals (broker.moment request) broker request.operation middle
      (broker.perform externals (broker.moment request) request.operation))
    (numbered : Numbered broker)
    (outstanding : Outstanding middle name message) :
    Outstanding (broker.step externals request) name message := by
  obtain ⟨entry, tracked, found, stored, same, state⟩ := outstanding
  obtain ⟨messages, fresh, result⟩ := grown_before (turn.delivered.entries _) found
  refine ⟨_, tracked, result, ?_, same, state⟩
  have older := ((turn.numbered numbered).tracked name entry message.id tracked found stored).2
  rw [Delivered.getElem?_older _ (fun message member => (fresh message member).1) older, stored]

theorem outstanding_step (externals : Externals)
    (numbered : Numbered broker) (hold : PoliciesHold broker)
    (keeps : KeepsDeadLetterTopics broker request)
    (outstanding : Outstanding broker name message) :
    Outstanding (broker.step externals request) name message ∨
      Discharged externals broker request name message := by
  obtain ⟨entry, tracked, found, stored, rfl, state⟩ := outstanding
  obtain ⟨middle, turn⟩ := broker.perform_turn externals (broker.moment request) request.operation
  obtain ⟨forwarded, change, copied⟩ := turn.changed name
  have remains : ∀ {later : SubscriptionEntry} {trackedLater : Tracked},
      middle.subscriptions[name]? = some later →
      later.messages[tracked.message.id]? = some trackedLater →
      trackedLater.message = tracked.message → trackedLater.state ≠ .acked →
      Outstanding (broker.step externals request) name tracked.message :=
    fun foundLater storedLater sameMessage unacked =>
      outstanding_of_middle turn numbered ⟨_, _, foundLater, storedLater, sameMessage, unacked⟩
  rw [found] at change
  cases later : middle.subscriptions[name]? with
  | none =>
    rw [later] at change
    generalize asked : request.operation = operation at change
    cases change with
    | deleted => exact .inr (.deleted asked)
  | some changed =>
    rw [later] at change
    have move := change.move stored
    generalize result : changed.messages[tracked.message.id]? = after at move
    cases move with
    | kept => exact .inl (remains later result rfl state)
    | leased => exact .inl (remains later result rfl MessageState.noConfusion)
    | acknowledged asked member parsed leased =>
      exact .inr (.acknowledged asked member parsed found stored leased)
    | released mode leased released =>
      cases released with
      | extended => exact .inl (remains later result rfl MessageState.noConfusion)
      | requeued =>
        exact .inl (remains later result rfl (entry.waiting_ne_acked _))
      | forwarded exhausted member =>
        have same := change.same_of_forwarded member
        have copy := copied _ member
        rw [numbered.named name entry found] at copy
        obtain ⟨policy, stated, -⟩ := (any_eq_true _ _).mp exhausted
        have present := turn.topics _ (hold name entry policy found stated)
          (keeps name entry policy found stated)
        obtain ⟨topic, copyId, published, fresh, inLog⟩ :=
          copy changed policy later (by rw [same.subscription, stated]) present
        exact .inr (.deadLettered found stated published (turn.counter ▸ fresh) inLog)
    | @pushed job delivered asked named same pushing =>
      cases delivered with
      | true => exact .inr (.pushed asked named same)
      | false => exact .inl (remains later result rfl MessageState.noConfusion)
    | switched => exact .inl (remains later result rfl fun moved => state (movedState_acked moved))
    | @sought stateAfter attempts asked =>
      by_cases acked : stateAfter = .acked
      · obtain ⟨messages, fresh, resultAfter⟩ := grown_before (turn.delivered.entries _) later
        have older := ((turn.numbered numbered).tracked name changed _ _ later result).2
        have storedAfter := (Delivered.getElem?_older (broker.moment request)
          (fun message member => (fresh message member).1) older changed).trans result
        exact .inr (.skipped asked resultAfter storedAfter acked)
      · exact .inl (remains later result rfl acked)
    | drained asked => exact .inr (.drained asked)

/-- Through a run, an outstanding message stays so until a request discharges it. -/
theorem outstanding_run {externals : Externals} {requests : List Request}
    (numbered : Numbered broker) (hold : PoliciesHold broker)
    (keeps : AllSteps (step externals) KeepsDeadLetterTopics broker requests)
    (outstanding : Outstanding broker name message) :
    Outstanding (run (step externals) broker requests) name message ∨
    ∃ front request back, requests = front ++ request :: back ∧
      Discharged externals (run (step externals) broker front) request name message := by
  induction requests generalizing broker with
  | nil => exact .inl outstanding
  | cons request requests ih =>
    rcases outstanding_step externals numbered hold keeps.1 outstanding with
      remains | discharged
    · rcases ih (numbered_step externals broker request numbered)
          (policiesHold_step keeps.1 numbered hold) keeps.2 remains with
        stays | ⟨front, later, back, rfl, discharged⟩
      · exact .inl stays
      · exact .inr ⟨request :: front, later, back, rfl, discharged⟩
    · exact .inr ⟨[], request, requests, rfl, discharged⟩

theorem numbered_run (externals : Externals) (requests : List Request)
    (numbered : Numbered broker) :
    Numbered (run (step externals) broker requests) :=
  invariant_run_unconditional Numbered (numbered_step externals) numbered requests

theorem policiesHold_run {externals : Externals} {requests : List Request}
    (numbered : Numbered broker) (hold : PoliciesHold broker)
    (keeps : AllSteps (step externals) KeepsDeadLetterTopics broker requests) :
    PoliciesHold (run (step externals) broker requests) := by
  induction requests generalizing broker with
  | nil => exact hold
  | cons request requests ih =>
    exact ih (numbered_step externals broker request numbered)
      (policiesHold_step keeps.1 numbered hold) keeps.2

/-- In a run that deletes no dead-letter topic in use, a message that is published to a
topic and passes the filter of an attached subscription stays outstanding until a request
discharges it. -/
theorem published_messages_retained (externals : Externals) (sequence : Nat)
    (earlier : List Request) (publishing : Request) (later : List Request)
    (keeps : Runs.AllSteps (step externals) KeepsDeadLetterTopics (.new sequence)
      (earlier ++ publishing :: later))
    (name topicName : Text) (entry : SubscriptionEntry) (topic : TopicEntry)
    (message : StoredMessage)
    (found : (run (step externals) (.new sequence)
      (earlier ++ [publishing])).subscriptions[name]? = some entry)
    (foundTopic : (run (step externals) (.new sequence)
      (earlier ++ [publishing])).topics[topicName]? = some topic)
    (attached : entry.Attached topic) (passes : entry.passes message = true)
    (published : message ∈ topic.messages)
    (unpublished : ∀ before, (run (step externals) (.new sequence)
      earlier).topics[topicName]? = some before → message ∉ before.messages) :
    Outstanding (run (step externals) (.new sequence)
      (earlier ++ publishing :: later)) name message ∨
    ∃ front request back, later = front ++ request :: back ∧
      Discharged externals (run (step externals) (.new sequence)
        (earlier ++ publishing :: front)) request name message := by
  have split_ : ∀ rest : List Request, earlier ++ publishing :: rest =
      (earlier ++ [publishing]) ++ rest := by simp
  rw [split_, allSteps_append] at keeps
  have outstanding : Outstanding (run (step externals) (.new sequence)
      (earlier ++ [publishing])) name message := by
    rw [run_append] at found foundTopic ⊢
    obtain ⟨middle, turn⟩ := (run (step externals) (.new sequence)
      earlier).perform_turn externals (Broker.moment _ publishing) publishing.operation
    have arrived := turn.delivered.tracked name topicName entry topic message found foundTopic
      attached published ?_ passes
    · exact ⟨entry, _, found, arrived, rfl, entry.waiting_ne_acked _⟩
    · intro logged stored
      rcases turn.logs topicName logged stored with empty | ⟨before, storedBefore, same⟩
      · simp [empty]
      · exact same ▸ unpublished before storedBefore
  have numbered := numbered_run externals (earlier ++ [publishing]) (numbered_new sequence)
  have hold := policiesHold_run (numbered_new sequence) (policiesHold_new sequence) keeps.1
  rcases outstanding_run numbered hold keeps.2 outstanding with
    stays | ⟨front, request, back, parts, discharged⟩
  · rw [← run_append, ← split_] at stays
    exact .inl stays
  · rw [← run_append, ← split_] at discharged
    exact .inr ⟨front, request, back, parts, discharged⟩

/-! ## Acknowledged messages -/

variable {id : Nat}

def Acknowledged (broker : Broker) (name : Text) (id : Nat) : Prop :=
  ∃ entry tracked, broker.subscriptions[name]? = some entry ∧
    entry.messages[id]? = some tracked ∧ tracked.state = .acked

def Rewinds (name : Text) (operation : Operation) : Prop :=
  (∃ time, operation = .seekToTime name time) ∨ (∃ snapshot, operation = .seekToSnapshot name snapshot) ∨
    operation = .drain name ∨ operation = .deleteSubscription name

theorem acknowledged_step (externals : Externals) (numbered : Numbered broker)
    (stays : ¬Rewinds name request.operation) (acknowledged : Acknowledged broker name id) :
    Acknowledged (broker.step externals request) name id := by
  obtain ⟨entry, tracked, found, stored, acked⟩ := acknowledged
  obtain ⟨middle, turn⟩ := broker.perform_turn externals (broker.moment request) request.operation
  obtain ⟨forwarded, change, -⟩ := turn.changed name
  rw [found] at change
  suffices kept : Acknowledged middle name id by
    obtain ⟨changed, later, foundLater, storedLater, ackedLater⟩ := kept
    obtain ⟨messages, fresh, result⟩ := grown_before (turn.delivered.entries _) foundLater
    refine ⟨_, later, result, ?_, ackedLater⟩
    have older := ((turn.numbered numbered).tracked name changed id later foundLater storedLater).2
    rw [Delivered.getElem?_older _ (fun message member => (fresh message member).1) older,
      storedLater]
  cases foundLater : middle.subscriptions[name]? with
  | none =>
    rw [foundLater] at change
    generalize asked : request.operation = operation at change
    cases change with
    | deleted => exact absurd (.inr (.inr (.inr asked))) stays
  | some changed =>
    rw [foundLater] at change
    have move := change.move stored
    generalize storedLater : changed.messages[id]? = after at move
    have kept (later : Tracked) (same : after = some later) (ackedLater : later.state = .acked) :
        Acknowledged middle name id :=
      ⟨changed, later, foundLater, storedLater.trans same, ackedLater⟩
    cases move with
    | kept => exact kept _ rfl acked
    | leased asked available => cases acked.symm.trans available
    | acknowledged asked member parsed leased => cases acked.symm.trans leased
    | released mode leased => cases acked.symm.trans leased
    | pushed asked named same pushing => simp [acked, MessageState.isPushing] at pushing
    | switched => exact kept _ rfl (by simp [movedState, acked, MessageState.isPushing])
    | sought asked => exact absurd (asked.imp_right .inl) stays
    | drained asked => exact absurd (.inr (.inr (.inl asked))) stays

theorem not_pulled_of_acknowledged (numbered : Numbered broker)
    (acknowledged : Acknowledged broker name id) {maxMessages : Int} {leases : List Lease}
    (pulled : broker.pull now name maxMessages = .ok (after, leases)) :
    ∀ lease ∈ leases, lease.message.id ≠ id := by
  rintro lease member rfl
  obtain ⟨entry, tracked, found, stored, acked⟩ := acknowledged
  obtain ⟨other, foundOther, rfl, -⟩ := Broker.pull_ok pulled
  obtain rfl : entry = other := Option.some.inj (found.symm.trans foundOther)
  have taken := List.mem_map_of_mem (f := fun lease => lease.message.id) member
  rw [SubscriptionEntry.take, takeFrom_ids (nodup_candidates entry) _ _ fun id tracked stored =>
    (numbered.tracked name entry id tracked found stored).1] at taken
  obtain ⟨candidate, _⟩ := List.mem_filter.mp (List.mem_of_mem_take taken)
  obtain ⟨available, isStored, isAvailable⟩ := mem_candidates.mp candidate
  obtain rfl : tracked = available := Option.some.inj (stored.symm.trans isStored)
  cases acked.symm.trans isAvailable

/-- Once acknowledged, a message stays so in every run that does not seek, drain or delete its
subscription, and no pull hands it out. -/
theorem acknowledged_messages_stay (externals : Externals) (sequence : Nat)
    (earlier later : List Request) (name : Text) (id : Nat)
    (acknowledged : Acknowledged (run (step externals) (.new sequence) earlier) name id)
    (stays : ∀ request ∈ later, ¬Rewinds name request.operation) :
    let broker := run (step externals) (.new sequence) (earlier ++ later)
    Acknowledged broker name id ∧ ∀ now maxMessages after leases,
      broker.pull now name maxMessages = .ok (after, leases) →
        ∀ lease ∈ leases, lease.message.id ≠ id := by
  intro broker
  have kept : Numbered broker ∧ Acknowledged broker name id := by
    dsimp only [broker]
    rw [run_append]
    refine invariant_run (fun broker => Numbered broker ∧ Acknowledged broker name id) ?_
      ⟨numbered_run externals earlier (numbered_new sequence), acknowledged⟩
      (allSteps_of_forall (fun _ => stays) _)
    rintro broker request stays ⟨numbered, acknowledged⟩
    exact ⟨numbered_step externals broker request numbered,
      acknowledged_step externals numbered stays acknowledged⟩
  exact ⟨kept.2, fun _ _ _ _ pulled => not_pulled_of_acknowledged kept.1 kept.2 pulled⟩

/-! ## A run with a dead-letter topic -/

namespace Sample

def externals : Externals where
  parseFilter _ := .error (.invalidArgument "")
  validUrl _ := false
  parseDefinition _ := .error (.invalidArgument "")
  validMessage _ _ _ := false
  revisionId _ _ _ := []
  formatMillis _ := []

def orders : Text := "projects/p/topics/orders".toList
def dead : Text := "projects/p/topics/dead".toList
def work : Text := "projects/p/subscriptions/work".toList

/-- Two topics and a subscription that gives a message up after five deliveries. -/
def setup : List Request :=
  [{ operation := .createTopic { name := orders } },
   { operation := .createTopic { name := dead } },
   { operation := .createSubscription
      { name := work, topic := orders, deadLetterPolicy := some ⟨dead, 5⟩ } }]

def publishing : Request := { operation := .publish orders [{ data := [1] }] }

def pulling : Request := { operation := .pull work 1 }

def nacking (ack : Nat) : Request :=
  { operation := .modifyAckDeadline work [work ++ ":".toList ++ decimal ack] 0 }

def deliveries : List Request :=
  [pulling, nacking 1, pulling, nacking 2, pulling, nacking 3, pulling, nacking 4, pulling]

def deleting : Request := { operation := .deleteTopic dead }

def after (requests : List Request) : Broker := run (step externals) (.new (2 ^ 40)) requests

def acking : List Request :=
  setup ++ [publishing, pulling, { operation := .acknowledge work [work ++ ":1".toList] }]

end Sample

open Firenook.Pubsub.Sample

theorem acknowledged_messages_stay_sample :
    let broker := after (acking ++ [pulling, { operation := .tick }])
    Acknowledged broker work 1 ∧ ∀ now maxMessages after leases,
      broker.pull now work maxMessages = .ok (after, leases) →
        ∀ lease ∈ leases, lease.message.id ≠ 1 := by
  have computed : ((after acking).subscriptions[work]?.any fun entry =>
      entry.messages[1]?.any fun tracked => tracked.state = .acked) = true := by
    decide +kernel
  obtain ⟨entry, found, inEntry⟩ := Option.any_eq_true _ _ |>.mp computed
  obtain ⟨tracked, stored, acked⟩ := Option.any_eq_true _ _ |>.mp inEntry
  exact acknowledged_messages_stay externals (2 ^ 40) acking _ work 1
    ⟨entry, tracked, found, stored, of_decide_eq_true acked⟩ (by simp [Rewinds, pulling])

theorem published_messages_retained_sample :
    ∃ entry topic message,
      (after (setup ++ [publishing])).subscriptions[work]? =
        some entry ∧
      (after (setup ++ [publishing])).topics[orders]? = some topic ∧
      message ∈ topic.messages ∧
      (Outstanding (after (setup ++ publishing ::
          (deliveries ++ [nacking 5]))) work message ∨
        ∃ front request back, deliveries ++ [nacking 5] = front ++ request :: back ∧
          Discharged externals (after (setup ++ publishing :: front))
            request work message) := by
  have computed : ((after (setup ++
      [publishing])).subscriptions[work]?.any fun entry =>
      (after (setup ++ [publishing])).topics[orders]?.any fun topic =>
        topic.messages.any fun message =>
          (entry.topicDeleted = false && entry.topicGeneration = topic.generation) &&
            entry.passes message) = true := by
    decide +kernel
  obtain ⟨entry, found, inTopic⟩ := Option.any_eq_true _ _ |>.mp computed
  obtain ⟨topic, foundTopic, inLog⟩ := Option.any_eq_true _ _ |>.mp inTopic
  obtain ⟨message, published, holds⟩ := List.any_eq_true.mp inLog
  simp only [Bool.and_eq_true, decide_eq_true_eq] at holds
  refine ⟨entry, topic, message, found, foundTopic, published, ?_⟩
  refine published_messages_retained externals (2 ^ 40) setup publishing
    (deliveries ++ [nacking 5]) ?_ work orders entry topic message found
    foundTopic holds.1 holds.2 published ?_
  · refine allSteps_of_forall ?_ _
    intro broker request member name entry policy _ _
    simp only [setup, deliveries, List.cons_append, List.nil_append, List.mem_cons,
      List.not_mem_nil, or_false] at member
    rcases member with rfl | rfl | rfl | rfl | rfl | rfl | rfl | rfl | rfl | rfl | rfl | rfl | rfl |
      rfl <;> exact Operation.noConfusion
  · intro before foundBefore member
    have empty : ((after setup).topics[orders]?.all fun topic =>
        topic.messages.isEmpty) = true := by
      decide +kernel
    have stored : (after setup).topics[orders]? = some before := foundBefore
    rw [stored, Option.all_some, List.isEmpty_iff] at empty
    rw [empty] at member
    cases member

/-- With its dead-letter topic deleted, a subscription loses the message that it gives up:
it is neither tracked any more nor copied anywhere. -/
theorem given_up_message_lost :
    ∃ message,
      Outstanding (after (setup ++ publishing ::
        (deliveries ++ [deleting]))) work message ∧
      ¬Outstanding (after (setup ++ publishing ::
        (deliveries ++ [deleting, nacking 5]))) work message ∧
      ¬Discharged externals (after (setup ++ publishing ::
        (deliveries ++ [deleting]))) (nacking 5) work message := by
  have before : ((after (setup ++ publishing ::
      (deliveries ++ [deleting]))).subscriptions[work]?.any fun entry =>
        entry.messages[1]?.any fun tracked =>
          tracked.message.id = 1 && tracked.state ≠ .acked) = true := by
    decide +kernel
  have afterwards : ((after (setup ++ publishing ::
      (deliveries ++ [deleting, nacking 5]))).subscriptions[work]?.all
        fun entry => entry.messages[1]?.isNone) = true := by
    decide +kernel
  have policy : ((after (setup ++ publishing ::
      (deliveries ++ [deleting]))).subscriptions[work]?.all fun entry =>
        entry.subscription.deadLetterPolicy.all fun policy =>
          policy.deadLetterTopic = dead) = true := by
    decide +kernel
  have missing : ((after (setup ++ publishing ::
      (deliveries ++ [deleting]))).step externals
        (nacking 5)).topics[dead]?.isNone = true := by
    decide +kernel
  obtain ⟨entry, found, inEntry⟩ := Option.any_eq_true _ _ |>.mp before
  obtain ⟨tracked, stored, holds⟩ := Option.any_eq_true _ _ |>.mp inEntry
  simp only [Bool.and_eq_true, decide_eq_true_eq] at holds
  refine ⟨tracked.message, ⟨entry, tracked, found, ?_, rfl, holds.2⟩, ?_, ?_⟩
  · rw [holds.1, stored]
  · rintro ⟨later, trackedLater, foundLater, storedLater, -, -⟩
    rw [foundLater, Option.all_some, Option.isNone_iff_eq_none] at afterwards
    rw [holds.1, afterwards] at storedLater
    cases storedLater
  · intro discharged
    cases discharged with
    | deadLettered foundPolicy stated published =>
      rw [foundPolicy, Option.all_some, stated, Option.all_some, decide_eq_true_eq] at policy
      rw [policy, Option.isNone_iff_eq_none.mp missing] at published
      cases published
    | skipped asked => rcases asked with ⟨_, asked⟩ | ⟨_, asked⟩ <;> cases asked
    | acknowledged asked | pushed asked | drained asked | deleted asked => cases asked

end Firenook.Pubsub
