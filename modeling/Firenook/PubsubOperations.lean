import Firenook.PubsubSteps

/-!
# What an operation does to the broker

An operation first changes subscriptions one by one, each on its own, and then delivers
messages under new ids.  `Change` lists everything that the first phase can do to one
subscription, with the operation that does it; every property of runs is read off this
list.
-/

namespace Firenook.Pubsub

open OrderedMaps List SubscriptionEntry Broker
open Option (map_eq_some_iff map_some)
open Std.ExtTreeMap (mem_iff_isSome_getElem? mem_toList_iff_getElem?_eq_some)
open Subset (refl)

/-! ## Delivery -/

def SubscriptionEntry.Attached (entry : SubscriptionEntry) (topic : TopicEntry) : Prop :=
  entry.topicDeleted = false ∧ entry.topicGeneration = topic.generation

variable {topic : TopicEntry}

theorem SubscriptionEntry.SameButBacklog.attached {first second : SubscriptionEntry}
    (same : first.SameButBacklog second) (attached : second.Attached topic) :
    first.Attached topic := by
  unfold Attached at *
  rwa [same.topicDeleted, same.topicGeneration] at attached

def NewBetween (before after : Broker) (message : StoredMessage) : Prop :=
  before.nextMessageId ≤ message.id ∧ message.id < after.nextMessageId

def TopicEntry.append (messages : List StoredMessage) (topic : TopicEntry) : TopicEntry :=
  { topic with messages := topic.messages ++ messages }

@[simp]
theorem TopicEntry.append_nil : TopicEntry.append [] = id := by
  funext topic
  simp [TopicEntry.append]

/-- Messages under new ids were appended to topics and tracked by the subscriptions. -/
structure Delivered (now : Moment) (before after : Broker) : Prop where
  counter : before.nextMessageId ≤ after.nextMessageId
  entries : ∀ name : Text, ∃ messages : List StoredMessage,
    (∀ message ∈ messages, NewBetween before after message) ∧
    after.subscriptions[name]? = before.subscriptions[name]?.map (messages.foldl (track now))
  logs : ∀ name : Text, ∃ messages : List StoredMessage,
    (∀ message ∈ messages, NewBetween before after message) ∧
    after.topics[name]? = before.topics[name]?.map (TopicEntry.append messages)
  tracked : ∀ (name topicName : Text) (entry : SubscriptionEntry) (topic : TopicEntry)
    (message : StoredMessage),
    after.subscriptions[name]? = some entry → after.topics[topicName]? = some topic →
    entry.Attached topic → message ∈ topic.messages →
    (∀ earlier, before.topics[topicName]? = some earlier → message ∉ earlier.messages) →
    entry.passes message = true →
    entry.messages[message.id]? = some (entry.arrival now message)

section

variable {α : Type} {P : List StoredMessage → Prop} {grow : List StoredMessage → α → α}
  {earlier later : Option α} {value : α}
  (grown : ∃ messages, P messages ∧ later = earlier.map (grow messages))
include grown

theorem grown_before (found : earlier = some value) :
    ∃ messages, P messages ∧ later = some (grow messages value) := by
  obtain ⟨messages, fresh, result⟩ := grown
  exact ⟨messages, fresh, by rw [result, found, map_some]⟩

theorem grown_after (found : later = some value) :
    ∃ old messages, earlier = some old ∧ P messages ∧ value = grow messages old := by
  obtain ⟨messages, fresh, result⟩ := grown
  rw [result] at found
  obtain ⟨old, stored, rfl⟩ := map_eq_some_iff.mp found
  exact ⟨old, messages, stored, fresh, rfl⟩

end

variable {entry : SubscriptionEntry}

namespace Delivered

variable {now : Moment} {before middle after : Broker} {name : Text}

theorem refl (now : Moment) (broker : Broker) : Delivered now broker broker where
  counter := le_refl _
  entries name := ⟨[], by simp, by simp⟩
  logs name := ⟨[], by simp, by simp⟩
  tracked name topicName entry topic message _ found _ member absent :=
    absurd member (absent topic found)

theorem notify (delivered : Delivered now before after) : Delivered now before after.notify :=
  ⟨delivered.counter, delivered.entries, delivered.logs, delivered.tracked⟩

theorem getElem?_older (now : Moment) {messages : List StoredMessage} {bound id : Nat}
    (fresh : ∀ message ∈ messages, bound ≤ message.id) (older : id < bound)
    (entry : SubscriptionEntry) :
    (messages.foldl (track now) entry).messages[id]? = entry.messages[id]? := by
  rcases getElem?_trackAll now messages entry id with
    kept | ⟨message, member, numbered, -, -⟩
  · exact kept
  · have := fresh message member
    omega

theorem fresh_append (first : Delivered now before middle) (second : Delivered now middle after)
    {earlier later : List StoredMessage}
    (freshEarlier : ∀ message ∈ earlier, NewBetween before middle message)
    (freshLater : ∀ message ∈ later, NewBetween middle after message) :
    ∀ message ∈ earlier ++ later, NewBetween before after message := by
  intro message member
  rcases mem_append.mp member with member | member
  · exact (freshEarlier message member).imp_right fun below => below.trans_le second.counter
  · exact (freshLater message member).imp_left first.counter.trans

theorem trans (first : Delivered now before middle) (second : Delivered now middle after) :
    Delivered now before after where
  counter := first.counter.trans second.counter
  entries name := by
    obtain ⟨earlier, freshEarlier, resultEarlier⟩ := first.entries name
    obtain ⟨later, freshLater, resultLater⟩ := second.entries name
    refine ⟨earlier ++ later, first.fresh_append second freshEarlier freshLater, ?_⟩
    rw [resultLater, resultEarlier, Option.map_map]
    congr 1
    funext entry
    exact foldl_append.symm
  logs name := by
    obtain ⟨earlier, freshEarlier, resultEarlier⟩ := first.logs name
    obtain ⟨later, freshLater, resultLater⟩ := second.logs name
    refine ⟨earlier ++ later, first.fresh_append second freshEarlier freshLater, ?_⟩
    rw [resultLater, resultEarlier, Option.map_map]
    congr 1
    funext topic
    simp [TopicEntry.append]
  tracked name topicName entry topic message found foundTopic attached member absent passes := by
    obtain ⟨middleTopic, laterMessages, storedTopic, freshLog, rfl⟩ :=
      grown_after (second.logs _) foundTopic
    by_cases inMiddle : message ∈ middleTopic.messages
    · obtain ⟨middleEntry, messages, stored, fresh, rfl⟩ := grown_after (second.entries _) found
      have same := sameButBacklog_trackAll now messages middleEntry
      obtain ⟨earlierTopic, newMessages, storedEarlier, freshEarlier, rfl⟩ :=
        grown_after (first.logs _) storedTopic
      have isNew : NewBetween before middle message := by
        rcases mem_append.mp inMiddle with old | new
        · exact absurd old (absent earlierTopic storedEarlier)
        · exact freshEarlier message new
      rw [getElem?_older now (fun message member => (fresh message member).1) isNew.2, same.arrival]
      exact first.tracked name topicName middleEntry _ message stored storedTopic
        (same.attached attached) inMiddle absent (by rw [← same.passes, passes])
    · refine second.tracked name topicName entry _ message found foundTopic attached member ?_ passes
      intro earlier stored
      rw [storedTopic, Option.some.injEq] at stored
      exact stored ▸ inMiddle

end Delivered

variable (externals : Externals)

namespace Broker

variable {now : Moment} (now)

theorem receive_eq (generation : Nat) (messages : List StoredMessage) (entry : SubscriptionEntry) :
    receive now generation messages entry =
      (if entry.topicDeleted || entry.topicGeneration ≠ generation then [] else messages).foldl
        (track now) entry := by
  unfold receive
  split_ifs <;> rfl

theorem delivered_deliver (topicName : Text) (broker : Broker) {next : Nat}
    {messages : List StoredMessage} (later : broker.nextMessageId ≤ next)
    (fresh : ∀ message ∈ messages, broker.nextMessageId ≤ message.id ∧ message.id < next)
    (distinct : messages.Pairwise fun first second => first.id ≠ second.id) :
    Delivered now broker (deliver now topicName messages { broker with nextMessageId := next }) := by
  unfold deliver
  cases found : broker.topics[topicName]? with
  | none =>
    have same := Delivered.refl now broker
    exact ⟨later, fun name => ⟨[], by simp, by simp⟩, fun name => ⟨[], by simp, by simp⟩,
      same.tracked⟩
  | some target =>
    have entriesAfter : ∀ name : Text,
        (broker.subscriptions.map fun _ => receive now target.generation messages)[name]? =
          broker.subscriptions[name]?.map (receive now target.generation messages) :=
      fun name => Std.ExtTreeMap.getElem?_map
    refine ⟨later, ?_, ?_, ?_⟩
    · intro name
      cases stored : broker.subscriptions[name]? with
      | none => exact ⟨[], by simp, by rw [entriesAfter, stored]; rfl⟩
      | some entry =>
        refine ⟨_, ?_, by rw [entriesAfter, stored, map_some, receive_eq, map_some]⟩
        split_ifs
        · simp
        · exact fresh
    · intro name
      by_cases same : topicName = name
      · subst same
        refine ⟨messages, fresh, ?_⟩
        simp only [getElem?_insert_eq, found]
        rfl
      · refine ⟨[], by simp, ?_⟩
        simp [getElem?_insert_eq, same]
    · intro name other entry topic message foundEntry foundTopic attached member absent passes
      rw [getElem?_insert_eq] at foundTopic
      rw [entriesAfter] at foundEntry
      obtain ⟨earlier, stored, rfl⟩ := map_eq_some_iff.mp foundEntry
      split_ifs at foundTopic with same
      · subst same
        cases foundTopic
        have isNew : message ∈ messages := by
          rcases mem_append.mp member with old | new
          · exact absurd old (absent target found)
          · exact new
        rw [receive_eq] at attached passes ⊢
        have unchanged := sameButBacklog_trackAll now
          (if earlier.topicDeleted || earlier.topicGeneration ≠ target.generation then []
            else messages) earlier
        have attachedBefore := unchanged.attached attached
        rw [unchanged.arrival]
        rw [unchanged.passes] at passes
        rw [if_neg (by simp [attachedBefore.1, attachedBefore.2])]
        exact getElem?_trackAll_of_mem now distinct isNew earlier passes
      · exact absurd member (absent topic foundTopic)

theorem deliver_rest (topic : Text) (messages : List StoredMessage)
    (broker : Broker) : (deliver now topic messages broker).inFlight = broker.inFlight ∧
      (deliver now topic messages broker).version = broker.version := by
  unfold deliver
  split <;> exact ⟨rfl, rfl⟩

theorem forwardDeadLetters_rest (forwarded : List Forwarded) (broker : Broker) :
    (forwardDeadLetters externals now forwarded broker).inFlight = broker.inFlight ∧
      (forwardDeadLetters externals now forwarded broker).version = broker.version := by
  induction forwarded generalizing broker with
  | nil => exact ⟨rfl, rfl⟩
  | cons first forwarded ih =>
    refine ⟨(ih _).1.trans ?_, (ih _).2.trans ?_⟩ <;> unfold forwardDeadLetter <;> split
    · rfl
    · split_ifs
      · exact (deliver_rest ..).1
      · rfl
    · rfl
    · split_ifs
      · exact (deliver_rest ..).2
      · rfl

theorem delivered_forwardDeadLetter (broker : Broker) (forwarded : Forwarded) :
    Delivered now broker (forwardDeadLetter externals now broker forwarded) := by
  unfold forwardDeadLetter
  split
  · exact .refl _ _
  · split_ifs
    · refine delivered_deliver now _ broker (Nat.le_succ _) ?_ (pairwise_singleton ..)
      intro message member
      rw [mem_singleton.mp member]
      exact ⟨le_refl _, Nat.lt_succ_self _⟩
    · exact .refl _ _

theorem delivered_forwardDeadLetters (forwarded : List Forwarded) (broker : Broker) :
    Delivered now broker (forwardDeadLetters externals now forwarded broker) := by
  induction forwarded generalizing broker with
  | nil => exact .refl _ _
  | cons first forwarded ih =>
    exact (delivered_forwardDeadLetter externals now broker first).trans (ih _)

variable {now}

end Broker

/-- A copy of the message is on the dead-letter topic, if there is one. -/
def Copied (now : Moment) (before after : Broker) (forwarded : Forwarded) : Prop :=
  ∀ entry policy, before.subscriptions[forwarded.subscription]? = some entry →
    entry.subscription.deadLetterPolicy = some policy → policy.deadLetterTopic ∈ before.topics →
    ∃ topic id, after.topics[policy.deadLetterTopic]? = some topic ∧ before.nextMessageId ≤ id ∧
      deadLetterCopy externals now id forwarded ∈ topic.messages

theorem Copied.delivered {externals : Externals} {now : Moment} {before middle after : Broker}
    {forwarded : Forwarded} (copied : Copied externals now before middle forwarded)
    (delivered : Delivered now middle after) : Copied externals now before after forwarded := by
  intro entry policy found named present
  obtain ⟨topic, id, stored, new, member⟩ := copied entry policy found named present
  obtain ⟨messages, -, result⟩ := grown_before (delivered.logs _) stored
  exact ⟨_, id, result, new, mem_append_left _ member⟩

theorem Copied.of_delivered {externals : Externals} {now : Moment} {before middle after : Broker}
    {forwarded : Forwarded} (delivered : Delivered now before middle)
    (copied : Copied externals now middle after forwarded) :
    Copied externals now before after forwarded := by
  intro entry policy found named present
  obtain ⟨messages, -, result⟩ := grown_before (delivered.entries _) found
  have same := sameButBacklog_trackAll now messages entry
  have presentLater : policy.deadLetterTopic ∈ middle.topics := by
    obtain ⟨topic, stored⟩ := Option.isSome_iff_exists.mp
      (mem_iff_isSome_getElem?.mp present)
    obtain ⟨more, -, kept⟩ := grown_before (delivered.logs _) stored
    rw [mem_iff_isSome_getElem?, kept]
    rfl
  obtain ⟨topic, id, stored, new, member⟩ :=
    copied _ policy result (by rw [same.subscription, named]) presentLater
  exact ⟨topic, id, stored, delivered.counter.trans new, member⟩

namespace Broker

theorem copied_forwardDeadLetter (now : Moment) (broker : Broker) (forwarded : Forwarded) :
    Copied externals now broker (forwardDeadLetter externals now broker forwarded) forwarded := by
  intro entry policy found named present
  obtain ⟨topic, stored⟩ := Option.isSome_iff_exists.mp
    (mem_iff_isSome_getElem?.mp present)
  refine ⟨topic.append [deadLetterCopy externals now broker.nextMessageId forwarded],
    broker.nextMessageId, ?_, le_refl _, mem_append_right _ (mem_singleton_self _)⟩
  unfold forwardDeadLetter
  simp only [found, Option.bind_some, named, if_pos present, deliver, stored,
    getElem?_insert_eq]
  rfl

theorem copied_forwardDeadLetters (now : Moment)
    {forwarded : List Forwarded} {one : Forwarded} (member : one ∈ forwarded) (broker : Broker) :
    Copied externals now broker (forwardDeadLetters externals now forwarded broker) one := by
  induction forwarded generalizing broker with
  | nil => cases member
  | cons first forwarded ih =>
    rcases mem_cons.mp member with rfl | member
    · exact (copied_forwardDeadLetter externals now broker one).delivered
        (delivered_forwardDeadLetters externals now forwarded _)
    · exact (ih member _).of_delivered (delivered_forwardDeadLetter externals now broker first)

end Broker

/-! ## Changes of one subscription -/

def SubscriptionEntry.founded (now : Moment) (settings : Subscription) (topic : TopicEntry)
    (filter : Option Filter) : SubscriptionEntry :=
  let entry := (retained now topic).foldl (track now)
    ⟨settings, topic.generation, settings.topic, false, filter, ∅⟩
  if entry.isPush then entry.startPushing now else entry

/-- What an operation does to one subscription before messages are delivered, and the
messages that it gives up for the dead-letter topic. -/
inductive Change (externals : Externals) (now : Moment) (broker : Broker) (name : Text) :
    Operation → Option SubscriptionEntry → Option SubscriptionEntry → List Forwarded → Prop
  | kept (operation : Operation) (entry : Option SubscriptionEntry) :
      Change externals now broker name operation entry entry []
  | founded {request settings : Subscription} {topic : TopicEntry} (filter : Option Filter)
      (named : request.name = name) (found : broker.topics[request.topic]? = some topic)
      (valid : broker.validatedSubscription externals request = .ok settings) :
      Change externals now broker name (.createSubscription request) none
        (some (.founded now settings topic filter)) []
  | updated {update : Option Subscription} {paths : List Text}
      {parsed : List Broker.SubscriptionPath} {settings : Subscription}
      (entry : SubscriptionEntry) (named : (update.getD {}).name = name)
      (valid : broker.validatedSubscription externals
        (parsed.foldl (applyPath (update.getD {})) entry.subscription) = .ok settings) :
      Change externals now broker name (.updateSubscription update paths) (some entry)
        (some (entry.configure now settings)) []
  | repushed (config : Option PushConfig) (entry : SubscriptionEntry) :
      Change externals now broker name (.modifyPushConfig name config) (some entry)
        (some (entry.configure now
          { entry.subscription with pushConfig := some (config.getD {}) })) []
  | deleted (entry : SubscriptionEntry) :
      Change externals now broker name (.deleteSubscription name) (some entry) none []
  | pulled {maxMessages : Int} {after : Broker} (entry : SubscriptionEntry)
      (answered : broker.pull now name maxMessages =
        .ok (after, (entry.take maxMessages broker.nextAck now).2)) :
      Change externals now broker name (.pull name maxMessages) (some entry)
        (some (entry.take maxMessages broker.nextAck now).1) []
  | acknowledged {ackIds : List Text} {acks : List Nat} (entry : SubscriptionEntry)
      (parsed : ackIds.mapM (parseAckId name) = .ok acks) :
      Change externals now broker name (.acknowledge name ackIds) (some entry)
        (some (entry.acknowledgeAll acks).1) []
  | modified {ackIds : List Text} {acks : List Nat} (seconds : Int) (entry : SubscriptionEntry)
      (parsed : ackIds.mapM (parseAckId name) = .ok acks) :
      Change externals now broker name (.modifyAckDeadline name ackIds seconds) (some entry)
        (some (modifyDeadlines findLease seconds now acks broker.sequence entry).1)
        (modifyDeadlines findLease seconds now acks broker.sequence entry).2.2
  | expired (sequence : Nat) (entry : SubscriptionEntry) :
      Change externals now broker name .tick (some entry) (some (entry.expire now sequence).1)
        (entry.expire now sequence).2.2
  | pushed (job : PushJob) (delivered : Bool) (entry : SubscriptionEntry)
      (named : job.subscription = name) :
      Change externals now broker name (.recordPush job delivered) (some entry)
        (some (entry.pushed now job.messageId delivered)) []
  | soughtTime (time : ProtoTime) (entry : SubscriptionEntry) :
      Change externals now broker name (.seekToTime name time) (some entry)
        (some (entry.seek now (seekTimeChange
          entry.subscription.retainAckedMessages
          (time.seconds.toNat * 1000000000 + time.nanos.toNat)))) []
  | soughtSnapshot {snapshot : Text} {found : SnapshotEntry} (entry : SubscriptionEntry)
      (stored : broker.snapshots[snapshot]? = some found) :
      Change externals now broker name (.seekToSnapshot name snapshot) (some entry)
        (some (entry.seek now (seekSnapshotChange found))) []
  | drained (entry : SubscriptionEntry) :
      Change externals now broker name (.drain name) (some entry)
        (some { entry with messages := ∅ }) []
  | orphaned (topic : Text) (generation : Nat) (entry : SubscriptionEntry) :
      Change externals now broker name (.deleteTopic topic) (some entry)
        (some (entry.loseTopic generation)) []

/-- Some of the ids have a lease, and another one is stale or repeated, on a subscription with
exactly-once delivery. -/
def FailsStale (broker : Broker) : Operation → Prop
  | .acknowledge name ackIds => ∃ entry acks, broker.subscriptions[name]? = some entry ∧
    entry.subscription.enableExactlyOnceDelivery = true ∧
    ackIds.mapM (parseAckId name) = .ok acks ∧ (∃ ack ∈ acks, entry.findLease ack ≠ none) ∧
    ((∃ ack ∈ acks, entry.findLease ack = none) ∨ ¬acks.Nodup)
  | _ => False

/-- The change counter goes up, or no message becomes deliverable. -/
inductive Noticed (operation : Operation) (before after : Broker) : Prop
  | bumped (later : before.version < after.version)
  | stale (version : after.version = before.version) (fails : FailsStale before operation)
  | unseen (version : after.version = before.version)
      (fewer : ∀ (name : Text) (entry : SubscriptionEntry), after.subscriptions[name]? = some entry →
        ∃ earlier, before.subscriptions[name]? = some earlier ∧
          entry.deliverable ⊆ earlier.deliverable)

namespace Noticed

variable {operation : Operation} {before after : Broker}

theorem bump (bumped : after.version = before.version + 1) : Noticed operation before after :=
  .bumped (by omega)

theorem same (version : before.version ≤ after.version)
    (subscriptions : after.subscriptions = before.subscriptions) :
    Noticed operation before after := by
  rcases version.lt_or_eq with later | unchanged
  · exact .bumped later
  · exact .unseen unchanged.symm fun name entry found =>
      ⟨entry, subscriptions ▸ found, List.Subset.refl _⟩

theorem put {name : Text} {entry changed : SubscriptionEntry}
    (found : before.subscriptions[name]? = some entry)
    (subscriptions : after.subscriptions = before.subscriptions.insert name changed)
    (version : after.version = before.version)
    (fewer : changed.deliverable ⊆ entry.deliverable) : Noticed operation before after := by
  refine .unseen version fun other later stored => ?_
  rw [subscriptions, getElem?_insert_eq] at stored
  split_ifs at stored with same
  · cases stored
    exact ⟨entry, same ▸ found, fewer⟩
  · exact ⟨later, stored, List.Subset.refl _⟩

end Noticed

/-- An operation: subscriptions change on their own, then messages are delivered. -/
structure Turn (externals : Externals) (now : Moment) (broker : Broker) (operation : Operation)
    (middle after : Broker) : Prop where
  changed : ∀ name : Text, ∃ forwarded,
    Change externals now broker name operation broker.subscriptions[name]?
      middle.subscriptions[name]? forwarded ∧
    ∀ one ∈ forwarded, Copied externals now middle after one
  counter : middle.nextMessageId = broker.nextMessageId
  logs : ∀ (name : Text) (topic : TopicEntry), middle.topics[name]? = some topic →
    topic.messages = [] ∨ ∃ earlier, broker.topics[name]? = some earlier ∧
      topic.messages = earlier.messages
  topics : ∀ name, name ∈ broker.topics → operation ≠ .deleteTopic name → name ∈ middle.topics
  delivered : Delivered now middle after
  flights : operation ≠ .tick → after.inFlight ⊆ broker.inFlight
  noticed : Noticed operation broker after

namespace Turn

variable {externals : Externals} {now : Moment} {broker after : Broker} {operation : Operation}

theorem of_delivered (delivered : Delivered now broker after)
    (flights : after.inFlight ⊆ broker.inFlight) (noticed : Noticed operation broker after) :
    Turn externals now broker operation broker after where
  changed name := ⟨[], .kept _ _, by simp⟩
  counter := rfl
  logs name topic found := .inr ⟨topic, found, rfl⟩
  topics name present _ := present
  delivered := delivered
  flights _ := flights
  noticed := noticed

theorem of_put {name : Text} {before : Option SubscriptionEntry}
    (found : broker.subscriptions[name]? = before)
    (change : Change externals now broker name operation before (some entry) [])
    (subscriptions : after.subscriptions = broker.subscriptions.insert name entry)
    (topics : after.topics = broker.topics) (counter : after.nextMessageId = broker.nextMessageId)
    (flights : after.inFlight = broker.inFlight) (noticed : Noticed operation broker after) :
    Turn externals now broker operation after after where
  changed other := by
    refine ⟨[], ?_, by simp⟩
    rw [subscriptions, getElem?_insert_eq]
    split_ifs with same
    · rw [← same, found]
      exact change
    · exact .kept _ _
  counter := counter
  logs other topic found := .inr ⟨topic, topics ▸ found, rfl⟩
  topics other present _ := topics ▸ present
  delivered := .refl _ _
  flights _ := by rw [flights]; exact List.Subset.refl _
  noticed := noticed

theorem of_topics (subscriptions : after.subscriptions = broker.subscriptions)
    (counter : after.nextMessageId = broker.nextMessageId)
    (logs : ∀ (name : Text) (topic : TopicEntry), after.topics[name]? = some topic →
      topic.messages = [] ∨ ∃ earlier, broker.topics[name]? = some earlier ∧
        topic.messages = earlier.messages)
    (topics : ∀ name, name ∈ broker.topics → operation ≠ .deleteTopic name → name ∈ after.topics)
    (flights : after.inFlight ⊆ broker.inFlight) (version : broker.version ≤ after.version) :
    Turn externals now broker operation after after where
  changed other := ⟨[], subscriptions ▸ .kept _ _, by simp⟩
  counter := counter
  logs := logs
  topics := topics
  delivered := .refl _ _
  flights _ := flights
  noticed := .same version subscriptions

theorem of_same (subscriptions : after.subscriptions = broker.subscriptions)
    (topics : after.topics = broker.topics) (counter : after.nextMessageId = broker.nextMessageId)
    (flights : after.inFlight ⊆ broker.inFlight) (version : broker.version ≤ after.version) :
    Turn externals now broker operation after after :=
  of_topics subscriptions counter (fun _ topic found => .inr ⟨topic, topics ▸ found, rfl⟩)
    (fun _ present _ => topics ▸ present) flights version

end Turn

namespace Broker

variable {externals : Externals} {now : Moment} {broker after : Broker}

/-! ## Operations -/

variable {name : Text} {entry : SubscriptionEntry} {inFlight : List (Text × Nat)}

theorem subscription_ok
    (ok : broker.subscription name = .ok entry) : broker.subscriptions[name]? = some entry := by
  unfold subscription at ok
  split at ok
  · next found => exact Except.ok.inj ok ▸ found
  · cases ok

/-- The operation, whether it fails or not, is a turn of the broker. -/
abbrev Turns (externals : Externals) (now : Moment) (broker : Broker) (operation : Operation) :
    Prop :=
  ∃ middle, Turn externals now broker operation middle (broker.perform externals now operation)

theorem map_eq_ok {ε α β : Type} {answer : Except ε α} {change : α → β} {result : β} :
    answer.map change = .ok result ↔ ∃ value, answer = .ok value ∧ change value = result := by
  cases answer <;> simp [Except.map]

theorem turn_settle {operation : Operation} {answer : Answer Broker}
    (ok : ∀ result, answer = .ok result →
      ∃ middle, Turn externals now broker operation middle result) :
    ∃ middle, Turn externals now broker operation middle (broker.settle answer) := by
  cases answer with
  | error failure => exact ⟨broker, .of_delivered (.refl _ _) (refl _) (.same le_rfl rfl)⟩
  | ok result => exact ok result rfl

theorem turn_createTopic {request : Topic} : Turns externals now broker (.createTopic request) := by
  refine turn_settle fun after ok => ⟨after, ?_⟩
  unfold createTopic at ok
  simp only [bind_eq_ok, guard_eq_ok] at ok
  obtain ⟨_, -, fresh, _, -, schema, -, ok⟩ := ok
  cases ok
  refine .of_topics rfl rfl ?_ ?_ (refl _) le_rfl
  · intro name topic found
    rw [getElem?_insert_eq] at found
    split_ifs at found with same
    · cases found
      exact .inl rfl
    · exact .inr ⟨topic, found, rfl⟩
  · intro name present _
    exact Std.ExtTreeMap.mem_insert.mpr (.inr present)

theorem turn_updateTopic {requested : Option Topic} {paths : List Text} :
    Turns externals now broker (.updateTopic requested paths) := by
  refine turn_settle fun after ok => ⟨after, ?_⟩
  unfold updateTopic at ok
  simp only [bind_eq_ok, guard_eq_ok] at ok
  obtain ⟨-, parsed, -, _, -, ok⟩ := ok
  split at ok
  · cases ok
  · next entry stored =>
    simp only [bind_eq_ok] at ok
    obtain ⟨bound, -, ok⟩ := ok
    cases ok
    refine .of_topics rfl rfl ?_ ?_ (refl _) le_rfl
    · intro name topic found
      rw [getElem?_insert_eq] at found
      by_cases same : (requested.getD {}).name = name
      · rw [if_pos same] at found
        cases found
        exact .inr ⟨entry, same ▸ stored, rfl⟩
      · rw [if_neg same] at found
        exact .inr ⟨topic, found, rfl⟩
    · intro name present _
      exact Std.ExtTreeMap.mem_insert.mpr (.inr present)

theorem turn_deleteTopic : Turns externals now broker (.deleteTopic name) := by
  refine turn_settle fun after ok => ⟨after, ?_⟩
  unfold deleteTopic at ok
  simp only [bind_eq_ok] at ok
  obtain ⟨_, -, ok⟩ := ok
  split at ok
  · cases ok
  · next target _ =>
    cases ok
    refine ⟨?_, rfl, ?_, ?_, .refl _ _, fun _ => refl _, .unseen rfl ?_⟩
    · intro other
      refine ⟨[], ?_, by simp⟩
      rw [Std.ExtTreeMap.getElem?_map]
      cases broker.subscriptions[other]? with
      | none => exact .kept _ _
      | some entry => exact .orphaned name target.generation entry
    · intro other topic found
      rw [getElem?_erase] at found
      split_ifs at found
      exact .inr ⟨topic, found, rfl⟩
    · intro other present differs
      rw [mem_iff_isSome_getElem?] at present ⊢
      rw [getElem?_erase, if_neg (by rintro rfl; exact differs rfl)]
      exact present
    · intro other entry found
      rw [Std.ExtTreeMap.getElem?_map] at found
      obtain ⟨earlier, stored, rfl⟩ := map_eq_some_iff.mp found
      exact ⟨earlier, stored, by rw [loseTopic_deliverable]; exact refl _⟩

theorem stamp_ids {firstId : Nat} {messages : List PubsubMessage} {message : StoredMessage}
    (member : message ∈ stamp now firstId messages) :
    firstId ≤ message.id ∧ message.id < firstId + (stamp now firstId messages).length := by
  unfold stamp at member ⊢
  obtain ⟨index, bound, rfl⟩ := mem_mapIdx.mp member
  rw [length_mapIdx]
  exact ⟨Nat.le_add_right .., Nat.add_lt_add_left bound _⟩

theorem stamp_distinct (now : Moment) (firstId : Nat) (messages : List PubsubMessage) :
    (stamp now firstId messages).Pairwise fun first second => first.id ≠ second.id := by
  unfold stamp
  rw [pairwise_iff_getElem]
  simp only [getElem_mapIdx]
  omega

theorem turn_publish {topic : Text} {messages : List PubsubMessage} :
    Turns externals now broker (.publish topic messages) := by
  refine turn_settle fun after ok => ⟨broker, ?_⟩
  obtain ⟨pair, result, rfl⟩ := map_eq_ok.mp ok
  unfold publish at result
  simp only [bind_eq_ok] at result
  obtain ⟨_, -, result⟩ := result
  split at result
  · cases result
  · simp only [bind_eq_ok, guard_eq_ok] at result
    obtain ⟨-, -, prepared, -, result⟩ := result
    cases result
    refine .of_delivered (Delivered.notify ?_) ?_ (.bump ?_)
    · exact delivered_deliver now topic broker (Nat.le_add_right ..)
        (fun _ member => stamp_ids member) (stamp_distinct ..)
    · rw [notify, (deliver_rest ..).1]
      exact refl _
    · rw [notify, (deliver_rest ..).2]

theorem validatedDeadLetterPolicy_ok {asked policy : DeadLetterPolicy}
    (ok : broker.validatedDeadLetterPolicy asked = .ok policy) :
    policy.deadLetterTopic ∈ broker.topics := by
  unfold validatedDeadLetterPolicy at ok
  simp only [guard_eq_ok] at ok
  obtain ⟨exists_, -, -, ok⟩ := ok
  cases ok
  rw [Bool.or_eq_true, not_or] at exists_
  simpa using exists_.2

theorem validatedSubscription_ok {request settings : Subscription}
    (ok : broker.validatedSubscription externals request = .ok settings) :
    settings.name = request.name ∧
      settings.enableMessageOrdering = request.enableMessageOrdering ∧
      ∀ policy, settings.deadLetterPolicy = some policy →
        policy.deadLetterTopic ∈ broker.topics := by
  unfold validatedSubscription at ok
  simp only [bind_eq_ok, guard_eq_ok] at ok
  obtain ⟨-, _, -, deadLetterPolicy, validPolicy, _, -, _, -, ok⟩ := ok
  cases ok
  refine ⟨rfl, rfl, ?_⟩
  rintro policy rfl
  cases stated : request.deadLetterPolicy with
  | none =>
    rw [stated] at validPolicy
    cases validPolicy
  | some asked =>
    rw [stated, Option.mapM_some] at validPolicy
    cases checked : broker.validatedDeadLetterPolicy asked with
    | error failure =>
      rw [checked] at validPolicy
      cases validPolicy
    | ok valid =>
      rw [checked] at validPolicy
      cases validPolicy
      exact validatedDeadLetterPolicy_ok checked

theorem turn_createSubscription {request : Subscription} :
    Turns externals now broker (.createSubscription request) := by
  refine turn_settle fun after ok => ⟨after, ?_⟩
  unfold createSubscription at ok
  simp only [bind_eq_ok] at ok
  obtain ⟨_, -, _, -, ok⟩ := ok
  split at ok
  · cases ok
  · next topic stored =>
    simp only [bind_eq_ok, guard_eq_ok] at ok
    obtain ⟨fresh, settings, valid, ok⟩ := ok
    have named := (validatedSubscription_ok valid).1
    rw [mem_iff_isSome_getElem?, Option.not_isSome_iff_eq_none, ← named] at fresh
    split_ifs at ok
    · cases ok
      exact .of_put fresh (.founded none named.symm stored valid) rfl rfl rfl rfl (.bump rfl)
    · simp only [bind_eq_ok] at ok
      obtain ⟨filter, -, ok⟩ := ok
      cases ok
      exact .of_put fresh (.founded filter named.symm stored valid) rfl rfl rfl rfl (.bump rfl)

theorem turn_updateSubscription {update : Option Subscription} {paths : List Text} :
    Turns externals now broker (.updateSubscription update paths) := by
  refine turn_settle fun after ok => ⟨after, ?_⟩
  unfold updateSubscription at ok
  simp only [bind_eq_ok, guard_eq_ok] at ok
  obtain ⟨-, parsed, -, _, -, ok⟩ := ok
  split at ok
  · cases ok
  · next entry stored =>
    simp only [bind_eq_ok] at ok
    obtain ⟨settings, valid, ok⟩ := ok
    cases ok
    exact .of_put stored (.updated entry rfl valid) rfl rfl rfl rfl (.bump rfl)

theorem turn_deleteSubscription : Turns externals now broker (.deleteSubscription name) := by
  refine turn_settle fun after ok => ⟨after, ?_⟩
  unfold deleteSubscription at ok
  simp only [bind_eq_ok] at ok
  obtain ⟨_, -, entry, found, ok⟩ := ok
  cases ok
  refine ⟨?_, rfl, fun _ topic found => .inr ⟨topic, found, rfl⟩, fun _ present _ => present,
    .refl _ _, fun _ => refl _, .bump rfl⟩
  intro other
  refine ⟨[], ?_, by simp⟩
  simp only [notify, getElem?_erase]
  split_ifs with same
  · rw [← same, subscription_ok found]
    exact .deleted entry
  · exact .kept _ _

theorem turn_modifyPushConfig {config : Option PushConfig} :
    Turns externals now broker (.modifyPushConfig name config) := by
  refine turn_settle fun after ok => ⟨after, ?_⟩
  unfold modifyPushConfig at ok
  simp only [bind_eq_ok] at ok
  obtain ⟨_, -, entry, found, _, -, ok⟩ := ok
  cases ok
  exact .of_put (subscription_ok found) (.repushed config entry) rfl rfl rfl rfl (.bump rfl)

theorem pull_ok {maxMessages : Int} {leases : List Lease}
    (ok : pull now name maxMessages broker = .ok (after, leases)) :
    ∃ entry, broker.subscriptions[name]? = some entry ∧
      leases = (entry.take maxMessages broker.nextAck now).2 ∧
      after.subscriptions = broker.subscriptions.insert name
        (entry.take maxMessages broker.nextAck now).1 ∧
      after.topics = broker.topics ∧ after.nextMessageId = broker.nextMessageId ∧
      after.inFlight = broker.inFlight ∧
      after.version = broker.version + if leases.isEmpty then 0 else 1 := by
  unfold pull at ok
  simp only [bind_eq_ok, guard_eq_ok] at ok
  obtain ⟨_, -, entry, found, -, ok⟩ := ok
  cases ok
  refine ⟨entry, subscription_ok found, rfl, ?_, ?_, ?_, ?_, ?_⟩ <;> split_ifs <;> rfl

theorem turn_pull {maxMessages : Int} : Turns externals now broker (.pull name maxMessages) := by
  refine turn_settle fun after ok => ⟨after, ?_⟩
  obtain ⟨⟨pulled, given⟩, result, rfl⟩ := map_eq_ok.mp ok
  obtain ⟨entry, found, rfl, subscriptions, topics, counter, flights, version⟩ := pull_ok result
  refine .of_put found (.pulled entry result) subscriptions topics counter flights ?_
  split_ifs at version with nothing
  · rw [take_eq_self (isEmpty_iff.mp nothing)] at subscriptions
    exact .put found subscriptions version (refl _)
  · exact .bump version

theorem turn_acknowledge {ackIds : List Text} :
    Turns externals now broker (.acknowledge name ackIds) := by
  refine turn_settle fun after ok => ⟨after, ?_⟩
  obtain ⟨pair, result, rfl⟩ := map_eq_ok.mp ok
  unfold acknowledge at result
  simp only [bind_eq_ok, guard_eq_ok] at result
  obtain ⟨_, -, entry, found, -, acks, parsed, result⟩ := result
  replace found := subscription_ok found
  split_ifs at result with stale <;> cases result
  · refine .of_put found (.acknowledged entry parsed) rfl rfl rfl rfl ?_
    rw [Bool.and_eq_true, (sameButBacklog_acknowledgeAll acks entry).subscription] at stale
    by_cases all : ∀ ack ∈ acks, entry.findLease ack = none
    · refine .put found rfl rfl ?_
      rw [acknowledgeAll_of_stale all]
      exact List.Subset.refl _
    · exact .stale rfl ⟨entry, acks, found, stale.1, parsed, by simpa using all,
        stale_acknowledgeAll stale.2⟩
  · exact .of_put found (.acknowledged entry parsed) rfl rfl rfl rfl (.bump rfl)

theorem turn_modifyAckDeadline {ackIds : List Text} {seconds : Int} :
    Turns externals now broker (.modifyAckDeadline name ackIds seconds) := by
  refine turn_settle fun after ok => ?_
  unfold modifyAckDeadline at ok
  simp only [bind_eq_ok, guard_eq_ok] at ok
  obtain ⟨_, -, entry, found, -, -, acks, parsed, ok⟩ := ok
  cases ok
  refine ⟨_, ?_, ?_, ?_, ?_, (delivered_forwardDeadLetters externals now _ _).notify, ?_,
    .bump (congrArg (· + 1) (forwardDeadLetters_rest externals now _ _).2)⟩
  · intro other
    by_cases same : name = other
    · subst same
      refine ⟨_, ?_, fun one member => copied_forwardDeadLetters externals now member _⟩
      simp only [put, getElem?_insert_eq, subscription_ok found]
      exact .modified seconds entry parsed
    · refine ⟨[], ?_, by simp⟩
      simp only [put, getElem?_insert_eq, if_neg same]
      exact .kept _ _
  · rfl
  · exact fun _ topic found => .inr ⟨topic, found, rfl⟩
  · exact fun _ present _ => present
  · intro _
    rw [notify, (forwardDeadLetters_rest ..).1]
    exact List.Subset.refl _

theorem dueJobs_subscription
    {job : PushJob} (member : job ∈ dueJobs now inFlight name entry) : job.subscription = name := by
  unfold dueJobs at member
  split_ifs at member
  · obtain ⟨pair, -, rfl⟩ := mem_map.mp member
    rfl
  · cases member

theorem dueJobs_filter_of_ne {other : Text} (differs : name ≠ other) :
    (dueJobs now inFlight name entry).filter (fun job => job.subscription = other) = [] := by
  rw [filter_eq_nil_iff]
  intro job member
  simp [dueJobs_subscription member, differs]

theorem dueJobs_filter_self
    : (dueJobs now inFlight name entry).filter (fun job => job.subscription = name) =
      dueJobs now inFlight name entry := by
  rw [filter_eq_self]
  intro job member
  simp [dueJobs_subscription member]

theorem tickFrom_rest (now : Moment) (entries : List (Text × SubscriptionEntry)) (broker : Broker) :
    (tickFrom now entries broker).1.topics = broker.topics ∧
      (tickFrom now entries broker).1.nextMessageId = broker.nextMessageId ∧
      (tickFrom now entries broker).1.inFlight = broker.inFlight ∧
      (tickFrom now entries broker).1.version = broker.version ∧
      ∀ name : Text, (∀ entry, (name, entry) ∉ entries) →
        (tickFrom now entries broker).1.subscriptions[name]? = broker.subscriptions[name]? ∧
        (tickFrom now entries broker).2.2.filter (fun job => job.subscription = name) = [] := by
  induction entries generalizing broker with
  | nil => exact ⟨rfl, rfl, rfl, rfl, fun _ _ => ⟨rfl, rfl⟩⟩
  | cons first entries ih =>
    obtain ⟨name, entry⟩ := first
    rw [tickFrom]
    obtain ⟨topics, counter, flights, version, rest⟩ := ih { broker.put name (entry.expire now broker.sequence).1 with
      sequence := (entry.expire now broker.sequence).2.1 }
    refine ⟨topics, counter, flights, version, ?_⟩
    intro other absent
    obtain ⟨same, none_⟩ := rest other fun entry member =>
      absent entry (mem_cons_of_mem _ member)
    have differs : name ≠ other := by
      rintro rfl
      exact absent entry (mem_cons_self ..)
    refine ⟨?_, ?_⟩
    · refine same.trans ?_
      simp only [put, getElem?_insert_eq, if_neg differs]
    · simp only [filter_append, none_, append_nil]
      exact dueJobs_filter_of_ne differs

variable {entries : List (Text × SubscriptionEntry)}

theorem tickFrom_entry (now : Moment) (distinct : (entries.map Prod.fst).Nodup)
    (member : (name, entry) ∈ entries) (broker : Broker) (inFlight : List (Text × Nat))
    (flying : broker.inFlight = inFlight) :
    ∃ sequence, (tickFrom now entries broker).1.subscriptions[name]? =
        some (entry.expire now sequence).1 ∧
      (entry.expire now sequence).2.2 ⊆ (tickFrom now entries broker).2.1 ∧
      (tickFrom now entries broker).2.2.filter (fun job => job.subscription = name) =
        dueJobs now inFlight name (entry.expire now sequence).1 := by
  induction entries generalizing broker with
  | nil => cases member
  | cons first entries ih =>
    obtain ⟨other, otherEntry⟩ := first
    rw [map_cons, nodup_cons] at distinct
    rw [tickFrom]
    rcases mem_cons.mp member with same | member
    · cases same
      obtain ⟨-, -, -, -, rest⟩ := tickFrom_rest now entries
        { broker.put name (entry.expire now broker.sequence).1 with
          sequence := (entry.expire now broker.sequence).2.1 }
      obtain ⟨same, none_⟩ := rest name fun later member =>
        distinct.1 (mem_map.mpr ⟨_, member, rfl⟩)
      refine ⟨broker.sequence, ?_, subset_append_left .., ?_⟩
      · refine same.trans ?_
        simp only [put, getElem?_insert_eq, if_true]
      · simp only [filter_append, none_, append_nil, dueJobs_filter_self, flying]
    · obtain ⟨sequence, stored, forwards, jobs⟩ := ih distinct.2 member
        { broker.put other (otherEntry.expire now broker.sequence).1 with
          sequence := (otherEntry.expire now broker.sequence).2.1 } flying
      have differs : other ≠ name := by
        rintro rfl
        exact distinct.1 (mem_map.mpr ⟨_, member, rfl⟩)
      refine ⟨sequence, stored, fun one member => mem_append_right _ (forwards member), ?_⟩
      simp only [filter_append, dueJobs_filter_of_ne differs]
      exact jobs

theorem not_mem_toList (broker : Broker) (missing : broker.subscriptions[name]? = none)
    (entry : SubscriptionEntry) : (name, entry) ∉ broker.subscriptions.toList := by
  rw [mem_toList_iff_getElem?_eq_some, missing]
  exact nofun

theorem tickFrom_forwarded
    (lasting : ∀ pair ∈ entries, pair.2.expiredLeases now = []) (broker : Broker) :
    (tickFrom now entries broker).2.1 = [] := by
  induction entries generalizing broker with
  | nil => rfl
  | cons first entries ih =>
    rw [forall_mem_cons] at lasting
    simp [tickFrom, expire, lasting.1, modifyDeadlines, ih lasting.2]

theorem turn_tick : Turns externals now broker .tick := by
  let ticked := tickFrom now broker.subscriptions.toList broker
  obtain ⟨topics, counter, -, kept, rest⟩ := tickFrom_rest now broker.subscriptions.toList broker
  have delivered : Delivered now ticked.1 (broker.tick externals now).1 := by
    have forwarding := delivered_forwardDeadLetters externals now ticked.2.1 ticked.1
    unfold tick
    dsimp only
    split_ifs <;> exact ⟨forwarding.counter, forwarding.entries, forwarding.logs, forwarding.tracked⟩
  have copied : ∀ one ∈ ticked.2.1,
      Copied externals now ticked.1 (broker.tick externals now).1 one := by
    intro one member
    have copy := copied_forwardDeadLetters externals now member ticked.1
    unfold tick
    dsimp only
    split_ifs <;> exact copy
  have version := (forwardDeadLetters_rest externals now ticked.2.1 _).2.trans kept
  have noticed : Noticed .tick broker (broker.tick externals now).1 := by
    unfold tick
    dsimp only
    split_ifs with changed
    · exact .bump (congrArg (· + 1) version)
    · rw [Bool.not_eq_true, any_eq_false] at changed
      have lasting : ∀ pair ∈ broker.subscriptions.toList, pair.2.expiredLeases now = [] :=
        fun pair member => by simpa using changed pair member
      refine .unseen version fun name entry found => ?_
      rw [tickFrom_forwarded lasting] at found
      cases stored : broker.subscriptions[name]? with
      | none =>
        obtain ⟨same, -⟩ := rest name (broker.not_mem_toList stored)
        cases (same.trans stored).symm.trans found
      | some earlier =>
        have member := mem_toList_iff_getElem?_eq_some.mpr stored
        obtain ⟨sequence, result, -⟩ := tickFrom_entry now (nodup_keys _) member broker _ rfl
        rw [expire, lasting _ member] at result
        cases result.symm.trans found
        exact ⟨earlier, rfl, refl _⟩
  refine ⟨_, ?_, counter, ?_, ?_, delivered, fun timer => absurd rfl timer, noticed⟩
  · intro name
    cases stored : broker.subscriptions[name]? with
    | none =>
      refine ⟨[], ?_, by simp⟩
      obtain ⟨same, -⟩ := rest name (broker.not_mem_toList stored)
      rw [same, stored]
      exact .kept _ _
    | some entry =>
      obtain ⟨sequence, result, forwards, -⟩ := tickFrom_entry now (nodup_keys _)
        (mem_toList_iff_getElem?_eq_some.mpr stored) broker _ rfl
      refine ⟨_, ?_, fun one member => copied one (forwards member)⟩
      rw [result]
      exact .expired sequence entry
  · exact fun name topic found => .inr ⟨topic, topics ▸ found, rfl⟩
  · exact fun name present _ => topics ▸ present

theorem turn_recordPush {job : PushJob} {delivered : Bool} :
    Turns externals now broker (.recordPush job delivered) := by
  refine ⟨broker.recordPush now job delivered, ?_⟩
  simp only [perform, recordPush]
  cases stored : broker.subscriptions[job.subscription]? with
  | none => exact .of_same rfl rfl rfl (refl _) (Nat.le_succ _)
  | some entry =>
    exact .of_put stored (.pushed job delivered entry rfl) rfl rfl rfl rfl (.bump rfl)

theorem turn_seekToTime {time : ProtoTime} :
    Turns externals now broker (.seekToTime name time) := by
  refine turn_settle fun after ok => ⟨after, ?_⟩
  unfold seekToTime at ok
  simp only [bind_eq_ok] at ok
  obtain ⟨_, -, entry, found, ok⟩ := ok
  cases ok
  exact .of_put (subscription_ok found) (.soughtTime time entry) rfl rfl rfl rfl (.bump rfl)

theorem turn_seekToSnapshot {snapshot : Text} :
    Turns externals now broker (.seekToSnapshot name snapshot) := by
  refine turn_settle fun after ok => ⟨after, ?_⟩
  unfold seekToSnapshot at ok
  simp only [bind_eq_ok] at ok
  obtain ⟨_, -, entry, found, _, -, ok⟩ := ok
  split at ok
  · cases ok
  · next stored =>
    simp only [guard_eq_ok] at ok
    obtain ⟨-, ok⟩ := ok
    cases ok
    exact .of_put (subscription_ok found) (.soughtSnapshot entry stored) rfl rfl rfl rfl (.bump rfl)

theorem turn_createSnapshot {subscription : Text} :
    Turns externals now broker (.createSnapshot name subscription) := by
  refine turn_settle fun after ok => ⟨after, ?_⟩
  unfold createSnapshot at ok
  simp only [bind_eq_ok, guard_eq_ok] at ok
  obtain ⟨_, -, _, -, -, ok⟩ := ok
  cases ok
  exact .of_same rfl rfl rfl (refl _) le_rfl

theorem turn_deleteSnapshot : Turns externals now broker (.deleteSnapshot name) := by
  refine turn_settle fun after ok => ⟨after, ?_⟩
  unfold deleteSnapshot at ok
  simp only [bind_eq_ok, guard_eq_ok] at ok
  obtain ⟨_, -, -, ok⟩ := ok
  cases ok
  exact .of_same rfl rfl rfl (refl _) le_rfl

theorem turn_drain : Turns externals now broker (.drain name) := by
  refine ⟨broker.drain name, ?_⟩
  simp only [perform, drain]
  cases stored : broker.subscriptions[name]? with
  | none => exact .of_same rfl rfl rfl (refl _) le_rfl
  | some entry =>
    exact .of_put stored (.drained entry) rfl rfl rfl rfl
      (.put stored rfl rfl fun id member => by simp [deliverable, mem_candidates] at member)

/-! ## Schemas -/

theorem turn_createSchema {parent schemaId definition : Text} :
    Turns externals now broker (.createSchema parent schemaId definition) := by
  refine turn_settle fun after ok => ⟨after, ?_⟩
  unfold createSchema at ok
  simp only [bind_eq_ok, guard_eq_ok] at ok
  obtain ⟨_, -, _, -, -, ok⟩ := ok
  cases ok
  exact .of_same rfl rfl rfl (refl _) le_rfl

theorem turn_commitSchema {definition : Text} :
    Turns externals now broker (.commitSchema name definition) := by
  refine turn_settle fun after ok => ⟨after, ?_⟩
  unfold commitSchema at ok
  simp only [bind_eq_ok] at ok
  obtain ⟨_, -, _, -, _, -, ok⟩ := ok
  cases ok
  exact .of_same rfl rfl rfl (refl _) le_rfl

theorem turn_rollbackSchema {revisionId : Text} :
    Turns externals now broker (.rollbackSchema name revisionId) := by
  refine turn_settle fun after ok => ⟨after, ?_⟩
  unfold rollbackSchema at ok
  simp only [bind_eq_ok] at ok
  obtain ⟨_, -, _, -, ok⟩ := ok
  split at ok
  · cases ok
  · cases ok
    exact .of_same rfl rfl rfl (refl _) le_rfl

theorem turn_deleteSchemaRevision : Turns externals now broker (.deleteSchemaRevision name) := by
  refine turn_settle fun after ok => ⟨after, ?_⟩
  unfold deleteSchemaRevision at ok
  simp only [bind_eq_ok] at ok
  obtain ⟨_, -, _, -, ok⟩ := ok
  split at ok
  · cases ok
  · simp only [guard_eq_ok] at ok
    obtain ⟨-, ok⟩ := ok
    cases ok
    exact .of_same rfl rfl rfl (refl _) le_rfl

theorem loseSchema_messages (schema : Text) (topic : TopicEntry) :
    (topic.loseSchema schema).messages = topic.messages := by
  unfold TopicEntry.loseSchema
  split
  · split_ifs <;> rfl
  · rfl

theorem turn_deleteSchema : Turns externals now broker (.deleteSchema name) := by
  refine turn_settle fun after ok => ⟨after, ?_⟩
  unfold deleteSchema at ok
  simp only [bind_eq_ok] at ok
  obtain ⟨_, -, _, -, ok⟩ := ok
  cases ok
  refine .of_topics rfl rfl ?_ ?_ (refl _) le_rfl
  · intro other topic found
    rw [Std.ExtTreeMap.getElem?_map] at found
    obtain ⟨earlier, stored, rfl⟩ := map_eq_some_iff.mp found
    exact .inr ⟨earlier, stored, loseSchema_messages ..⟩
  · intro other present _
    exact Std.ExtTreeMap.mem_map.mpr present

theorem perform_turn (externals : Externals) (now : Moment) (broker : Broker)
    (operation : Operation) :
    ∃ middle, Turn externals now broker operation middle
      (broker.perform externals now operation) := by
  cases operation with
  | createTopic => exact turn_createTopic
  | updateTopic => exact turn_updateTopic
  | deleteTopic => exact turn_deleteTopic
  | publish => exact turn_publish
  | createSubscription => exact turn_createSubscription
  | updateSubscription => exact turn_updateSubscription
  | deleteSubscription => exact turn_deleteSubscription
  | modifyPushConfig => exact turn_modifyPushConfig
  | pull => exact turn_pull
  | acknowledge => exact turn_acknowledge
  | modifyAckDeadline => exact turn_modifyAckDeadline
  | tick => exact turn_tick
  | releasePush => exact ⟨_, .of_same rfl rfl rfl (filter_subset_self _) le_rfl⟩
  | recordPush => exact turn_recordPush
  | seekToTime => exact turn_seekToTime
  | seekToSnapshot => exact turn_seekToSnapshot
  | createSnapshot => exact turn_createSnapshot
  | deleteSnapshot => exact turn_deleteSnapshot
  | drain => exact turn_drain
  | createSchema => exact turn_createSchema
  | commitSchema => exact turn_commitSchema
  | rollbackSchema => exact turn_rollbackSchema
  | deleteSchemaRevision => exact turn_deleteSchemaRevision
  | deleteSchema => exact turn_deleteSchema

end Broker

/-! ## Settings -/

namespace SubscriptionEntry

theorem founded_subscription (now : Moment) (settings : Subscription) (topic : TopicEntry)
    (filter : Option Filter) : (founded now settings topic filter).subscription = settings := by
  unfold founded
  dsimp only
  have same := sameButBacklog_trackAll now (retained now topic)
    ⟨settings, topic.generation, settings.topic, false, filter, ∅⟩
  split_ifs <;> exact same.subscription

theorem founded_isPush (now : Moment) (settings : Subscription) (topic : TopicEntry)
    (filter : Option Filter) : (founded now settings topic filter).isPush = settings.isPush := by
  rw [isPush, founded_subscription]

theorem getElem?_founded {now : Moment} {settings : Subscription}
    {filter : Option Filter} {id : Nat} {tracked : Tracked}
    (found : (founded now settings topic filter).messages[id]? = some tracked) :
    ∃ message ∈ topic.messages, message.id = id ∧
      tracked = (founded now settings topic filter).arrival now message := by
  have mode := founded_isPush now settings topic filter
  unfold founded at found
  dsimp only at found
  let blank : SubscriptionEntry :=
    ⟨settings, topic.generation, settings.topic, false, filter, ∅⟩
  have same := sameButBacklog_trackAll now (retained now topic) blank
  have arrived : ∀ {stored : Tracked},
      ((retained now topic).foldl (track now) blank).messages[id]? = some stored →
      ∃ message ∈ topic.messages, message.id = id ∧
        stored = (founded now settings topic filter).arrival now message := by
    intro stored present
    rcases getElem?_trackAll now (retained now topic) blank id with
      kept | ⟨message, member, numbered, -, result⟩
    · rw [kept] at present
      simp [blank] at present
    · refine ⟨message, ?_, numbered, ?_⟩
      · unfold retained at member
        split at member
        · cases member
        · exact (mem_filter.mp member).1
      · rw [result, Option.some.injEq] at present
        rw [← present, arrival, arrival, waiting, waiting, mode]
        rfl
  split_ifs at found with push
  · rw [startPushing, getElem?_mapMessages] at found
    obtain ⟨stored, present, rfl⟩ := map_eq_some_iff.mp found
    obtain ⟨message, member, numbered, rfl⟩ := arrived present
    refine ⟨message, member, numbered, if_neg ?_⟩
    rw [same.isPush] at push
    rw [arrival, waiting, mode, if_pos (show settings.isPush = true from push)]
    exact MessageState.noConfusion
  · exact arrived found

end SubscriptionEntry

namespace Broker

theorem applyPaths_name (update : Subscription) (paths : List SubscriptionPath)
    (current : Subscription) :
    (paths.foldl (applyPath update) current).name = current.name ∧
      (paths.foldl (applyPath update) current).enableMessageOrdering =
        current.enableMessageOrdering := by
  induction paths generalizing current with
  | nil => exact ⟨rfl, rfl⟩
  | cons path paths ih =>
    obtain ⟨name, ordering⟩ := ih (applyPath update current path)
    rw [foldl_cons, name, ordering]
    cases path <;> exact ⟨rfl, rfl⟩

end Broker

namespace Change

variable {externals : Externals} {now : Moment} {broker : Broker} {name : Text}
  {operation : Operation} {before : Option SubscriptionEntry} {entry : SubscriptionEntry}
  {forwarded : List Forwarded}

open SubscriptionEntry

theorem settings (change : Change externals now broker name operation before (some entry) forwarded)
    (named : ∀ earlier, before = some earlier → earlier.subscription.name = name) :
    entry.subscription.name = name ∧
      ∀ policy, entry.subscription.deadLetterPolicy = some policy →
        policy.deadLetterTopic ∈ broker.topics ∧ (∀ topic, operation ≠ .deleteTopic topic) ∨
        ∃ earlier, before = some earlier ∧ earlier.subscription.deadLetterPolicy = some policy := by
  have unchanged : ∀ {earlier : SubscriptionEntry}, before = some earlier →
      earlier.SameButBacklog entry →
      entry.subscription.name = name ∧
      ∀ policy, entry.subscription.deadLetterPolicy = some policy →
        policy.deadLetterTopic ∈ broker.topics ∧ (∀ topic, operation ≠ .deleteTopic topic) ∨
        ∃ earlier, before = some earlier ∧ earlier.subscription.deadLetterPolicy = some policy := by
    intro earlier found same
    rw [same.subscription]
    exact ⟨named earlier found, fun policy stated => .inr ⟨earlier, found, stated⟩⟩
  cases change with
  | kept => exact unchanged rfl (.refl _)
  | founded filter asked found valid =>
    obtain ⟨sameName, -, exists_⟩ := validatedSubscription_ok valid
    rw [founded_subscription]
    exact ⟨sameName.trans asked, fun policy stated => .inl ⟨exists_ policy stated, nofun⟩⟩
  | updated earlier asked valid =>
    obtain ⟨sameName, -, exists_⟩ := validatedSubscription_ok valid
    rw [configure_eq]
    refine ⟨?_, fun policy stated => .inl ⟨exists_ policy stated, nofun⟩⟩
    rw [sameName, (applyPaths_name ..).1]
    exact named earlier rfl
  | repushed config earlier =>
    rw [configure_eq]
    exact ⟨named earlier rfl, fun policy stated => .inr ⟨earlier, rfl, stated⟩⟩
  | pulled earlier => exact unchanged rfl (sameButBacklog_take ..)
  | acknowledged earlier => exact unchanged rfl (sameButBacklog_acknowledgeAll ..)
  | modified seconds earlier | expired sequence earlier =>
    exact unchanged rfl (sameButBacklog_modifyDeadlines ..)
  | pushed job delivered earlier => exact unchanged rfl (sameButBacklog_pushed ..)
  | soughtTime time earlier | soughtSnapshot earlier => exact unchanged rfl (sameButBacklog_seek ..)
  | drained earlier => exact unchanged rfl (sameButBacklog_messages ..)
  | orphaned topic generation earlier =>
    rw [loseTopic_subscription]
    exact ⟨named earlier rfl, fun policy stated => .inr ⟨earlier, rfl, stated⟩⟩

end Change

/-! ## Moves of one message -/

/-- What the change of a subscription does to a message in its backlog. -/
inductive Move (now : Moment) (broker : Broker) (name : Text) (operation : Operation)
    (entry changed : SubscriptionEntry) (forwarded : List Forwarded) (id : Nat)
    (tracked : Tracked) : Option Tracked → Prop
  | kept (mode : changed.isPush = entry.isPush) :
      Move now broker name operation entry changed forwarded id tracked (some tracked)
  | leased {maxMessages : Int} {after : Broker} {leases : List Lease} {ack deadline : Nat}
      (asked : operation = .pull name maxMessages) (available : tracked.state = .available)
      (answered : broker.pull now name maxMessages = .ok (after, leases))
      (handed : ⟨tracked.message, ack, tracked.attempts + 1⟩ ∈ leases) :
      Move now broker name operation entry changed forwarded id tracked
        (some (leased tracked ack deadline))
  | acknowledged {ackIds : List Text} {ackId : Text} {ack deadline : Nat}
      (asked : operation = .acknowledge name ackIds) (member : ackId ∈ ackIds)
      (parsed : parseAckId name ackId = .ok ack)
      (state : tracked.state = .leased ack deadline) :
      Move now broker name operation entry changed forwarded id tracked
        (some { tracked with state := .acked })
  | released {sequence ack deadline : Nat} {after : Option Tracked}
      (mode : changed.isPush = entry.isPush) (state : tracked.state = .leased ack deadline)
      (released : Released entry now sequence forwarded tracked ack after) :
      Move now broker name operation entry changed forwarded id tracked after
  | pushed {job : PushJob} {delivered : Bool} (asked : operation = .recordPush job delivered)
      (named : job.subscription = name) (numbered : job.messageId = id)
      (state : tracked.state.isPushing = true) :
      Move now broker name operation entry changed forwarded id tracked
        (some { tracked with
          state := if delivered then .acked else .pushing (now.instant + pushRetry) })
  | switched {settings : Subscription} (mode : changed.isPush = settings.isPush) :
      Move now broker name operation entry changed forwarded id tracked
        (some { tracked with state := entry.movedState now settings tracked.state })
  | sought {state : MessageState} {attempts : Nat}
      (asked : (∃ time, operation = .seekToTime name time) ∨
        ∃ snapshot, operation = .seekToSnapshot name snapshot) :
      Move now broker name operation entry changed forwarded id tracked
        (some { tracked with state, attempts })
  | drained (asked : operation = .drain name) :
      Move now broker name operation entry changed forwarded id tracked none

def Moved (now : Moment) (broker : Broker) (name : Text) (operation : Operation)
    (entry changed : SubscriptionEntry) (forwarded : List Forwarded) (id : Nat) : Prop :=
  entry.messages[id]? = none ∧ changed.messages[id]? = none ∨
    ∃ tracked, entry.messages[id]? = some tracked ∧
      Move now broker name operation entry changed forwarded id tracked changed.messages[id]?

namespace Moved

variable {now : Moment} {broker : Broker} {name : Text} {operation : Operation}
  {entry changed : SubscriptionEntry} {forwarded : List Forwarded} {id : Nat}

theorem mapped {change : Tracked → Tracked}
    (result : changed.messages[id]? = entry.messages[id]?.map change)
    (move : ∀ tracked, Move now broker name operation entry changed forwarded id tracked
      (some (change tracked))) :
    Moved now broker name operation entry changed forwarded id := by
  unfold Moved
  rw [result]
  cases entry.messages[id]? with
  | none => exact .inl ⟨rfl, rfl⟩
  | some tracked => exact .inr ⟨tracked, rfl, move tracked⟩

theorem kept (mode : changed.isPush = entry.isPush)
    (same : changed.messages[id]? = entry.messages[id]?) :
    Moved now broker name operation entry changed forwarded id :=
  mapped (same.trans Option.map_id'.symm) fun _ => .kept mode

end Moved

namespace Change

variable {externals : Externals} {now : Moment} {broker : Broker} {name : Text}
  {operation : Operation} {entry changed : SubscriptionEntry} {forwarded : List Forwarded}

open SubscriptionEntry

theorem sought_tracked (push : Bool) (now : Moment) {change : Tracked → Tracked} (tracked : Tracked)
    (keeps : change tracked =
      { tracked with state := (change tracked).state, attempts := (change tracked).attempts }) :
    ∃ state attempts, (if push && (change tracked).state = .available then
        { change tracked with state := .pushing now.instant } else change tracked) =
      { tracked with state := state, attempts := attempts } := by
  split_ifs
  · rw [keeps]
    exact ⟨_, _, rfl⟩
  · exact ⟨_, _, keeps⟩

theorem seekTimeChange_keeps (retain : Bool) (target : Int) (tracked : Tracked) :
    seekTimeChange retain target tracked =
      { tracked with
        state := (seekTimeChange retain target tracked).state
        attempts := (seekTimeChange retain target tracked).attempts } := by
  unfold seekTimeChange
  split_ifs <;> rfl

theorem seekSnapshotChange_keeps (snapshot : SnapshotEntry) (tracked : Tracked) :
    seekSnapshotChange snapshot tracked =
      { tracked with
        state := (seekSnapshotChange snapshot tracked).state
        attempts := (seekSnapshotChange snapshot tracked).attempts } := by
  unfold seekSnapshotChange
  split_ifs <;> rfl

theorem exists_of_mapM_ok {α β ε : Type} {parse : α → Except ε β} {items : List α} {results : List β}
    (ok : items.mapM parse = .ok results) {result : β} (member : result ∈ results) :
    ∃ item ∈ items, parse item = .ok result := by
  induction items generalizing results with
  | nil =>
    cases ok
    cases member
  | cons first items ih =>
    rw [mapM_cons] at ok
    simp only [bind_eq_ok] at ok
    obtain ⟨head, parsedHead, rest, parsedRest, ok⟩ := ok
    cases ok
    rcases mem_cons.mp member with rfl | member
    · exact ⟨first, mem_cons_self .., parsedHead⟩
    · obtain ⟨item, inItems, parsed⟩ := ih parsedRest member
      exact ⟨item, mem_cons_of_mem _ inItems, parsed⟩

section

variable (change : Change externals now broker name operation (some entry) (some changed) forwarded)
include change

theorem moves (id : Nat) : Moved now broker name operation entry changed forwarded id := by
  cases change with
  | kept => exact .kept rfl rfl
  | updated entry asked valid | repushed config entry =>
    exact .mapped (getElem?_configure ..) fun _ => .switched (configure_isPush ..)
  | @pulled maxMessages _ entry answered =>
    rcases getElem?_take maxMessages broker.nextAck now entry id with
      kept | ⟨old, ack, stored, available, -, handed, result⟩
    · exact .kept (sameButBacklog_take ..).isPush kept
    · exact .inr ⟨old, stored, result ▸ .leased rfl available answered handed⟩
  | acknowledged entry parsed =>
    rcases getElem?_acknowledgeAll _ entry id with
      kept | ⟨old, ack, member, deadline, stored, state, result⟩
    · exact .kept (sameButBacklog_acknowledgeAll ..).isPush kept
    · obtain ⟨ackId, given, parsedId⟩ := exists_of_mapM_ok parsed member
      exact .inr ⟨old, stored, result ▸ .acknowledged rfl given parsedId state⟩
  | modified seconds entry parsed =>
    rcases getElem?_modifyDeadlines findLease seconds now _ broker.sequence entry id with
      kept | ⟨old, ack, deadline, stored, state, released⟩
    · exact .kept (sameButBacklog_modifyDeadlines ..).isPush kept
    · exact .inr ⟨old, stored, .released (sameButBacklog_modifyDeadlines ..).isPush state released⟩
  | expired sequence entry =>
    rcases getElem?_modifyDeadlines (fun _ id => some id) 0 now (entry.expiredLeases now) sequence
        entry id with kept | ⟨old, ack, deadline, stored, state, released⟩
    · exact .kept (sameButBacklog_modifyDeadlines ..).isPush kept
    · exact .inr ⟨old, stored, .released (sameButBacklog_modifyDeadlines ..).isPush state released⟩
  | pushed job delivered entry named =>
    rcases getElem?_pushed now job.messageId delivered entry id with
      kept | ⟨same, old, stored, state, result⟩
    · exact .kept (sameButBacklog_pushed ..).isPush kept
    · exact .inr ⟨old, stored, result ▸ .pushed rfl named same state⟩
  | soughtTime time entry =>
    refine .mapped (getElem?_seek ..) fun tracked => ?_
    obtain ⟨state, attempts, same⟩ := sought_tracked entry.isPush now tracked
      (seekTimeChange_keeps entry.subscription.retainAckedMessages
        (time.seconds.toNat * 1000000000 + time.nanos.toNat) tracked)
    rw [same]
    exact .sought (.inl ⟨time, rfl⟩)
  | soughtSnapshot entry stored =>
    refine .mapped (getElem?_seek ..) fun tracked => ?_
    obtain ⟨state, attempts, same⟩ := sought_tracked entry.isPush now tracked
      (seekSnapshotChange_keeps _ tracked)
    rw [same]
    exact .sought (.inr ⟨_, rfl⟩)
  | drained entry =>
    cases found : entry.messages[id]? with
    | none => exact .inl ⟨found, by simp⟩
    | some tracked => exact .inr ⟨tracked, found, .drained rfl⟩
  | orphaned topic generation entry =>
    exact .kept (loseTopic_isPush ..) (by rw [loseTopic_messages])

theorem move {id : Nat} {tracked : Tracked} (found : entry.messages[id]? = some tracked) :
    Move now broker name operation entry changed forwarded id tracked changed.messages[id]? := by
  rcases change.moves id with ⟨untracked, -⟩ | ⟨old, stored, move⟩
  · cases untracked.symm.trans found
  · cases stored.symm.trans found
    exact move

theorem same_of_forwarded
    {one : Forwarded} (member : one ∈ forwarded) : entry.SameButBacklog changed := by
  cases change with
  | modified seconds entry parsed | expired sequence entry =>
    exact sameButBacklog_modifyDeadlines ..
  | _ => cases member

end

end Change

end Firenook.Pubsub
