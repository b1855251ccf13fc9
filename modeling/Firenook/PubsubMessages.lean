import Firenook.OrderedMaps
import Firenook.Text

/-!
# Pub/Sub resources

Names, errors, filters and messages of the Pub/Sub broker, and the backlog that one
subscription keeps: every message it has received, with its delivery state.
-/

namespace Firenook.Pubsub

/-! ## Errors and names -/

inductive Code
  | invalidArgument
  | notFound
  | alreadyExists
  | failedPrecondition
  | outOfRange
  | unimplemented
  | unknown
  deriving DecidableEq

structure PubsubError where
  code : Code
  message : Text
  deriving DecidableEq

namespace PubsubError

variable (message : String)

def invalidArgument : PubsubError := ⟨.invalidArgument, message.toList⟩

def notFound : PubsubError := ⟨.notFound, message.toList⟩

def alreadyExists : PubsubError := ⟨.alreadyExists, message.toList⟩

def failedPrecondition : PubsubError := ⟨.failedPrecondition, message.toList⟩

def invalidName (collection name : Text) : PubsubError :=
  ⟨.invalidArgument,
    "Invalid [".toList ++ collection ++ "] name: (name=".toList ++ name ++ ")".toList⟩

end PubsubError

abbrev Answer := Except PubsubError

def decimal (value : Int) : Text := (toString value).toList

def splitAt (separator : Char) (text : Text) : Option (Text × Text) :=
  match text.span (· ≠ separator) with
  | (_, []) => none
  | (front, _ :: rest) => some (front, rest)

structure ResourceName where
  project : Text
  id : Text

def validId (id : Text) : Bool :=
  3 ≤ id.byteLength && id.byteLength ≤ 255 && id.head?.any Char.isAlpha &&
    !"goog".toList.isPrefixOf id &&
    id.all fun char => char.isAlphanum || "-_.~+%".toList.contains char

def parse (collection name : Text) : Answer ResourceName :=
  match (Text.stripPrefix "projects/".toList name).bind (splitAt '/') with
  | none => .error (.invalidName collection name)
  | some (project, rest) =>
    match splitAt '/' rest with
    | none => .error (.invalidName collection name)
    | some (found, id) =>
      if found ≠ collection || !validId id then .error (.invalidName collection name)
      else .ok ⟨project, id⟩

variable (name : Text)

def parseTopic : Answer ResourceName := parse "topics".toList name

def parseSubscription : Answer ResourceName := parse "subscriptions".toList name

def parseSnapshot : Answer ResourceName := parse "snapshots".toList name

def parseSchemaName : Answer ResourceName := parse "schemas".toList name

/-! ## Filters -/

/-- `BTreeMap<String, String>`. -/
abbrev Attributes := Std.ExtTreeMap Text Text Text.cmp

inductive Filter
  | equals (key value : Text)
  | notEquals (key value : Text)
  | exists (key : Text)
  | hasPrefix (key start : Text)
  | not (inner : Filter)
  | and (left right : Filter)
  | or (left right : Filter)

def Filter.matches (attributes : Attributes) : Filter → Bool
  | .equals key value => attributes[key]? = some value
  | .notEquals key value => attributes[key]? ≠ some value
  | .exists key => attributes[key]?.isSome
  | .hasPrefix key start => attributes[key]?.any fun value => start.isPrefixOf value
  | .not inner => !inner.matches attributes
  | .and left right => left.matches attributes && right.matches attributes
  | .or left right => left.matches attributes || right.matches attributes

/-! ## Messages -/

/-- A reading of the monotonic clock, in nanoseconds, and of the wall clock, in
nanoseconds since the epoch. -/
structure Moment where
  instant : Nat
  system : Int

def secondsLong (seconds : Nat) : Nat := seconds * 1000000000

structure ProtoTime where
  seconds : Int
  nanos : Int
  deriving DecidableEq

/-- The wall clock as a protocol timestamp; times before the epoch count as the epoch. -/
def timestamp (system : Int) : ProtoTime :=
  ⟨min (max system 0 / 1000000000) (2 ^ 63 - 1), max system 0 % 1000000000⟩

structure PubsubMessage where
  data : List UInt8 := []
  attributes : Attributes := ∅
  messageId : Text := []
  publishTime : Option ProtoTime := none
  orderingKey : Text := []

/-- One published message, shared by every subscription that received it. -/
structure StoredMessage where
  id : Nat
  message : PubsubMessage
  published : Nat
  publishedAt : Int

inductive MessageState
  /-- Deliverable by pull or push. -/
  | available
  /-- Delivered and waiting for an acknowledgement. -/
  | leased (ack deadline : Nat)
  /-- Owned by the push loop. -/
  | pushing (nextAttempt : Nat)
  /-- Acknowledged and retained. -/
  | acked
  deriving DecidableEq

namespace MessageState

def isLeased : MessageState → Bool
  | .leased _ _ => true
  | _ => false

def isPushing : MessageState → Bool
  | .pushing _ => true
  | _ => false

end MessageState

structure Tracked where
  message : StoredMessage
  state : MessageState
  attempts : Nat
  sequence : Nat

def Tracked.orderingKey (tracked : Tracked) : Text := tracked.message.message.orderingKey

/-! ## Subscriptions -/

def deletedTopic : Text := "_deleted-topic_".toList

def pushRetry : Nat := secondsLong 1

structure ProtoDuration where
  seconds : Int
  nanos : Int
  deriving DecidableEq

structure DeadLetterPolicy where
  deadLetterTopic : Text
  maxDeliveryAttempts : Int

structure RetryPolicy where
  minimumBackoff : Option ProtoDuration
  maximumBackoff : Option ProtoDuration

structure PushConfig where
  pushEndpoint : Text := []

structure Subscription where
  name : Text := []
  topic : Text := []
  pushConfig : Option PushConfig := none
  ackDeadlineSeconds : Int := 0
  retainAckedMessages : Bool := false
  messageRetentionDuration : Option ProtoDuration := none
  enableMessageOrdering : Bool := false
  filter : Text := []
  deadLetterPolicy : Option DeadLetterPolicy := none
  retryPolicy : Option RetryPolicy := none
  detached : Bool := false
  enableExactlyOnceDelivery : Bool := false

def Subscription.isPush (subscription : Subscription) : Bool :=
  subscription.pushConfig.any fun config => !config.pushEndpoint.isEmpty

abbrev Messages := Std.ExtTreeMap Nat Tracked

structure SubscriptionEntry where
  subscription : Subscription
  topicGeneration : Nat
  originalTopic : Text
  topicDeleted : Bool
  filter : Option Filter
  messages : Messages

/-- A message removed for the dead-letter topic of its subscription. -/
structure Forwarded where
  subscription : Text
  message : StoredMessage
  attempts : Nat

structure Lease where
  message : StoredMessage
  ack : Nat
  attempts : Nat

namespace SubscriptionEntry

variable (entry : SubscriptionEntry)

def isPush : Bool := entry.subscription.isPush

def passes (message : StoredMessage) : Bool :=
  entry.filter.all fun filter => filter.matches message.message.attributes

variable (now : Moment)

def waiting : MessageState :=
  if entry.isPush then .pushing now.instant else .available

def track (entry : SubscriptionEntry) (message : StoredMessage) : SubscriptionEntry :=
  if entry.passes message then
    { entry with
      messages := entry.messages.insert message.id ⟨message, entry.waiting now, 0, message.id⟩ }
  else entry

variable (change : Tracked → Tracked)

def mapMessages (entry : SubscriptionEntry) : SubscriptionEntry :=
  { entry with messages := entry.messages.map fun _ => change }

def startPushing (entry : SubscriptionEntry) : SubscriptionEntry :=
  entry.mapMessages fun tracked =>
    if tracked.state = .available then { tracked with state := .pushing now.instant } else tracked

def stopPushing : SubscriptionEntry :=
  entry.mapMessages fun tracked =>
    if tracked.state.isPushing then { tracked with state := .available } else tracked

/-! ### Pulling -/

/-- Ordering keys with a leased message; such keys wait. -/
def blockedKeys : List Text :=
  if entry.subscription.enableMessageOrdering then
    ((entry.messages.toList.filter fun pair => pair.2.state.isLeased).map
      fun pair => pair.2.orderingKey).filter fun key => !key.isEmpty
  else []

def deliveredFirst (left right : Nat × Nat) : Prop :=
  left.1 < right.1 ∨ left.1 = right.1 ∧ left.2 ≤ right.2

instance : DecidableRel deliveredFirst := fun _ _ => inferInstanceAs (Decidable (_ ∨ _ ∧ _))

def candidates : List Nat :=
  (((entry.messages.toList.filter fun pair => pair.2.state = .available).map
    fun pair => (pair.2.sequence, pair.1)).insertionSort deliveredFirst).map Prod.snd

/-- Leases candidates in order while there is room, passing over blocked keys. -/
def takeFrom (blocked : List Text) (deadline : Nat) :
    List Nat → Nat → Nat → Messages → Messages × List Lease
  | [], _, _, messages => (messages, [])
  | _ :: _, 0, _, messages => (messages, [])
  | id :: ids, room + 1, ack, messages =>
    match messages[id]? with
    | none => takeFrom blocked deadline ids (room + 1) ack messages
    | some tracked =>
      if !tracked.orderingKey.isEmpty && blocked.contains tracked.orderingKey then
        takeFrom blocked deadline ids (room + 1) ack messages
      else
        let (messages, leases) := takeFrom blocked deadline ids room (ack + 1)
          (messages.insert id
            { tracked with attempts := tracked.attempts + 1, state := .leased ack deadline })
        (messages, ⟨tracked.message, ack, tracked.attempts + 1⟩ :: leases)

def nextDeadline : Nat :=
  now.instant + secondsLong
    (if entry.subscription.ackDeadlineSeconds < 0 then 10
      else entry.subscription.ackDeadlineSeconds.toNat)

def take (maxMessages : Int) (firstAck : Nat) (now : Moment) (entry : SubscriptionEntry) :
    SubscriptionEntry × List Lease :=
  let (messages, leases) := takeFrom entry.blockedKeys (entry.nextDeadline now)
    entry.candidates maxMessages.toNat firstAck entry.messages
  ({ entry with messages }, leases)

/-! ### Leases -/

def findLease (ack : Nat) : Option Nat :=
  (entry.messages.toList.find? fun pair =>
    match pair.2.state with
    | .leased leased _ => leased = ack
    | _ => false).map Prod.fst

def acknowledge (id : Nat) (entry : SubscriptionEntry) : SubscriptionEntry :=
  match entry.messages[id]? with
  | some tracked =>
    { entry with messages := entry.messages.insert id { tracked with state := .acked } }
  | none => entry

/-- Acknowledges leases one after the other; reports whether one was not found. -/
def acknowledgeAll : List Nat → SubscriptionEntry → SubscriptionEntry × Bool
  | [], entry => (entry, false)
  | ack :: acks, entry =>
    match entry.findLease ack with
    | some id => acknowledgeAll acks (entry.acknowledge id)
    | none => ((acknowledgeAll acks entry).1, true)

def exhausted (attempts : Nat) : Bool :=
  entry.subscription.deadLetterPolicy.any fun policy =>
    policy.maxDeliveryAttempts ≤ min (attempts : Int) (2 ^ 31 - 1)

/-- A nack makes the message available again, queued behind later messages, or gives it
up for the dead-letter topic; any other value extends the lease. -/
def modifyDeadline (id : Nat) (seconds : Int) (now : Moment) (sequence : Nat)
    (entry : SubscriptionEntry) : SubscriptionEntry × Nat × List Forwarded :=
  match entry.messages[id]? with
  | some ⟨message, .leased ack _, attempts, order⟩ =>
    if seconds = 0 then
      if entry.exhausted attempts then
        ({ entry with messages := entry.messages.erase id }, sequence,
          [⟨entry.subscription.name, message, attempts⟩])
      else
        ({ entry with
            messages := entry.messages.insert id ⟨message, entry.waiting now, attempts, sequence⟩ },
          sequence + 1, [])
    else
      ({ entry with
          messages := entry.messages.insert id
            ⟨message, .leased ack (now.instant + secondsLong seconds.toNat), attempts, order⟩ },
        sequence, [])
  | _ => (entry, sequence, [])

/-- Deadline changes one after the other, for the messages that `select` finds. -/
def modifyDeadlines (select : SubscriptionEntry → Nat → Option Nat) (seconds : Int)
    (now : Moment) : List Nat → Nat → SubscriptionEntry → SubscriptionEntry × Nat × List Forwarded
  | [], sequence, entry => (entry, sequence, [])
  | target :: targets, sequence, entry =>
    match select entry target with
    | none => modifyDeadlines select seconds now targets sequence entry
    | some id =>
      let (entry, sequence, forwarded) := entry.modifyDeadline id seconds now sequence
      let (entry, sequence, later) := modifyDeadlines select seconds now targets sequence entry
      (entry, sequence, forwarded ++ later)

def expiredLeases : List Nat :=
  (entry.messages.toList.filter fun pair =>
    match pair.2.state with
    | .leased _ deadline => deadline ≤ now.instant
    | _ => false).map Prod.fst

def expire (sequence : Nat) (entry : SubscriptionEntry) :
    SubscriptionEntry × Nat × List Forwarded :=
  modifyDeadlines (fun _ id => some id) 0 now (entry.expiredLeases now) sequence entry

/-! ### Pushes, settings and seeks -/

/-- The outcome of a push, for a message that still waits for it. -/
def pushed (id : Nat) (delivered : Bool) (entry : SubscriptionEntry) : SubscriptionEntry :=
  match entry.messages[id]? with
  | some tracked =>
    if tracked.state.isPushing then
      if delivered then entry.acknowledge id
      else
        { entry with
          messages := entry.messages.insert id
            { tracked with state := .pushing (now.instant + pushRetry) } }
    else entry
  | none => entry

/-- Stores new settings; the backlog moves to or from the push loop with them. -/
def configure (settings : Subscription) (entry : SubscriptionEntry) : SubscriptionEntry :=
  let updated := { entry with subscription := settings }
  if settings.isPush && !entry.isPush then updated.startPushing now
  else if entry.isPush && !settings.isPush then updated.stopPushing
  else updated

/-- A subscription of a deleted topic keeps its messages. -/
def loseTopic (generation : Nat) (entry : SubscriptionEntry) : SubscriptionEntry :=
  if entry.topicGeneration = generation then
    { entry with topicDeleted := true, subscription.topic := deletedTopic }
  else entry

/-- After a seek the backlog of a push subscription goes back to the push loop. -/
def seek (entry : SubscriptionEntry) : SubscriptionEntry :=
  let sought := entry.mapMessages change
  if sought.isPush then sought.startPushing now else sought

/-- Messages from the target on come back, acknowledged ones only when retained;
everything before it counts as acknowledged. -/
def seekTimeChange (retain : Bool) (target : Int) (tracked : Tracked) : Tracked :=
  if target ≤ tracked.message.publishedAt then
    if tracked.state = .acked && !retain then tracked
    else { tracked with state := .available, attempts := 0 }
  else { tracked with state := .acked }

end SubscriptionEntry

end Firenook.Pubsub
