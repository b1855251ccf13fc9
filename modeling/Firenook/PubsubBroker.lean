import Firenook.PubsubMessages

/-!
# The Pub/Sub broker

Topics, subscriptions, snapshots and schemas behind one lock, and the operations on
them.  An operation reads the clocks once; the monotonic clock never runs backwards.
A finished push is recorded in two steps, because the set of pushes in flight has a
lock of its own.
-/

namespace Firenook.Pubsub

open SubscriptionEntry

def deletedSchema : Text := "_deleted-schema_".toList
def defaultAckDeadline : Int := 10
def defaultRetentionSeconds : Int := 604800
def minRetentionSeconds : Int := 600
def maxRetentionSeconds : Int := 604800

/-! ## State -/

inductive Encoding
  | unspecified
  | json
  | binary
  deriving DecidableEq

structure SchemaSettings where
  schema : Text := []
  encoding : Encoding := .unspecified
  firstRevisionId : Text := []
  lastRevisionId : Text := []

/-- A parsed schema is represented by the definition it was parsed from. -/
structure BoundSchema where
  revisionId : Text
  definition : Text
  encoding : Encoding
  deleted : Bool

structure Topic where
  name : Text := []
  schemaSettings : Option SchemaSettings := none
  messageRetentionDuration : Option ProtoDuration := none

structure TopicEntry where
  topic : Topic
  generation : Nat
  messages : List StoredMessage
  schema : Option BoundSchema

structure SnapshotEntry where
  topic : Text
  topicGeneration : Nat
  unacked : List Nat
  created : Nat

structure Revision where
  id : Text
  definition : Text

structure SchemaEntry where
  revisions : List Revision

/-- A topic bound to the deleted schema rejects publishes from then on. -/
def TopicEntry.loseSchema (schema : Text) (entry : TopicEntry) : TopicEntry :=
  match entry.topic.schemaSettings with
  | some settings =>
    if settings.schema = schema then
      { entry with
        topic.schemaSettings := some { settings with schema := deletedSchema }
        schema := entry.schema.map fun bound => { bound with deleted := true } }
    else entry
  | none => entry

/-- Parsers and formatters of other modules and crates. -/
structure Externals where
  parseFilter : Text → Answer Filter
  validUrl : Text → Bool
  parseDefinition : Text → Answer Unit
  /-- Whether the bytes are a message of the schema in the encoding. -/
  validMessage : Text → Encoding → List UInt8 → Bool
  /-- The id of a revision, from its definition, a counter and the wall clock. -/
  revisionId : Text → Nat → Int → Text
  formatMillis : Int → Text

structure Broker where
  topics : Std.ExtTreeMap Text TopicEntry Text.cmp
  subscriptions : Std.ExtTreeMap Text SubscriptionEntry Text.cmp
  snapshots : Std.ExtTreeMap Text SnapshotEntry Text.cmp
  schemas : Std.ExtTreeMap Text SchemaEntry Text.cmp
  nextMessageId : Nat
  nextAck : Nat
  nextGeneration : Nat
  revisionCounter : Nat
  /-- The process-wide counter of redelivery order numbers. -/
  sequence : Nat
  /-- Pushes in flight, by subscription and message id. -/
  inFlight : List (Text × Nat)
  /-- The change counter that waiting pulls watch. -/
  version : Nat
  /-- The latest reading of the monotonic clock. -/
  clock : Nat

structure PushJob where
  subscription : Text
  messageId : Nat
  endpoint : Text

variable (duration : Option ProtoDuration)

def durationSeconds : Option Int :=
  duration.map ProtoDuration.seconds

def checkRetention : Answer Unit :=
  match durationSeconds duration with
  | some seconds =>
    if minRetentionSeconds ≤ seconds ∧ seconds ≤ maxRetentionSeconds then .ok ()
    else .error (.invalidArgument "message_retention_duration out of bounds")
  | none => .ok ()

variable (externals : Externals) (now : Moment) (broker : Broker)

namespace Broker

/-- A new broker; the redelivery counter of the process has reached `sequence`. -/
def new (sequence : Nat) : Broker where
  topics := ∅
  subscriptions := ∅
  snapshots := ∅
  schemas := ∅
  nextMessageId := 1
  nextAck := 1
  nextGeneration := 1
  revisionCounter := 0
  sequence := sequence
  inFlight := []
  version := 0
  clock := 0

def notify : Broker := { broker with version := broker.version + 1 }

variable (name : Text)

def put (entry : SubscriptionEntry) : Broker :=
  { broker with subscriptions := broker.subscriptions.insert name entry }

def subscription : Answer SubscriptionEntry :=
  match broker.subscriptions[name]? with
  | some entry => .ok entry
  | none => .error (.notFound "Subscription does not exist")

/-! ## Delivery -/

def receive (generation : Nat) (messages : List StoredMessage)
    (entry : SubscriptionEntry) : SubscriptionEntry :=
  if entry.topicDeleted || entry.topicGeneration ≠ generation then entry
  else messages.foldl (track now) entry

def deliver (topic : Text) (messages : List StoredMessage) (broker : Broker) : Broker :=
  match broker.topics[topic]? with
  | none => broker
  | some entry =>
    { broker with
      topics := broker.topics.insert topic { entry with messages := entry.messages ++ messages }
      subscriptions := broker.subscriptions.map fun _ => receive now entry.generation messages }

def deadLetterCopy (id : Nat) (forwarded : Forwarded) : StoredMessage :=
  let name := (parseSubscription forwarded.subscription).toOption
  let message := forwarded.message.message
  { id
    message := { message with
      attributes := (((message.attributes.insert
        "CloudPubSubDeadLetterSourceDeliveryCount".toList (decimal forwarded.attempts)).insert
        "CloudPubSubDeadLetterSourceSubscription".toList (name.elim [] ResourceName.id)).insert
        "CloudPubSubDeadLetterSourceSubscriptionProject".toList
          (name.elim [] ResourceName.project)).insert
        "CloudPubSubDeadLetterSourceTopicPublishTime".toList
          (externals.formatMillis forwarded.message.publishedAt)
      messageId := decimal id
      publishTime := some (timestamp now.system) }
    published := now.instant
    publishedAt := now.system }

def forwardDeadLetter (forwarded : Forwarded) : Broker :=
  match broker.subscriptions[forwarded.subscription]?.bind fun entry =>
      entry.subscription.deadLetterPolicy with
  | none => broker
  | some policy =>
    if policy.deadLetterTopic ∈ broker.topics then
      deliver now policy.deadLetterTopic
        [deadLetterCopy externals now broker.nextMessageId forwarded]
        { broker with nextMessageId := broker.nextMessageId + 1 }
    else broker

def forwardDeadLetters (forwarded : List Forwarded) (broker : Broker) : Broker :=
  forwarded.foldl (forwardDeadLetter externals now) broker

/-! ## Schemas -/

def schemaRevision (entry : SchemaEntry) (lastRevisionId : Text) : Answer Revision :=
  if lastRevisionId.isEmpty then
    match entry.revisions.getLast? with
    | some revision => .ok revision
    | none => .error (.notFound "Schema could not be found")
  else
    match entry.revisions.find? fun revision => revision.id = lastRevisionId with
    | some revision => .ok revision
    | none => .error (.notFound "Last revision could not be found")

def bindSchema (settings : SchemaSettings) : Answer BoundSchema :=
  match (parseSchemaName settings.schema).toOption.bind fun _ => broker.schemas[settings.schema]? with
  | none => .error (.notFound "Schema could not be found")
  | some entry => do
    if settings.encoding = .unspecified then
      throw (.invalidArgument "Invalid schema encoding provided")
    if !settings.firstRevisionId.isEmpty &&
        !entry.revisions.any fun revision => revision.id = settings.firstRevisionId then
      throw (.notFound "First revision could not be found")
    let revision ← schemaRevision entry settings.lastRevisionId
    pure ⟨revision.id, revision.definition, settings.encoding, false⟩

/-- `name@revision` without the revision. -/
def schemaBase : Text × Option Text :=
  match splitAt '@' name with
  | some (base, revision) => (base, some revision)
  | none => (name, none)

def newRevision (definition : Text) (broker : Broker) : Broker × Revision :=
  let counter := broker.revisionCounter + 1
  ({ broker with revisionCounter := counter },
    ⟨externals.revisionId definition counter now.system, definition⟩)

def appendRevision (entry : SchemaEntry) (revision : Revision) (broker : Broker) : Broker :=
  { broker with schemas := broker.schemas.insert name ⟨entry.revisions ++ [revision]⟩ }

def createSchema (parent schemaId definition : Text) (broker : Broker) : Answer Broker := do
  let name := parent ++ "/schemas/".toList ++ schemaId
  let _ ← parseSchemaName name
  externals.parseDefinition definition
  if name ∈ broker.schemas then throw (.alreadyExists "Schema already exists")
  let (broker, revision) := newRevision externals now definition broker
  pure (appendRevision name ⟨[]⟩ revision broker)

def schemaEntry : Answer SchemaEntry :=
  match broker.schemas[name]? with
  | some entry => .ok entry
  | none => .error (.notFound "Schema not found")

def commitSchema (name definition : Text) (broker : Broker) : Answer Broker := do
  let base := (schemaBase name).1
  let _ ← parseSchemaName base
  externals.parseDefinition definition
  let entry ← broker.schemaEntry base
  let (broker, revision) := newRevision externals now definition broker
  pure (appendRevision base entry revision broker)

def rollbackSchema (name revisionId : Text) (broker : Broker) : Answer Broker := do
  let base := (schemaBase name).1
  let _ ← parseSchemaName base
  let entry ← broker.schemaEntry base
  match entry.revisions.find? fun revision => revision.id = revisionId with
  | none => throw (.notFound "Revision not found")
  | some source =>
    let (broker, revision) := newRevision externals now source.definition broker
    pure (appendRevision base entry revision broker)

def deleteSchemaRevision (broker : Broker) : Answer Broker := do
  let (base, revision) := schemaBase name
  let _ ← parseSchemaName base
  let entry ← broker.schemaEntry base
  match revision.bind fun id => entry.revisions.findIdx? fun candidate => candidate.id = id with
  | none => throw (.notFound "Schema revision not found")
  | some index =>
    if entry.revisions.length = 1 then
      throw (.invalidArgument "Cannot delete last revision. Please use DeleteSchema.")
    pure { broker with schemas := broker.schemas.insert base ⟨entry.revisions.eraseIdx index⟩ }

def deleteSchema (broker : Broker) : Answer Broker := do
  let base := (schemaBase name).1
  let _ ← parseSchemaName base
  let _ ← broker.schemaEntry base
  pure { broker with
    schemas := broker.schemas.erase base
    topics := broker.topics.map fun _ => TopicEntry.loseSchema base }

/-! ## Topics -/

def createTopic (request : Topic) (broker : Broker) : Answer Broker := do
  let _ ← parseTopic request.name
  if request.name ∈ broker.topics then throw (.alreadyExists "Topic already exists")
  checkRetention request.messageRetentionDuration
  let schema ← request.schemaSettings.mapM broker.bindSchema
  pure { broker with
    nextGeneration := broker.nextGeneration + 1
    topics := broker.topics.insert request.name ⟨request, broker.nextGeneration, [], schema⟩ }

inductive TopicPath
  | schemaSettings
  | messageRetentionDuration
  deriving DecidableEq

def topicPath (path : Text) : Answer TopicPath :=
  if path = "schema_settings".toList then .ok .schemaSettings
  else if path = "message_retention_duration".toList then .ok .messageRetentionDuration
  else
    .error ⟨.invalidArgument,
      "Invalid update_mask provided in the UpdateTopicRequest: ".toList ++ path ++
        (" is not a known Topic field. Note that field paths must be of the form " ++
          "'schema_settings' rather than 'schemaSetings'.").toList⟩

def checkTopicPath (update : Topic) : TopicPath → Answer (Option BoundSchema)
  | .schemaSettings => do
    let requested := update.schemaSettings.getD {}
    if requested.schema.isEmpty then throw (.invalidArgument "No schema name provided")
    let bound ← broker.bindSchema requested
    pure (some bound)
  | .messageRetentionDuration => do
    checkRetention update.messageRetentionDuration
    pure none

def updateTopic (topic : Option Topic) (paths : List Text) (broker : Broker) : Answer Broker := do
  if paths.isEmpty then
    throw (.invalidArgument ("The update_mask in the UpdateTopicRequest must be set, and must " ++
      "contain a non-empty paths list."))
  let paths ← paths.mapM topicPath
  let update := topic.getD {}
  let _ ← parseTopic update.name
  match broker.topics[update.name]? with
  | none => throw (.notFound "Topic not found.")
  | some entry =>
    let bound := (← paths.mapM (broker.checkTopicPath update)).reduceOption.getLast?
    let retention := if .messageRetentionDuration ∈ paths then update.messageRetentionDuration
      else entry.topic.messageRetentionDuration
    let settings := if bound.isSome then some (update.schemaSettings.getD {})
      else entry.topic.schemaSettings
    pure { broker with
      topics := broker.topics.insert update.name { entry with
        topic.messageRetentionDuration := retention
        topic.schemaSettings := settings
        schema := bound.or entry.schema } }

def deleteTopic (broker : Broker) : Answer Broker := do
  let _ ← parseTopic name
  match broker.topics[name]? with
  | none => throw (.notFound "Topic not found")
  | some entry =>
    pure { broker with
      topics := broker.topics.erase name
      subscriptions := broker.subscriptions.map fun _ =>
        loseTopic entry.generation }

/-! ## Publishing -/

def encodingName : Encoding → Text
  | .binary => "BINARY".toList
  | _ => "JSON".toList

/-- Checks a message against the topic's schema and stamps its schema attributes. -/
def prepare (entry : TopicEntry) (message : PubsubMessage) : Answer PubsubMessage :=
  match entry.schema with
  | none => .ok message
  | some bound =>
    if bound.deleted then .error (.notFound "Schema associated with topic deleted.")
    else if externals.validMessage bound.definition bound.encoding message.data then
      .ok { message with
        attributes := ((message.attributes.insert
          "googclient_schemaencoding".toList (encodingName bound.encoding)).insert
          "googclient_schemaname".toList
            (entry.topic.schemaSettings.elim [] SchemaSettings.schema)).insert
          "googclient_schemarevisionid".toList bound.revisionId }
    else .error (.invalidArgument "Could not parse message")

def stamp (firstId : Nat) (messages : List PubsubMessage) : List StoredMessage :=
  messages.mapIdx fun index message =>
    { id := firstId + index
      message := { message with
        messageId := decimal (firstId + index)
        publishTime := some (timestamp now.system) }
      published := now.instant
      publishedAt := now.system }

def publish (topic : Text) (messages : List PubsubMessage)
    (broker : Broker) : Answer (Broker × List StoredMessage) := do
  let _ ← parseTopic topic
  match broker.topics[topic]? with
  | none => throw (.notFound "Topic not found")
  | some entry =>
    if messages.isEmpty then throw (.invalidArgument "No messages to publish")
    if messages.any fun message => message.data.isEmpty && message.attributes.isEmpty then
      throw (.invalidArgument "Some messages are empty")
    let prepared ← messages.mapM (prepare externals entry)
    let stored := stamp now broker.nextMessageId prepared
    pure ((deliver now topic stored
      { broker with nextMessageId := broker.nextMessageId + stored.length }).notify, stored)

/-! ## Subscriptions -/

def paddedNanos (nanos : Int) : Text :=
  let digits := decimal nanos
  List.replicate (9 - digits.length) '0' ++ digits

def durationText (duration : ProtoDuration) : Text :=
  if duration.nanos = 0 then decimal duration.seconds ++ "s".toList
  else decimal duration.seconds ++ ".".toList ++ paddedNanos duration.nanos ++ "s".toList

def validatePushConfig (config : PushConfig) : Answer Unit :=
  if config.pushEndpoint.isEmpty then .ok ()
  else if ("http://".toList.isPrefixOf config.pushEndpoint ||
      "https://".toList.isPrefixOf config.pushEndpoint) && externals.validUrl config.pushEndpoint
    then .ok ()
  else .error (.invalidArgument "Unsupported push_endpoint")

def attemptsError (attempts : Int) (direction bound : String) : PubsubError :=
  ⟨.outOfRange, "The value for max_delivery_attempts is too ".toList ++ direction.toList ++
    ". You passed ".toList ++ decimal attempts ++ " in the request, but the ".toList ++
    bound.toList⟩

def validatedDeadLetterPolicy (policy : DeadLetterPolicy) : Answer DeadLetterPolicy := do
  if (parseTopic policy.deadLetterTopic).toOption.isNone ||
      !(policy.deadLetterTopic ∈ broker.topics) then
    throw (.notFound "Dead letter topic not found")
  let attempts := if policy.maxDeliveryAttempts = 0 then 5 else policy.maxDeliveryAttempts
  if attempts < 5 then throw (attemptsError attempts "small" "minimum value is 5.")
  if attempts > 100 then throw (attemptsError attempts "large" "maximum value is 100.")
  pure { policy with maxDeliveryAttempts := attempts }

def validatedRetryPolicy (policy : RetryPolicy) : Answer RetryPolicy :=
  let minimum := policy.minimumBackoff.getD ⟨10, 0⟩
  let maximum := policy.maximumBackoff.getD ⟨600, 0⟩
  if maximum.seconds < minimum.seconds ∨
      maximum.seconds = minimum.seconds ∧ maximum.nanos < minimum.nanos then
    .error ⟨.invalidArgument, "The value for maximum_backoff is too small. You passed ".toList ++
      durationText maximum ++ " in the request, but the minimum value is ".toList ++
      durationText minimum ++ ".".toList⟩
  else .ok ⟨some minimum, some maximum⟩

def validatedSubscription (subscription : Subscription) : Answer Subscription := do
  let deadline := if subscription.ackDeadlineSeconds = 0 then defaultAckDeadline
    else subscription.ackDeadlineSeconds
  if !(0 ≤ deadline ∧ deadline ≤ 600) then
    throw (.invalidArgument "ack_deadline_secs out of bounds")
  checkRetention subscription.messageRetentionDuration
  let deadLetterPolicy ← subscription.deadLetterPolicy.mapM broker.validatedDeadLetterPolicy
  let retryPolicy ← subscription.retryPolicy.mapM validatedRetryPolicy
  let config := subscription.pushConfig.getD {}
  validatePushConfig externals config
  pure { subscription with
    ackDeadlineSeconds := deadline
    messageRetentionDuration :=
      some (subscription.messageRetentionDuration.getD ⟨defaultRetentionSeconds, 0⟩)
    deadLetterPolicy
    retryPolicy
    pushConfig := some config }

/-- The messages a topic with retention hands to a new subscription. -/
def retained (topic : TopicEntry) : List StoredMessage :=
  match durationSeconds topic.topic.messageRetentionDuration with
  | none => []
  | some seconds => topic.messages.filter fun message =>
    now.instant - message.published ≤ secondsLong seconds.toNat

def createSubscription (request : Subscription) (broker : Broker) : Answer Broker := do
  let _ ← parseSubscription request.name
  let _ ← parseTopic request.topic
  match broker.topics[request.topic]? with
  | none => throw (.notFound "Subscription topic does not exist")
  | some topic =>
    if request.name ∈ broker.subscriptions then
      throw (.alreadyExists "Subscription already exists")
    let subscription ← broker.validatedSubscription externals request
    let filter ← if subscription.filter.isEmpty then pure none
      else some <$> externals.parseFilter subscription.filter
    let entry := (retained now topic).foldl (track now)
      ⟨subscription, topic.generation, subscription.topic, false, filter, ∅⟩
    let entry := if entry.isPush then entry.startPushing now else entry
    pure (broker.put subscription.name entry).notify

inductive SubscriptionPath
  | ackDeadlineSeconds
  | pushConfig
  | retainAckedMessages
  | messageRetentionDuration
  | deadLetterPolicy
  | retryPolicy
  | enableExactlyOnceDelivery

def subscriptionPath (path : Text) : Answer SubscriptionPath :=
  let mask := "Invalid update_mask provided in the UpdateSubscriptionRequest: ".toList
  if path = "ack_deadline_seconds".toList then .ok .ackDeadlineSeconds
  else if path = "push_config".toList then .ok .pushConfig
  else if path = "retain_acked_messages".toList then .ok .retainAckedMessages
  else if path = "message_retention_duration".toList then .ok .messageRetentionDuration
  else if path = "dead_letter_policy".toList then .ok .deadLetterPolicy
  else if path = "retry_policy".toList then .ok .retryPolicy
  else if path = "enable_exactly_once_delivery".toList then .ok .enableExactlyOnceDelivery
  else if path = "topic".toList ∨ path = "enable_message_ordering".toList ∨
      path = "detached".toList then
    .error ⟨.invalidArgument, mask ++ "the ".toList ++ path ++
      " field in the Subscription is not mutable.".toList⟩
  else if path = "filter".toList ∨ path = "expiration_policy".toList then
    .error ⟨.invalidArgument, "Updating the ".toList ++ path ++
      " field is currently unsupported in the Pub/Sub Emulator.".toList⟩
  else
    .error ⟨.invalidArgument, mask ++ path ++
      (" is not a known Subscription field. Note that field paths must be of the form " ++
        "'push_config' rather than 'pushConfig'.").toList⟩

def applyPath (update current : Subscription) : SubscriptionPath → Subscription
  | .ackDeadlineSeconds => { current with ackDeadlineSeconds := update.ackDeadlineSeconds }
  | .pushConfig => { current with pushConfig := update.pushConfig }
  | .retainAckedMessages => { current with retainAckedMessages := update.retainAckedMessages }
  | .messageRetentionDuration =>
    { current with messageRetentionDuration := update.messageRetentionDuration }
  | .deadLetterPolicy => { current with deadLetterPolicy := update.deadLetterPolicy }
  | .retryPolicy => { current with retryPolicy := update.retryPolicy }
  | .enableExactlyOnceDelivery =>
    { current with enableExactlyOnceDelivery := update.enableExactlyOnceDelivery }

def updateSubscription (subscription : Option Subscription)
    (paths : List Text) (broker : Broker) : Answer Broker := do
  if paths.isEmpty then
    throw (.invalidArgument ("The update_mask in the UpdateSubscriptionRequest must be set, and " ++
      "must contain a non-empty paths list."))
  let paths ← paths.mapM subscriptionPath
  let update := subscription.getD {}
  let _ ← parseSubscription update.name
  match broker.subscriptions[update.name]? with
  | none => throw (.notFound "Subscription not found.")
  | some entry =>
    let settings ← broker.validatedSubscription externals
      (paths.foldl (applyPath update) entry.subscription)
    pure (broker.put update.name (entry.configure now settings)).notify

def deleteSubscription (broker : Broker) : Answer Broker := do
  let _ ← parseSubscription name
  let _ ← broker.subscription name
  pure { broker with subscriptions := broker.subscriptions.erase name }.notify

def modifyPushConfig (config : Option PushConfig) (broker : Broker) : Answer Broker := do
  let _ ← parseSubscription name
  let entry ← broker.subscription name
  let config := config.getD {}
  validatePushConfig externals config
  pure (broker.put name
    (entry.configure now { entry.subscription with pushConfig := some config })).notify

/-! ## Pulling and acknowledging -/

def pull (maxMessages : Int) (broker : Broker) : Answer (Broker × List Lease) := do
  let _ ← parseSubscription name
  let entry ← broker.subscription name
  if entry.subscription.detached then throw (.failedPrecondition "Subscription is detached.")
  let (entry, leases) := entry.take maxMessages broker.nextAck now
  let broker := { broker.put name entry with nextAck := broker.nextAck + leases.length }
  pure (if leases.isEmpty then broker else broker.notify, leases)

def parseU64 (text : Text) : Option Nat :=
  let digits := (Text.stripPrefix "+".toList text).getD text
  if digits.isEmpty || !digits.all Char.isDigit then none
  else if Text.digitsValue digits < 2 ^ 64 then some (Text.digitsValue digits) else none

def parseAckId (subscription ackId : Text) : Answer Nat :=
  let invalid : PubsubError :=
    ⟨.invalidArgument, "Invalid ack id (ack_id=".toList ++ ackId ++ ")".toList⟩
  match ackId.rsplitOnce ':' with
  | none => .error invalid
  | some (owner, sequence) =>
    match parseU64 sequence with
    | none => .error invalid
    | some ack =>
      if owner ≠ subscription then
        .error ⟨.invalidArgument, "Subscription ".toList ++ subscription ++
          " received an invalid ack ID ".toList ++ ackId ++ ", meant for subscription: ".toList ++
          owner⟩
      else .ok ack

/-- The acknowledgements are kept even when the request fails for a stale id; that
failure notifies nobody. -/
def acknowledge (ackIds : List Text) (broker : Broker) : Answer (Broker × Answer Unit) := do
  let _ ← parseSubscription name
  let entry ← broker.subscription name
  if ackIds.isEmpty then throw (.invalidArgument "No ack ids specified.")
  let acks ← ackIds.mapM (parseAckId name)
  let (entry, anyStale) := entry.acknowledgeAll acks
  let broker := broker.put name entry
  if entry.subscription.enableExactlyOnceDelivery && anyStale then
    pure (broker, .error (.invalidArgument ""))
  else pure (broker.notify, .ok ())

def modifyAckDeadline (ackIds : List Text) (seconds : Int) (broker : Broker) : Answer Broker := do
  let _ ← parseSubscription name
  let entry ← broker.subscription name
  if ackIds.isEmpty then throw (.invalidArgument "No ack ids specified")
  if seconds < 0 then throw (.invalidArgument "Ack deadline cannot be negative")
  let acks ← ackIds.mapM (parseAckId name)
  let (entry, sequence, forwarded) :=
    modifyDeadlines findLease seconds now acks broker.sequence entry
  pure (forwardDeadLetters externals now forwarded { broker.put name entry with sequence }).notify

/-! ## The timer and pushes -/

def dueJobs (inFlight : List (Text × Nat)) (name : Text)
    (entry : SubscriptionEntry) : List PushJob :=
  if entry.isPush then
    (entry.messages.toList.filter fun pair =>
      (match pair.2.state with
        | .pushing nextAttempt => decide (nextAttempt ≤ now.instant)
        | _ => false) && !inFlight.contains (name, pair.2.message.id)).map
      fun pair => ⟨name, pair.2.message.id,
        entry.subscription.pushConfig.elim [] PushConfig.pushEndpoint⟩
  else []

def tickFrom : List (Text × SubscriptionEntry) → Broker →
    Broker × List Forwarded × List PushJob
  | [], broker => (broker, [], [])
  | (name, entry) :: entries, broker =>
    let (expired, sequence, forwarded) := entry.expire now broker.sequence
    let jobs := dueJobs now broker.inFlight name expired
    let (broker, later, laterJobs) := tickFrom entries { broker.put name expired with sequence }
    (broker, forwarded ++ later, jobs ++ laterJobs)

def tick : Broker × List PushJob :=
  let entries := broker.subscriptions.toList
  let changed := entries.any fun pair => !(pair.2.expiredLeases now).isEmpty
  let (ticked, forwarded, jobs) := tickFrom now entries broker
  let ticked := forwardDeadLetters externals now forwarded ticked
  let ticked := { ticked with
    inFlight := ticked.inFlight ++ jobs.map fun job => (job.subscription, job.messageId) }
  (if changed then ticked.notify else ticked, jobs)

/-- The first half of a finished push: it is no longer in flight. -/
def releasePush (job : PushJob) (broker : Broker) : Broker :=
  { broker with
    inFlight := broker.inFlight.filter fun flight => flight ≠ (job.subscription, job.messageId) }

def recordPush (job : PushJob) (delivered : Bool) (broker : Broker) : Broker :=
  match broker.subscriptions[job.subscription]? with
  | some entry =>
    (broker.put job.subscription (entry.pushed now job.messageId delivered)).notify
  | none => broker.notify

/-! ## Seeking and snapshots -/

def seekToTime (time : ProtoTime) (broker : Broker) : Answer Broker := do
  let _ ← parseSubscription name
  let entry ← broker.subscription name
  let target : Int := time.seconds.toNat * 1000000000 + time.nanos.toNat
  pure (broker.put name
    (entry.seek now (seekTimeChange entry.subscription.retainAckedMessages target))).notify

/-- The snapshot decides which tracked messages are acknowledged. -/
def seekSnapshotChange (snapshot : SnapshotEntry) (tracked : Tracked) : Tracked :=
  if snapshot.unacked.contains tracked.message.id || snapshot.created < tracked.message.published
    then { tracked with state := .available, attempts := 0 }
  else { tracked with state := .acked }

def seekToSnapshot (name snapshot : Text) (broker : Broker) : Answer Broker := do
  let _ ← parseSubscription name
  let entry ← broker.subscription name
  let _ ← parseSnapshot snapshot
  match broker.snapshots[snapshot]? with
  | none => throw (.notFound "Snapshot does not exist")
  | some found =>
    if entry.topicDeleted || entry.topicGeneration ≠ found.topicGeneration then
      throw ⟨.failedPrecondition, "The subscription's topic ".toList ++ entry.subscription.topic ++
        " is different from that of the snapshot ".toList ++ found.topic ++
        ("; they must match in order for Seek work. Note that if a topic is deleted and then " ++
          "re-created with the same name, it is considered a distinct topic for these " ++
          "purposes.").toList⟩
    pure (broker.put name (entry.seek now (seekSnapshotChange found))).notify

def createSnapshot (name subscription : Text) (broker : Broker) : Answer Broker := do
  let _ ← parseSnapshot name
  let entry ← broker.subscription subscription
  if name ∈ broker.snapshots then throw (.alreadyExists "Snapshot already exists")
  pure { broker with
    snapshots := broker.snapshots.insert name
      ⟨entry.originalTopic, entry.topicGeneration,
        (entry.messages.toList.filter fun pair => pair.2.state ≠ .acked).map Prod.fst,
        now.instant⟩ }

def deleteSnapshot (broker : Broker) : Answer Broker := do
  let _ ← parseSnapshot name
  if !(name ∈ broker.snapshots) then throw (.notFound "Snapshot does not exist")
  pure { broker with snapshots := broker.snapshots.erase name }

/-- Forgets everything on a subscription, as the functions consumer does. -/
def drain (broker : Broker) : Broker :=
  match broker.subscriptions[name]? with
  | some entry => broker.put name { entry with messages := ∅ }
  | none => broker

end Broker

/-! ## Runs -/

inductive Operation
  | createTopic (request : Topic)
  | updateTopic (topic : Option Topic) (paths : List Text)
  | deleteTopic (name : Text)
  | publish (topic : Text) (messages : List PubsubMessage)
  | createSubscription (request : Subscription)
  | updateSubscription (subscription : Option Subscription) (paths : List Text)
  | deleteSubscription (name : Text)
  | modifyPushConfig (name : Text) (config : Option PushConfig)
  | pull (name : Text) (maxMessages : Int)
  | acknowledge (name : Text) (ackIds : List Text)
  | modifyAckDeadline (name : Text) (ackIds : List Text) (seconds : Int)
  | tick
  | releasePush (job : PushJob)
  | recordPush (job : PushJob) (delivered : Bool)
  | seekToTime (name : Text) (time : ProtoTime)
  | seekToSnapshot (name snapshot : Text)
  | createSnapshot (name subscription : Text)
  | deleteSnapshot (name : Text)
  | drain (name : Text)
  | createSchema (parent schemaId definition : Text)
  | commitSchema (name definition : Text)
  | rollbackSchema (name revisionId : Text)
  | deleteSchemaRevision (name : Text)
  | deleteSchema (name : Text)

/-- One operation, made some time after the one before; the wall clock may read anything. -/
structure Request where
  elapsed : Nat := 0
  system : Int := 0
  operation : Operation

namespace Broker

def settle (answer : Answer Broker) : Broker := answer.toOption.getD broker

def perform : Operation → Broker
  | .createTopic request => broker.settle (broker.createTopic request)
  | .updateTopic topic paths => broker.settle (broker.updateTopic topic paths)
  | .deleteTopic name => broker.settle (broker.deleteTopic name)
  | .publish topic messages =>
    broker.settle ((broker.publish externals now topic messages).map Prod.fst)
  | .createSubscription request =>
    broker.settle (broker.createSubscription externals now request)
  | .updateSubscription subscription paths =>
    broker.settle (broker.updateSubscription externals now subscription paths)
  | .deleteSubscription name => broker.settle (broker.deleteSubscription name)
  | .modifyPushConfig name config =>
    broker.settle (broker.modifyPushConfig externals now name config)
  | .pull name maxMessages => broker.settle ((broker.pull now name maxMessages).map Prod.fst)
  | .acknowledge name ackIds => broker.settle ((broker.acknowledge name ackIds).map Prod.fst)
  | .modifyAckDeadline name ackIds seconds =>
    broker.settle (broker.modifyAckDeadline externals now name ackIds seconds)
  | .tick => (broker.tick externals now).1
  | .releasePush job => broker.releasePush job
  | .recordPush job delivered => broker.recordPush now job delivered
  | .seekToTime name time => broker.settle (broker.seekToTime now name time)
  | .seekToSnapshot name snapshot => broker.settle (broker.seekToSnapshot now name snapshot)
  | .createSnapshot name subscription =>
    broker.settle (broker.createSnapshot now name subscription)
  | .deleteSnapshot name => broker.settle (broker.deleteSnapshot name)
  | .drain name => broker.drain name
  | .createSchema parent schemaId definition =>
    broker.settle (broker.createSchema externals now parent schemaId definition)
  | .commitSchema name definition =>
    broker.settle (broker.commitSchema externals now name definition)
  | .rollbackSchema name revisionId =>
    broker.settle (broker.rollbackSchema externals now name revisionId)
  | .deleteSchemaRevision name => broker.settle (broker.deleteSchemaRevision name)
  | .deleteSchema name => broker.settle (broker.deleteSchema name)

def moment (request : Request) : Moment :=
  ⟨broker.clock + request.elapsed, request.system⟩

def step (request : Request) : Broker :=
  { broker.perform externals (broker.moment request) request.operation with
    clock := (broker.moment request).instant }

end Broker
end Firenook.Pubsub
