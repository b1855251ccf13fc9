import Firenook.MessageRetention

/-!
# Ordering keys

Messages of one ordering key are first delivered in the order of their publication.
Redelivery is another matter: a message whose lease ends is queued behind later ones.
The deliveries of a run are recorded beside the broker, per subscription name.
-/

namespace Firenook.Pubsub

open SubscriptionEntry List Runs MessageState
open Std.ExtTreeMap (mem_toList_iff_getElem?_eq_some)

/-! ## Deliveries -/

variable {now : Moment} {settings : Subscription} {state : MessageState}

namespace Broker

/-- The ids a request hands out to a subscription, by pull or push, in order. -/
def deliveredBy (externals : Externals) (name : Text) (broker : Broker) (request : Request) :
    List Nat :=
  match request.operation with
  | .pull subscription maxMessages =>
    if subscription = name then
      match broker.pull (broker.moment request) name maxMessages with
      | .ok (_, leases) => leases.map fun lease => lease.message.id
      | .error _ => []
    else []
  | .tick =>
    ((broker.tick externals (broker.moment request)).2.filter
      fun job => job.subscription = name).map PushJob.messageId
  | _ => []

end Broker

/-- A broker with the ids delivered so far to one subscription. -/
structure Watched where
  broker : Broker
  delivered : List Nat

namespace Watched

def start (sequence : Nat) : Watched := ⟨.new sequence, []⟩

def step (externals : Externals) (name : Text) (watched : Watched) (request : Request) : Watched :=
  ⟨watched.broker.step externals request,
    watched.delivered ++ watched.broker.deliveredBy externals name request⟩

/-- The subscription is not sought, and push outcomes belong to pushes that were made. -/
def Orderly (name : Text) (watched : Watched) (request : Request) : Prop :=
  match request.operation with
  | .seekToTime subscription _ => subscription ≠ name
  | .seekToSnapshot subscription _ => subscription ≠ name
  | .recordPush job _ => job.subscription = name → job.messageId ∈ watched.delivered
  | _ => True

instance (name : Text) (watched : Watched) (request : Request) :
    Decidable (Orderly name watched request) := by
  unfold Orderly
  split <;> infer_instance

end Watched

open Watched (step start)

/-! ## Positions in what is handed out -/

theorem mem_front_of_pairwise {α : Type} {relation : α → α → Prop} {front back : List α}
    {element other : α} (ordered : (front ++ element :: back).Pairwise relation)
    (member : other ∈ front ++ element :: back) (differs : other ≠ element)
    (unrelated : ¬relation element other) : other ∈ front := by
  rcases mem_append.mp member with early | late
  · exact early
  · rcases mem_cons.mp late with same | late
    · exact absurd same differs
    · have tail := (pairwise_append.mp ordered).2.1
      exact absurd (rel_of_pairwise_cons tail late) unrelated

variable (entry : SubscriptionEntry)

namespace SubscriptionEntry

variable {entry : SubscriptionEntry} {maxMessages : Int} {firstAck : Nat} {now : Moment} {id : Nat}

def Precedes (entry : SubscriptionEntry) (first second : Nat) : Prop :=
  ∀ left right, entry.messages[first]? = some left → entry.messages[second]? = some right →
    deliveredFirst (left.sequence, first) (right.sequence, second)

theorem pairwise_candidates (entry : SubscriptionEntry) :
    entry.candidates.Pairwise entry.Precedes := by
  have total : Std.Total deliveredFirst := ⟨by
    unfold deliveredFirst
    omega⟩
  have transitive : IsTrans (Nat × Nat) deliveredFirst := ⟨by
    unfold deliveredFirst
    omega⟩
  have sorted := pairwise_insertionSort deliveredFirst
    ((entry.messages.toList.filter fun pair => pair.2.state = .available).map
      fun pair => (pair.2.sequence, pair.1))
  unfold candidates
  rw [pairwise_map]
  refine sorted.imp_of_mem ?_
  intro first second inFirst inSecond before left right storedLeft storedRight
  have sequenced : ∀ {pair : Nat × Nat} {tracked : Tracked},
      pair ∈ ((entry.messages.toList.filter fun pair => pair.2.state = .available).map
        fun pair => (pair.2.sequence, pair.1)).insertionSort deliveredFirst →
      entry.messages[pair.2]? = some tracked → pair.1 = tracked.sequence := by
    intro pair tracked member stored
    rw [mem_insertionSort] at member
    obtain ⟨⟨id, other⟩, inList, rfl⟩ := mem_map.mp member
    have storedOther := mem_toList_iff_getElem?_eq_some.mp (mem_filter.mp inList).1
    rw [stored, Option.some.injEq] at storedOther
    rw [storedOther]
  rw [← sequenced inFirst storedLeft, ← sequenced inSecond storedRight]
  exact before

def OwnIds (entry : SubscriptionEntry) : Prop :=
  ∀ (id : Nat) (tracked : Tracked), entry.messages[id]? = some tracked → tracked.message.id = id

section

variable (own : entry.OwnIds)
include own

theorem take_ids (maxMessages : Int) (firstAck : Nat) (now : Moment) :
    (entry.take maxMessages firstAck now).2.map (fun lease => lease.message.id) =
      (entry.candidates.filter (eligible entry.blockedKeys entry.messages)).take
        maxMessages.toNat :=
  takeFrom_ids (nodup_candidates entry) _ _ own

theorem mem_take_ids
    (member : id ∈ (entry.take maxMessages firstAck now).2.map fun lease => lease.message.id) :
    id ∈ entry.candidates ∧ eligible entry.blockedKeys entry.messages id = true := by
  rw [take_ids own] at member
  exact mem_filter.mp (mem_of_mem_take member)

theorem mem_front_of_take {front back : List Nat} {other : Nat}
    (taken : (entry.take maxMessages firstAck now).2.map (fun lease => lease.message.id) =
      front ++ id :: back)
    {tracked trackedOther : Tracked} (stored : entry.messages[id]? = some tracked)
    (storedOther : entry.messages[other]? = some trackedOther)
    (available : trackedOther.state = .available)
    (sameKey : trackedOther.orderingKey = tracked.orderingKey)
    (earlier : trackedOther.sequence < tracked.sequence) : other ∈ front := by
  have chosen : id ∈ (entry.take maxMessages firstAck now).2.map fun lease => lease.message.id := by
    rw [taken]
    simp
  have free := (mem_take_ids own chosen).2
  have freeOther : eligible entry.blockedKeys entry.messages other = true := by
    unfold eligible at free ⊢
    rw [stored, Option.any_some] at free
    rw [storedOther, Option.any_some, sameKey, free]
  rw [take_ids own] at taken
  have whole : entry.candidates.filter (eligible entry.blockedKeys entry.messages) =
      front ++ id :: (back ++ (entry.candidates.filter
        (eligible entry.blockedKeys entry.messages)).drop maxMessages.toNat) := by
    rw [← cons_append, ← append_assoc, ← taken, take_append_drop]
  have ordered := (pairwise_candidates entry).filter (eligible entry.blockedKeys entry.messages)
  have member : other ∈ entry.candidates.filter (eligible entry.blockedKeys entry.messages) :=
    mem_filter.mpr ⟨mem_candidates.mpr ⟨trackedOther, storedOther, available⟩, freeOther⟩
  rw [whole] at ordered member
  refine mem_front_of_pairwise ordered member ?_ ?_
  · rintro rfl
    rw [stored, Option.some.injEq] at storedOther
    rw [storedOther] at earlier
    exact lt_irrefl _ earlier
  · intro precedes
    have := precedes tracked trackedOther stored storedOther
    unfold deliveredFirst at this
    omega

theorem not_leased_of_take (ordered : entry.subscription.enableMessageOrdering = true) {other : Nat}
    (chosen : id ∈ (entry.take maxMessages firstAck now).2.map fun lease => lease.message.id)
    {tracked trackedOther : Tracked} (stored : entry.messages[id]? = some tracked)
    (storedOther : entry.messages[other]? = some trackedOther)
    (keyed : tracked.orderingKey ≠ []) (sameKey : trackedOther.orderingKey = tracked.orderingKey) :
    trackedOther.state.isLeased = false := by
  by_contra leased
  have free := (mem_take_ids own chosen).2
  have blocked : tracked.orderingKey ∈ entry.blockedKeys := by
    unfold blockedKeys
    rw [if_pos ordered, mem_filter]
    refine ⟨mem_map.mpr ⟨(other, trackedOther), mem_filter.mpr ⟨?_, by simpa using leased⟩,
      sameKey⟩, by simpa using keyed⟩
    exact mem_toList_iff_getElem?_eq_some.mpr storedOther
  unfold eligible at free
  rw [stored] at free
  simp [blocked, keyed] at free

end

end SubscriptionEntry

namespace Broker

def due (now : Moment) (inFlight : List (Text × Nat)) (name : Text) (pair : Nat × Tracked) : Bool :=
  (match pair.2.state with
    | .pushing nextAttempt => decide (nextAttempt ≤ now.instant)
    | _ => false) && !inFlight.contains (name, pair.2.message.id)

theorem dueJobs_ids {now : Moment} {inFlight : List (Text × Nat)} {name : Text}
    {entry : SubscriptionEntry} (own : entry.OwnIds) (push : entry.isPush = true) :
    (dueJobs now inFlight name entry).map PushJob.messageId =
      (entry.messages.toList.filter (due now inFlight name)).map Prod.fst := by
  unfold dueJobs
  rw [if_pos push, map_map]
  refine map_congr_left ?_
  intro pair member
  exact own pair.1 pair.2
    (mem_toList_iff_getElem?_eq_some.mp (mem_filter.mp member).1)

theorem pairwise_dueJobs (now : Moment) (inFlight : List (Text × Nat)) (name : Text)
    {entry : SubscriptionEntry} (own : entry.OwnIds) (push : entry.isPush = true) :
    ((dueJobs now inFlight name entry).map PushJob.messageId).Pairwise (· < ·) := by
  rw [dueJobs_ids own push, pairwise_map]
  refine Pairwise.filter _ ?_
  have ordered := Std.ExtTreeMap.ordered_keys_toList (t := entry.messages)
  exact ordered.imp fun before => compare_lt_iff_lt.mp before

theorem tick_jobs (externals : Externals) (now : Moment) (broker : Broker) (name : Text) :
    (broker.tick externals now).2.filter (fun job => job.subscription = name) =
      (tickFrom now broker.subscriptions.toList broker).2.2.filter
        fun job => job.subscription = name := by
  rfl

theorem tick_inFlight (externals : Externals) (now : Moment) (broker : Broker) :
    (broker.tick externals now).1.inFlight = broker.inFlight ++
      (broker.tick externals now).2.map fun job => (job.subscription, job.messageId) := by
  have flights := (forwardDeadLetters_rest externals now
    (tickFrom now broker.subscriptions.toList broker).2.1 _).1.trans
    (tickFrom_rest now broker.subscriptions.toList broker).2.2.1
  unfold tick
  dsimp only
  rw [flights]
  split_ifs <;> rfl

end Broker

/-! ## The invariant -/

/-- The state of a message that was never delivered: waiting, and due at once. -/
def SubscriptionEntry.Ready (clock : Nat) (state : MessageState) : Prop :=
  if entry.isPush then ∃ nextAttempt ≤ clock, state = .pushing nextAttempt else state = .available

/-- What holds of the backlog of a subscription: `delivered` are the ids ever handed out
under its name, `life` those handed out since it was created. -/
structure Backlog (entry : SubscriptionEntry) (clock : Nat) (delivered life : List Nat) : Prop where
  /-- A message that was never delivered still has its place and is deliverable. -/
  waiting : ∀ (id : Nat) (tracked : Tracked), entry.messages[id]? = some tracked →
    id ∉ delivered → tracked.sequence = id ∧ entry.Ready clock tracked.state
  /-- Only deliveries of this subscription end in redelivery. -/
  placed : ∀ (id : Nat) (tracked : Tracked), entry.messages[id]? = some tracked →
    id ∉ life → tracked.sequence = id
  leased : ∀ (id : Nat) (tracked : Tracked), entry.messages[id]? = some tracked →
    tracked.state.isLeased = true → id ∈ life
  pushing : ∀ (id : Nat) (tracked : Tracked), entry.messages[id]? = some tracked →
    entry.isPush = true → tracked.state ≠ .available
  /-- Once a message was delivered, so were the earlier ones of its key. -/
  ordered : ∀ (early late : Nat) (earlier later : Tracked),
    entry.messages[early]? = some earlier → entry.messages[late]? = some later →
    early < late → earlier.orderingKey = later.orderingKey → late ∈ life →
    earlier.state = .acked ∨ early ∈ delivered

structure InOrder (name : Text) (watched : Watched) (life : List Nat) : Prop where
  numbered : Numbered watched.broker
  known : ∀ id ∈ watched.delivered, id < watched.broker.nextMessageId
  flying : ∀ id, (name, id) ∈ watched.broker.inFlight → id ∈ watched.delivered
  living : life ⊆ watched.delivered
  backlog : ∀ entry, watched.broker.subscriptions[name]? = some entry →
    Backlog entry watched.broker.clock watched.delivered life

theorem inOrder_start (name : Text) (sequence : Nat) : InOrder name (.start sequence) [] where
  numbered := numbered_new sequence
  known := by simp [start]
  flying := by simp [start, Broker.new]
  living := nil_subset _
  backlog := by simp [start, Broker.new]

section Deliveries

variable {externals : Externals} {name : Text} {watched : Watched} {life : List Nat}
  {request : Request} {entry : SubscriptionEntry} {id : Nat}

theorem InOrder.ownIds (inOrder : InOrder name watched life)
    (found : watched.broker.subscriptions[name]? = some entry) : entry.OwnIds :=
  fun id tracked stored => (inOrder.numbered.tracked name entry id tracked found stored).1

theorem deliveredBy_cases (externals : Externals) (name : Text) (broker : Broker)
    (request : Request) :
    broker.deliveredBy externals name request = [] ∨
    (∃ maxMessages after entry, request.operation = .pull name maxMessages ∧
      broker.subscriptions[name]? = some entry ∧
      broker.pull (broker.moment request) name maxMessages =
        .ok (after, (entry.take maxMessages broker.nextAck (broker.moment request)).2) ∧
      broker.deliveredBy externals name request =
        (entry.take maxMessages broker.nextAck (broker.moment request)).2.map
          fun lease => lease.message.id) ∨
    ∃ entry sequence, request.operation = .tick ∧ broker.subscriptions[name]? = some entry ∧
      entry.isPush = true ∧
      broker.deliveredBy externals name request =
        (Broker.dueJobs (broker.moment request) broker.inFlight name
          (entry.expire (broker.moment request) sequence).1).map PushJob.messageId := by
  unfold Broker.deliveredBy
  cases asked : request.operation with
  | pull subscription maxMessages =>
    dsimp only
    split_ifs with same
    · subst same
      cases result : broker.pull (broker.moment request) subscription maxMessages with
      | error failure => exact .inl rfl
      | ok pair =>
        obtain ⟨after, leases⟩ := pair
        obtain ⟨entry, found, rfl, -⟩ := Broker.pull_ok result
        exact .inr (.inl ⟨maxMessages, after, entry, rfl, found, result, rfl⟩)
    · exact .inl rfl
  | tick =>
    rw [Broker.tick_jobs]
    cases found : broker.subscriptions[name]? with
    | none =>
      obtain ⟨-, -, -, -, rest⟩ := Broker.tickFrom_rest (broker.moment request)
        broker.subscriptions.toList broker
      left
      rw [(rest name (broker.not_mem_toList found)).2, map_nil]
    | some entry =>
      obtain ⟨sequence, -, -, jobs⟩ := Broker.tickFrom_entry (broker.moment request)
        (nodup_keys _) (mem_toList_iff_getElem?_eq_some.mpr found) broker _ rfl
      rw [jobs]
      cases push : entry.isPush with
      | true => exact .inr (.inr ⟨entry, sequence, rfl, rfl, push, rfl⟩)
      | false =>
        left
        have mode : (entry.expire (broker.moment request) sequence).1.isPush = false := by
          rw [← push]
          exact (sameButBacklog_modifyDeadlines ..).isPush
        rw [Broker.dueJobs, if_neg (by rw [mode]; exact Bool.false_ne_true), map_nil]
  | _ => exact .inl rfl

theorem getElem?_expire_of_not_leased {tracked : Tracked}
    (stored : entry.messages[id]? = some tracked) (free : tracked.state.isLeased = false)
    (now : Moment) (sequence : Nat) :
    (entry.expire now sequence).1.messages[id]? = some tracked := by
  rcases getElem?_modifyDeadlines (fun _ id => some id) 0 now (entry.expiredLeases now) sequence
      entry id with kept | ⟨other, ack, deadline, storedOther, state, -⟩
  · exact kept.trans stored
  · rw [stored, Option.some.injEq] at storedOther
    rw [storedOther, state] at free
    cases free

theorem tracked_of_expire {now : Moment} {sequence : Nat}
    {tracked : Tracked} (stored : (entry.expire now sequence).1.messages[id]? = some tracked) :
    ∃ before, entry.messages[id]? = some before ∧ tracked.message = before.message := by
  rcases getElem?_modifyDeadlines (fun _ id => some id) 0 now (entry.expiredLeases now) sequence
      entry id with kept | ⟨before, ack, deadline, storedBefore, state, released⟩
  · exact ⟨tracked, kept ▸ stored, rfl⟩
  · refine ⟨before, storedBefore, ?_⟩
    rw [expire] at stored
    rw [stored] at released
    cases released <;> rfl

theorem ownIds_expire (own : entry.OwnIds) (now : Moment)
    (sequence : Nat) : (entry.expire now sequence).1.OwnIds := by
  intro id tracked stored
  obtain ⟨before, storedBefore, same⟩ := tracked_of_expire stored
  rw [same]
  exact own id before storedBefore

theorem expire_isPush (entry : SubscriptionEntry) (now : Moment) (sequence : Nat) :
    (entry.expire now sequence).1.isPush = entry.isPush :=
  (sameButBacklog_modifyDeadlines ..).isPush

theorem InOrder.tracked_of_delivered (inOrder : InOrder name watched life)
    (delivers : id ∈ watched.broker.deliveredBy externals name request) :
    ∃ entry tracked, watched.broker.subscriptions[name]? = some entry ∧
      entry.messages[id]? = some tracked := by
  rcases deliveredBy_cases externals name watched.broker request with
    none_ | ⟨maxMessages, after, entry, asked, found, answered, result⟩ |
      ⟨entry, sequence, asked, found, push, result⟩
  · rw [none_] at delivers
    cases delivers
  · rw [result] at delivers
    obtain ⟨tracked, stored, -⟩ :=
      mem_candidates.mp (mem_take_ids (inOrder.ownIds found) delivers).1
    exact ⟨entry, tracked, found, stored⟩
  · rw [result, Broker.dueJobs_ids (ownIds_expire (inOrder.ownIds found) _ _)
      (by rw [expire_isPush, push])] at delivers
    obtain ⟨⟨_, tracked⟩, member, rfl⟩ := mem_map.mp delivers
    obtain ⟨before, stored, -⟩ := tracked_of_expire
      (mem_toList_iff_getElem?_eq_some.mp (mem_filter.mp member).1)
    exact ⟨entry, before, found, stored⟩

theorem InOrder.earlier_delivered (inOrder : InOrder name watched life)
    (found : watched.broker.subscriptions[name]? = some entry)
    {front back : List Nat} {early late : Nat}
    (delivers : watched.broker.deliveredBy externals name request = front ++ late :: back)
    {earlier later : Tracked} (storedLate : entry.messages[late]? = some later)
    (storedEarly : entry.messages[early]? = some earlier) (before : early < late)
    (sameKey : earlier.orderingKey = later.orderingKey) :
    earlier.state = .acked ∨ early ∈ front ∨ early ∈ watched.delivered := by
  by_cases known : early ∈ watched.delivered
  · exact .inr (.inr known)
  have backlog := inOrder.backlog entry found
  obtain ⟨place, ready⟩ := backlog.waiting early earlier storedEarly known
  have own := inOrder.ownIds found
  rcases deliveredBy_cases externals name watched.broker request with
    none_ | ⟨maxMessages, after, same, asked, foundSame, answered, result⟩ |
      ⟨same, sequence, asked, foundSame, push, result⟩
  · rw [none_] at delivers
    simp at delivers
  · rw [found, Option.some.injEq] at foundSame
    subst foundSame
    rw [result] at delivers
    have chosen : late ∈ (entry.take maxMessages watched.broker.nextAck
        (watched.broker.moment request)).2.map fun lease => lease.message.id := by
      rw [delivers]
      simp
    obtain ⟨candidate, storedCandidate, available⟩ := mem_candidates.mp (mem_take_ids own chosen).1
    rw [storedLate, Option.some.injEq] at storedCandidate
    subst storedCandidate
    -- an available message means that the subscription is pulled
    have pulled : ¬entry.isPush = true := fun push =>
      backlog.pushing late later storedLate push available
    rw [Ready, if_neg pulled] at ready
    by_cases redelivered : late ∈ life
    · rcases backlog.ordered early late earlier later storedEarly storedLate before sameKey
          redelivered with acked | known
      · exact .inl acked
      · exact .inr (.inr known)
    · have placeLate := backlog.placed late later storedLate redelivered
      exact .inr (.inl (mem_front_of_take own delivers storedLate storedEarly ready sameKey
        (by omega)))
  · rw [found, Option.some.injEq] at foundSame
    subst foundSame
    rw [Ready, if_pos push] at ready
    obtain ⟨nextAttempt, reached, state⟩ := ready
    have ownExpired := ownIds_expire own (watched.broker.moment request) sequence
    have pushExpired : (entry.expire (watched.broker.moment request) sequence).1.isPush = true := by
      rw [expire_isPush, push]
    have ascending := Broker.pairwise_dueJobs (watched.broker.moment request)
      watched.broker.inFlight name ownExpired pushExpired
    have listed : early ∈ watched.broker.deliveredBy externals name request := by
      rw [result, Broker.dueJobs_ids ownExpired pushExpired]
      refine mem_map.mpr ⟨(early, earlier), mem_filter.mpr ⟨?_, ?_⟩, rfl⟩
      · rw [mem_toList_iff_getElem?_eq_some]
        exact getElem?_expire_of_not_leased storedEarly (by rw [state]; rfl) _ _
      · have grounded : (name, early) ∉ watched.broker.inFlight :=
          fun flying => known (inOrder.flying early flying)
        have later : nextAttempt ≤ (watched.broker.moment request).instant :=
          reached.trans (Nat.le_add_right ..)
        simp [Broker.due, state, later, own early earlier storedEarly, grounded]
    rw [← result, delivers] at ascending
    rw [delivers] at listed
    exact .inr (.inl (mem_front_of_pairwise ascending listed (by omega) (by omega)))

end Deliveries

/-! ## Steps -/

theorem Turn.origin {externals : Externals} {broker middle after : Broker}
    {operation : Operation} (turn : Turn externals now broker operation middle after)
    {name : Text} {later : SubscriptionEntry} (found : after.subscriptions[name]? = some later)
    {id : Nat} {tracked : Tracked} (stored : later.messages[id]? = some tracked) :
    (∃ message, tracked = later.arrival now message ∧ message.id = id ∧
      (broker.nextMessageId ≤ id ∨ broker.subscriptions[name]? = none)) ∨
    ∃ entry changed forwarded before, broker.subscriptions[name]? = some entry ∧
      entry.messages[id]? = some before ∧ changed.SameButBacklog later ∧
      Move now broker name operation entry changed forwarded id before (some tracked) := by
  obtain ⟨changed, messages, foundMiddle, fresh, rfl⟩ := grown_after (turn.delivered.entries _) found
  have same := sameButBacklog_trackAll now messages changed
  obtain ⟨forwarded, change, -⟩ := turn.changed name
  rw [foundMiddle] at change
  rcases getElem?_trackAll now messages changed id with kept | ⟨message, member, numbered, -, result⟩
  · rw [kept] at stored
    cases foundBefore : broker.subscriptions[name]? with
    | none =>
      rw [foundBefore] at change
      cases change with
      | founded filter asked topicStored valid =>
        obtain ⟨message, -, numbered, rfl⟩ := getElem?_founded stored
        exact .inl ⟨message, (same.arrival now message).symm, numbered, .inr rfl⟩
    | some entry =>
      rw [foundBefore] at change
      rcases change.moves id with ⟨-, absent⟩ | ⟨trackedBefore, before, move⟩
      · cases absent.symm.trans stored
      · rw [stored] at move
        exact .inr ⟨entry, changed, forwarded, trackedBefore, rfl, before, same, move⟩
  · rw [result] at stored
    cases stored
    refine .inl ⟨message, (same.arrival now message).symm, numbered, .inl ?_⟩
    rw [← numbered, ← turn.counter]
    exact (fresh message member).1

theorem arrival_ready (now : Moment) (message : StoredMessage) :
    entry.Ready now.instant (entry.arrival now message).state := by
  unfold Ready arrival waiting
  split
  · exact ⟨now.instant, le_refl _, rfl⟩
  · rfl

theorem arrival_not_leased (now : Moment) (message : StoredMessage) :
    (entry.arrival now message).state.isLeased = false := by
  unfold arrival waiting
  split <;> rfl

theorem arrival_not_available {entry : SubscriptionEntry} (push : entry.isPush = true)
    (now : Moment) (message : StoredMessage) :
    (entry.arrival now message).state ≠ .available := by
  rw [arrival, waiting, if_pos push]
  exact MessageState.noConfusion

theorem movedState_ready {entry changed : SubscriptionEntry}
    {clock : Nat} (reached : clock ≤ now.instant)
    (mode : changed.isPush = settings.isPush) (ready : entry.Ready clock state) :
    changed.Ready now.instant (entry.movedState now settings state) := by
  unfold Ready at ready ⊢
  rw [mode]
  unfold movedState
  cases before : entry.isPush with
  | false =>
    rw [before] at ready
    subst ready
    cases settings.isPush with
    | false => simp
    | true => exact ⟨now.instant, le_refl _, by simp⟩
  | true =>
    rw [before] at ready
    obtain ⟨nextAttempt, due, rfl⟩ := ready
    cases settings.isPush with
    | false => simp [isPushing]
    | true => exact ⟨nextAttempt, due.trans reached, by simp⟩

theorem movedState_leased {entry : SubscriptionEntry}
    (leased : (entry.movedState now settings state).isLeased = true) : state.isLeased = true := by
  unfold movedState at leased
  split_ifs at leased <;> first | exact leased | cases leased

theorem movedState_not_available {entry changed : SubscriptionEntry}
    (mode : changed.isPush = settings.isPush)
    (unavailable : entry.isPush = true → state ≠ .available) (push : changed.isPush = true) :
    entry.movedState now settings state ≠ .available := by
  unfold movedState
  rw [← mode, push]
  cases before : entry.isPush with
  | true => simpa using unavailable before
  | false =>
    by_cases available : state = .available
    · simp [available]
    · simp [available]

section Steps

variable {externals : Externals} {name : Text} {watched : Watched} {life : List Nat}
  {request : Request}

theorem mem_deliveredBy_of_leased (externals : Externals) {broker after : Broker} {maxMessages : Int}
    {leases : List Lease} {lease : Lease} (asked : request.operation = .pull name maxMessages)
    (answered : broker.pull (broker.moment request) name maxMessages = .ok (after, leases))
    (handed : lease ∈ leases) :
    lease.message.id ∈ broker.deliveredBy externals name request := by
  unfold Broker.deliveredBy
  rw [asked]
  simp only [answered]
  exact mem_map_of_mem handed

theorem not_sought (orderly : watched.Orderly name request)
    (asked : (∃ time, request.operation = .seekToTime name time) ∨
      ∃ snapshot, request.operation = .seekToSnapshot name snapshot) : False := by
  unfold Watched.Orderly at orderly
  rcases asked with ⟨time, asked⟩ | ⟨snapshot, asked⟩ <;> simp [asked] at orderly

theorem delivered_of_pushed (orderly : watched.Orderly name request) {job : PushJob}
    {delivered : Bool} (asked : request.operation = .recordPush job delivered)
    (named : job.subscription = name) : job.messageId ∈ watched.delivered := by
  unfold Watched.Orderly at orderly
  rw [asked] at orderly
  exact orderly named

variable (inOrder : InOrder name watched life) (orderly : watched.Orderly name request)
  {entry changed later : SubscriptionEntry} {forwarded : List Forwarded} {id : Nat}
  {before after : Tracked} (found : watched.broker.subscriptions[name]? = some entry)
  (stored : entry.messages[id]? = some before)
  (move : Move (watched.broker.moment request) watched.broker name request.operation entry changed
    forwarded id before (some after))

include inOrder orderly found stored move

theorem waiting_of_move (same : changed.SameButBacklog later)
    (undelivered : id ∉ watched.delivered ++ watched.broker.deliveredBy externals name request) :
    after.sequence = id ∧ later.Ready (watched.broker.moment request).instant after.state := by
  rw [mem_append, not_or] at undelivered
  have backlog := inOrder.backlog entry found
  obtain ⟨place, ready⟩ := backlog.waiting id before stored undelivered.1
  have free : before.state.isLeased = false := by
    by_contra leased
    exact undelivered.1 (inOrder.living (backlog.leased id before stored (by simpa using leased)))
  have reached : watched.broker.clock ≤ (watched.broker.moment request).instant :=
    Nat.le_add_right ..
  have readyLater : ∀ state, changed.Ready (watched.broker.moment request).instant state →
      later.Ready (watched.broker.moment request).instant state := by
    intro state readyChanged
    rw [Ready, same.isPush]
    exact readyChanged
  cases move with
  | kept mode =>
    refine ⟨place, readyLater _ ?_⟩
    rw [Ready, mode]
    unfold Ready at ready
    split_ifs at ready ⊢ with push
    · obtain ⟨nextAttempt, due, state⟩ := ready
      exact ⟨nextAttempt, due.trans reached, state⟩
    · exact ready
  | leased asked available answered handed =>
    have delivered := mem_deliveredBy_of_leased externals asked answered handed
    rw [inOrder.ownIds found id before stored] at delivered
    exact absurd delivered undelivered.2
  | acknowledged asked member parsed state | released mode state released =>
    rw [state] at free
    cases free
  | pushed asked named numbered state =>
    exact absurd (numbered ▸ delivered_of_pushed orderly asked named) undelivered.1
  | switched mode => exact ⟨place, readyLater _ (movedState_ready reached mode ready)⟩
  | sought asked => exact (not_sought orderly asked).elim

omit orderly in
theorem placed_of_move
    (undelivered : id ∉ life ++ watched.broker.deliveredBy externals name request) :
    after.sequence = id := by
  rw [mem_append, not_or] at undelivered
  have backlog := inOrder.backlog entry found
  have place := backlog.placed id before stored undelivered.1
  cases move with
  | released mode state released =>
    exact absurd (backlog.leased id before stored (by rw [state]; rfl)) undelivered.1
  | _ => exact place

theorem leased_of_move (leased : after.state.isLeased = true) :
    id ∈ life ++ watched.broker.deliveredBy externals name request := by
  have backlog := inOrder.backlog entry found
  have leasedBefore : before.state.isLeased = true →
      id ∈ life ++ watched.broker.deliveredBy externals name request :=
    fun held => mem_append_left _ (backlog.leased id before stored held)
  cases move with
  | kept => exact leasedBefore leased
  | leased asked available answered handed =>
    have delivered := mem_deliveredBy_of_leased externals asked answered handed
    rw [inOrder.ownIds found id before stored] at delivered
    exact mem_append_right _ delivered
  | acknowledged => cases leased
  | released mode state => exact leasedBefore (by rw [state]; rfl)
  | @pushed job delivered => cases delivered <;> cases leased
  | switched => exact leasedBefore (movedState_leased leased)
  | sought asked => exact (not_sought orderly asked).elim

theorem pushing_of_move (push : changed.isPush = true) : after.state ≠ .available := by
  have backlog := inOrder.backlog entry found
  have unavailable := backlog.pushing id before stored
  cases move with
  | kept mode => exact unavailable (mode ▸ push)
  | leased | acknowledged => exact MessageState.noConfusion
  | released mode state released =>
    cases released with
    | extended => exact MessageState.noConfusion
    | requeued =>
      rw [waiting, if_pos (mode ▸ push)]
      exact MessageState.noConfusion
  | @pushed job delivered => cases delivered <;> exact MessageState.noConfusion
  | switched mode => exact movedState_not_available mode unavailable push
  | sought asked => exact (not_sought orderly asked).elim

omit inOrder found stored in
theorem acked_of_move (acked : before.state = .acked) : after.state = .acked := by
  cases move with
  | kept => exact acked
  | leased asked available => rw [acked] at available; cases available
  | acknowledged => rfl
  | released mode state | pushed asked named numbered state => rw [acked] at state; cases state
  | switched =>
    unfold movedState
    rw [acked]
    simp [isPushing]
  | sought asked => exact (not_sought orderly asked).elim

end Steps

section Runs

variable {externals : Externals} {name : Text} {watched : Watched} {life : List Nat}
  {request : Request}

theorem InOrder.known_of_delivered (inOrder : InOrder name watched life) (externals : Externals)
    (request : Request) {id : Nat}
    (delivers : id ∈ watched.delivered ++ watched.broker.deliveredBy externals name request) :
    id < watched.broker.nextMessageId := by
  rcases mem_append.mp delivers with old | new
  · exact inOrder.known id old
  · obtain ⟨entry, tracked, found, stored⟩ := inOrder.tracked_of_delivered new
    exact (inOrder.numbered.tracked name entry id tracked found stored).2

theorem InOrder.backlog_step (inOrder : InOrder name watched life)
    (orderly : watched.Orderly name request) {entry later : SubscriptionEntry}
    (found : watched.broker.subscriptions[name]? = some entry)
    (foundLater : (watched.step externals name request).broker.subscriptions[name]? = some later) :
    Backlog later (watched.broker.moment request).instant
      (watched.delivered ++ watched.broker.deliveredBy externals name request)
      (life ++ watched.broker.deliveredBy externals name request) := by
  obtain ⟨middle, turn⟩ := watched.broker.perform_turn externals (watched.broker.moment request)
    request.operation
  have origin : ∀ {id : Nat} {tracked : Tracked}, later.messages[id]? = some tracked →
      (∃ message, tracked = later.arrival (watched.broker.moment request) message ∧
        message.id = id ∧ watched.broker.nextMessageId ≤ id) ∨
      ∃ changed forwarded before, entry.messages[id]? = some before ∧
        changed.SameButBacklog later ∧ Move (watched.broker.moment request) watched.broker name
          request.operation entry changed forwarded id before (some tracked) := by
    intro id tracked stored
    rcases turn.origin foundLater stored with
      ⟨message, rfl, numbered, fresh | absent⟩ | ⟨same, changed, forwarded, before, foundSame, rest⟩
    · exact .inl ⟨message, rfl, numbered, fresh⟩
    · rw [found] at absent
      cases absent
    · rw [found, Option.some.injEq] at foundSame
      subst foundSame
      exact .inr ⟨changed, forwarded, before, rest⟩
  constructor
  · intro id tracked stored undelivered
    rcases origin stored with ⟨message, rfl, numbered, -⟩ | ⟨changed, forwarded, before, old, same, move⟩
    · exact ⟨numbered, arrival_ready ..⟩
    · exact waiting_of_move inOrder orderly found old move same undelivered
  · intro id tracked stored undelivered
    rcases origin stored with ⟨message, rfl, numbered, -⟩ | ⟨changed, forwarded, before, old, same, move⟩
    · exact numbered
    · exact placed_of_move inOrder found old move undelivered
  · intro id tracked stored leased
    rcases origin stored with ⟨message, rfl, -, -⟩ | ⟨changed, forwarded, before, old, same, move⟩
    · rw [arrival_not_leased] at leased
      cases leased
    · exact leased_of_move inOrder orderly found old move leased
  · intro id tracked stored push
    rcases origin stored with ⟨message, rfl, -, -⟩ | ⟨changed, forwarded, before, old, same, move⟩
    · exact arrival_not_available push _ _
    · exact pushing_of_move inOrder orderly found old move (same.isPush ▸ push)
  · intro early late earlier lateTracked storedEarly storedLate before sameKey delivered
    have known : late < watched.broker.nextMessageId := by
      refine inOrder.known_of_delivered externals request ?_
      rcases mem_append.mp delivered with old | new
      · exact mem_append_left _ (inOrder.living old)
      · exact mem_append_right _ new
    -- both messages are older than the request, so both were tracked before it
    rcases origin storedLate with ⟨_, -, -, fresh⟩ | ⟨changed, forwarded, lateBefore, oldLate, -, moveLate⟩
    · omega
    rcases origin storedEarly with ⟨_, -, -, fresh⟩ | ⟨changed, forwarded, earlyBefore, oldEarly, -, moveEarly⟩
    · omega
    have keys : earlyBefore.orderingKey = lateBefore.orderingKey := by
      unfold Tracked.orderingKey at sameKey ⊢
      rwa [moveEarly.message rfl, moveLate.message rfl] at sameKey
    rcases mem_append.mp delivered with old | new
    · rcases (inOrder.backlog entry found).ordered early late earlyBefore lateBefore oldEarly oldLate
          before keys old with acked | delivered
      · exact .inl (acked_of_move orderly moveEarly acked)
      · exact .inr (mem_append_left _ delivered)
    · obtain ⟨front, back, parts⟩ := append_of_mem new
      rcases inOrder.earlier_delivered found parts oldLate oldEarly before keys with
        acked | inFront | delivered
      · exact .inl (acked_of_move orderly moveEarly acked)
      · refine .inr (mem_append_right _ ?_)
        rw [parts]
        exact mem_append_left _ inFront
      · exact .inr (mem_append_left _ delivered)

theorem backlog_founded {later : SubscriptionEntry} (absent : watched.broker.subscriptions[name]? = none)
    (foundLater : (watched.step externals name request).broker.subscriptions[name]? = some later)
    (delivered : List Nat) :
    Backlog later (watched.broker.moment request).instant delivered [] := by
  obtain ⟨middle, turn⟩ := watched.broker.perform_turn externals (watched.broker.moment request)
    request.operation
  have origin : ∀ {id : Nat} {tracked : Tracked}, later.messages[id]? = some tracked →
      ∃ message, tracked = later.arrival (watched.broker.moment request) message ∧
        message.id = id := by
    intro id tracked stored
    rcases turn.origin foundLater stored with
      ⟨message, rfl, numbered, -⟩ | ⟨same, changed, forwarded, before, foundSame, rest⟩
    · exact ⟨message, rfl, numbered⟩
    · rw [absent] at foundSame
      cases foundSame
  constructor
  · intro id tracked stored _
    obtain ⟨message, rfl, numbered⟩ := origin stored
    exact ⟨numbered, arrival_ready ..⟩
  · intro id tracked stored _
    obtain ⟨message, rfl, numbered⟩ := origin stored
    exact numbered
  · intro id tracked stored leased
    obtain ⟨message, rfl, -⟩ := origin stored
    rw [arrival_not_leased] at leased
    cases leased
  · intro id tracked stored push
    obtain ⟨message, rfl, -⟩ := origin stored
    exact arrival_not_available push _ _
  · intro _ _ _ _ _ _ _ _
    nofun

theorem InOrder.step (inOrder : InOrder name watched life)
    (orderly : watched.Orderly name request) :
    ∃ later, InOrder name (watched.step externals name request) later := by
  obtain ⟨middle, turn⟩ := watched.broker.perform_turn externals (watched.broker.moment request)
    request.operation
  have numbered := numbered_step externals watched.broker request inOrder.numbered
  have counter : watched.broker.nextMessageId ≤
      (watched.step externals name request).broker.nextMessageId := by
    have grows := turn.delivered.counter
    rw [turn.counter] at grows
    exact grows
  have known : ∀ id ∈ (watched.step externals name request).delivered,
      id < (watched.step externals name request).broker.nextMessageId :=
    fun id delivers => (inOrder.known_of_delivered externals request delivers).trans_le counter
  have flying : ∀ id, (name, id) ∈ (watched.step externals name request).broker.inFlight →
      id ∈ (watched.step externals name request).delivered := by
    intro id inFlight
    by_cases timer : request.operation = .tick
    · have flights : (watched.step externals name request).broker.inFlight =
          (watched.broker.tick externals (watched.broker.moment request)).1.inFlight := by
        unfold Watched.step Broker.step Broker.perform
        rw [timer]
      rw [flights, Broker.tick_inFlight, mem_append] at inFlight
      refine mem_append.mpr ?_
      rcases inFlight with old | new
      · exact .inl (inOrder.flying id old)
      · right
        obtain ⟨job, member, same⟩ := mem_map.mp new
        cases same
        unfold Broker.deliveredBy
        rw [timer]
        exact mem_map_of_mem (mem_filter.mpr ⟨member, by simp⟩)
    · exact mem_append_left _ (inOrder.flying id (turn.flights timer inFlight))
  cases found : watched.broker.subscriptions[name]? with
  | none =>
    exact ⟨[], numbered, known, flying, nil_subset _, fun later foundLater =>
      backlog_founded found foundLater _⟩
  | some entry =>
    refine ⟨life ++ watched.broker.deliveredBy externals name request, numbered, known, flying, ?_,
      fun later foundLater => inOrder.backlog_step orderly found foundLater⟩
    intro id member
    rcases mem_append.mp member with old | new
    · exact mem_append_left _ (inOrder.living old)
    · exact mem_append_right _ new

theorem inOrder_run (externals : Externals) (name : Text) (sequence : Nat) {requests : List Request}
    (orderly : AllSteps (step externals name) (Watched.Orderly name)
      (.start sequence) requests) :
    ∃ life, InOrder name (run (step externals name) (.start sequence) requests) life := by
  refine invariant_run (fun watched => ∃ life, InOrder name watched life) ?_
    ⟨[], inOrder_start name sequence⟩ orderly
  rintro watched request orderly ⟨life, inOrder⟩
  exact inOrder.step orderly

end Runs

/-- In a run without seeks of the subscription, whenever a message with an ordering key is
delivered, each earlier tracked message of the key has been acknowledged or delivered
before it, and a pull delivers it only while no message of the key is leased. -/
theorem ordering_keys_respected (externals : Externals) (sequence : Nat) (name : Text)
    (requests : List Request)
    (orderly : Runs.AllSteps (step externals name) (Watched.Orderly name)
      (.start sequence) requests)
    (request : Request) (entry : SubscriptionEntry)
    (found : (run (step externals name) (.start sequence)
      requests).broker.subscriptions[name]? = some entry)
    (ordering : entry.subscription.enableMessageOrdering = true)
    (front back : List Nat) (id : Nat)
    (delivers : (run (step externals name) (.start sequence)
      requests).broker.deliveredBy externals name request = front ++ id :: back)
    (tracked : Tracked) (stored : entry.messages[id]? = some tracked)
    (keyed : tracked.orderingKey ≠ []) :
    (∀ (early : Nat) (earlier : Tracked), early < id → entry.messages[early]? = some earlier →
      earlier.orderingKey = tracked.orderingKey →
      earlier.state = .acked ∨ early ∈ front ∨
        early ∈ (run (step externals name) (.start sequence) requests).delivered) ∧
    ∀ maxMessages, request.operation = .pull name maxMessages →
      ∀ (other : Nat) (held : Tracked), entry.messages[other]? = some held →
        held.orderingKey = tracked.orderingKey → held.state.isLeased = false := by
  obtain ⟨life, inOrder⟩ := inOrder_run externals name sequence orderly
  constructor
  · intro early earlier before storedEarly sameKey
    exact inOrder.earlier_delivered found delivers stored storedEarly before sameKey
  · intro maxMessages asked other held storedOther sameKey
    rcases deliveredBy_cases externals name (run (step externals name)
        (.start sequence) requests).broker request with
      none_ | ⟨room, after, same, -, foundSame, answered, result⟩ | ⟨_, _, timer, _⟩
    · rw [none_] at delivers
      simp at delivers
    · rw [found, Option.some.injEq] at foundSame
      subst foundSame
      have chosen : id ∈ (run (step externals name) (.start sequence)
          requests).broker.deliveredBy externals name request := by
        rw [delivers]
        simp
      rw [result] at chosen
      exact not_leased_of_take (inOrder.ownIds found) ordering chosen stored storedOther keyed
        sameKey
    · rw [asked] at timer
      cases timer

/-! ## Redelivery queues behind later messages -/

namespace Sample

def orderedSetup : List Request :=
  [{ operation := .createTopic { name := orders } },
   { operation := .createSubscription
      { name := work, topic := orders, enableMessageOrdering := true } }]

def publishingTwo : Request :=
  { operation := .publish orders
      [{ data := [1], orderingKey := ['k'] }, { data := [2], orderingKey := ['k'] }] }

def redelivery : List Request := orderedSetup ++ [publishingTwo, pulling, nacking 1]

def watchedAfter (requests : List Request) : Watched :=
  run (step externals work) (.start (2 ^ 40)) requests

theorem redelivery_orderly : AllSteps (step externals work) (Watched.Orderly work)
    (.start (2 ^ 40)) redelivery := by
  decide +kernel

theorem redelivery_computed :
    (watchedAfter redelivery).broker.deliveredBy externals work pulling = [2] ∧
    ((watchedAfter redelivery).broker.subscriptions[work]?.any fun entry =>
      entry.subscription.enableMessageOrdering && entry.messages[1]?.any fun first =>
        entry.messages[2]?.any fun second =>
          (first.state = .available && first.orderingKey = ['k']) &&
            second.orderingKey = ['k']) = true := by
  decide +kernel

end Sample

open Sample

theorem ordering_keys_respected_sample :
    ∃ entry tracked,
      (watchedAfter redelivery).broker.subscriptions[work]? = some entry ∧
      entry.messages[2]? = some tracked ∧
      (∀ (early : Nat) (earlier : Tracked), early < 2 → entry.messages[early]? = some earlier →
        earlier.orderingKey = tracked.orderingKey →
        earlier.state = .acked ∨ early ∈ ([] : List Nat) ∨
          early ∈ (watchedAfter redelivery).delivered) ∧
      ∀ maxMessages, pulling.operation = .pull work maxMessages →
        ∀ (other : Nat) (held : Tracked), entry.messages[other]? = some held →
          held.orderingKey = tracked.orderingKey → held.state.isLeased = false := by
  obtain ⟨entry, found, inEntry⟩ := Option.any_eq_true _ _ |>.mp redelivery_computed.2
  obtain ⟨ordering, inMessages⟩ := Bool.and_eq_true_iff.mp inEntry
  obtain ⟨first, storedFirst, inFirst⟩ := Option.any_eq_true _ _ |>.mp inMessages
  obtain ⟨second, storedSecond, holds⟩ := Option.any_eq_true _ _ |>.mp inFirst
  simp only [Bool.and_eq_true, decide_eq_true_eq] at holds
  exact ⟨entry, second, found, storedSecond, ordering_keys_respected externals (2 ^ 40)
    work redelivery redelivery_orderly pulling entry found ordering [] []
    2 redelivery_computed.1 second storedSecond (by rw [holds.2]; exact cons_ne_nil _ _)⟩

/-- A nacked message is overtaken by a later one of its key: when the later one is
delivered, the earlier one is tracked, neither acknowledged nor part of the response. -/
theorem redelivery_overtaken :
    Runs.AllSteps (step externals work) (Watched.Orderly work)
      (.start (2 ^ 40)) redelivery ∧
    ∃ entry earlier tracked,
      (watchedAfter redelivery).broker.subscriptions[work]? = some entry ∧
      entry.subscription.enableMessageOrdering = true ∧
      (watchedAfter redelivery).broker.deliveredBy externals work
        pulling = [] ++ 2 :: [] ∧
      entry.messages[2]? = some tracked ∧ tracked.orderingKey ≠ [] ∧
      entry.messages[1]? = some earlier ∧ earlier.orderingKey = tracked.orderingKey ∧
      earlier.state = .available ∧ 1 ∉ ([] : List Nat) := by
  refine ⟨redelivery_orderly, ?_⟩
  obtain ⟨entry, found, inEntry⟩ := Option.any_eq_true _ _ |>.mp redelivery_computed.2
  obtain ⟨ordering, inMessages⟩ := Bool.and_eq_true_iff.mp inEntry
  obtain ⟨first, storedFirst, inFirst⟩ := Option.any_eq_true _ _ |>.mp inMessages
  obtain ⟨second, storedSecond, holds⟩ := Option.any_eq_true _ _ |>.mp inFirst
  simp only [Bool.and_eq_true, decide_eq_true_eq] at holds
  refine ⟨entry, first, second, found, ordering, redelivery_computed.1, storedSecond, ?_,
    storedFirst, ?_, holds.1.1, not_mem_nil⟩
  · rw [holds.2]
    exact cons_ne_nil _ _
  · rw [holds.1.2, holds.2]

end Firenook.Pubsub
