import Firenook.PubsubBroker
import Firenook.Runs

/-!
# What an operation does to a message

The backlog of a subscription changes message by message.  `Moves` lists everything that
one operation can do to one tracked message, with the operation that does it; every
property of the backlog over runs is read off this list.
-/

namespace Firenook.Pubsub

open OrderedMaps List

namespace SubscriptionEntry

variable {entry : SubscriptionEntry} {now : Moment}

/-! ## Tracking -/

variable {id : Nat}

def arrival (entry : SubscriptionEntry) (now : Moment) (message : StoredMessage) : Tracked :=
  ⟨message, entry.waiting now, 0, message.id⟩

def SameButBacklog (first second : SubscriptionEntry) : Prop :=
  { second with messages := first.messages } = first

theorem SameButBacklog.refl (entry : SubscriptionEntry) : SameButBacklog entry entry := rfl

theorem SameButBacklog.trans {first second third : SubscriptionEntry}
    (left : SameButBacklog first second) (right : SameButBacklog second third) :
    SameButBacklog first third := by
  unfold SameButBacklog at *
  rw [← left, ← right]

theorem sameButBacklog_messages (entry : SubscriptionEntry) (messages : Messages) :
    SameButBacklog entry { entry with messages } := rfl

theorem sameButBacklog_track (now : Moment) (entry : SubscriptionEntry) (message : StoredMessage) :
    SameButBacklog entry (entry.track now message) := by
  unfold track
  split
  · exact sameButBacklog_messages ..
  · exact .refl _

section Same

variable {first second : SubscriptionEntry} (same : SameButBacklog first second)

include same

theorem SameButBacklog.subscription : second.subscription = first.subscription := by
  rw [← same]

theorem SameButBacklog.filter : second.filter = first.filter := by
  rw [← same]

theorem SameButBacklog.topicGeneration : second.topicGeneration = first.topicGeneration := by
  rw [← same]

theorem SameButBacklog.topicDeleted : second.topicDeleted = first.topicDeleted := by
  rw [← same]

theorem SameButBacklog.isPush : second.isPush = first.isPush :=
  congrArg Subscription.isPush same.subscription

theorem SameButBacklog.waiting (now : Moment) : second.waiting now = first.waiting now := by
  unfold SubscriptionEntry.waiting
  rw [same.isPush]

theorem SameButBacklog.passes (message : StoredMessage) :
    second.passes message = first.passes message := by
  unfold SubscriptionEntry.passes
  rw [same.filter]

theorem SameButBacklog.arrival (now : Moment) (message : StoredMessage) :
    second.arrival now message = first.arrival now message := by
  unfold SubscriptionEntry.arrival
  rw [same.waiting]

end Same

theorem getElem?_track (entry : SubscriptionEntry) (message : StoredMessage) (id : Nat) :
    (entry.track now message).messages[id]? =
      if entry.passes message = true ∧ message.id = id then some (entry.arrival now message)
      else entry.messages[id]? := by
  unfold track
  split
  · next passes =>
    rw [getElem?_insert_eq]
    simp only [passes, true_and]
    rfl
  · next fails => simp [fails]

theorem sameButBacklog_trackAll (now : Moment) (messages : List StoredMessage)
    (entry : SubscriptionEntry) : SameButBacklog entry (messages.foldl (track now) entry) := by
  induction messages generalizing entry with
  | nil => exact .refl _
  | cons message messages ih => exact (sameButBacklog_track now entry message).trans (ih _)

theorem getElem?_trackAll (now : Moment) (messages : List StoredMessage)
    (entry : SubscriptionEntry) (id : Nat) :
    (messages.foldl (track now) entry).messages[id]? = entry.messages[id]? ∨
    ∃ message ∈ messages, message.id = id ∧ entry.passes message = true ∧
      (messages.foldl (track now) entry).messages[id]? = some (entry.arrival now message) := by
  induction messages generalizing entry with
  | nil => exact .inl rfl
  | cons message messages ih =>
    have same := sameButBacklog_track now entry message
    rw [foldl_cons]
    rcases ih (entry.track now message) with kept | ⟨later, member, numbered, passes, found⟩
    · rw [kept, getElem?_track]
      split_ifs with here
      · exact .inr ⟨message, mem_cons_self .., here.2, here.1, rfl⟩
      · exact .inl rfl
    · rw [same.passes] at passes
      rw [same.arrival] at found
      exact .inr ⟨later, mem_cons_of_mem _ member, numbered, passes, found⟩

theorem getElem?_trackAll_of_mem (now : Moment) {messages : List StoredMessage}
    (distinct : messages.Pairwise fun first second => first.id ≠ second.id)
    {message : StoredMessage} (member : message ∈ messages) (entry : SubscriptionEntry)
    (passes : entry.passes message = true) :
    (messages.foldl (track now) entry).messages[message.id]? =
      some (entry.arrival now message) := by
  induction messages generalizing entry with
  | nil => cases member
  | cons first messages ih =>
    rw [pairwise_cons] at distinct
    have same := sameButBacklog_track now entry first
    rw [foldl_cons]
    rcases mem_cons.mp member with rfl | member
    · rcases getElem?_trackAll now messages (entry.track now message) message.id with
        kept | ⟨later, member, numbered, -, -⟩
      · rw [kept, getElem?_track, if_pos ⟨passes, rfl⟩]
      · exact absurd numbered.symm (distinct.1 later member)
    · rw [ih distinct.2 member _ (by rw [same.passes, passes]), same.arrival]

/-! ## Pulling -/

def leased (tracked : Tracked) (ack deadline : Nat) : Tracked :=
  { tracked with attempts := tracked.attempts + 1, state := .leased ack deadline }

theorem mem_candidates : id ∈ entry.candidates ↔ ∃ tracked, entry.messages[id]? = some tracked ∧
      tracked.state = .available := by
  unfold candidates
  simp only [mem_map, mem_insertionSort, mem_filter, Prod.exists,
    Std.ExtTreeMap.mem_toList_iff_getElem?_eq_some, decide_eq_true_eq, Prod.mk.injEq]
  constructor
  · rintro ⟨_, _, ⟨_, tracked, ⟨found, available⟩, rfl, rfl⟩, rfl⟩
    exact ⟨tracked, found, available⟩
  · rintro ⟨tracked, found, available⟩
    exact ⟨_, _, ⟨_, tracked, ⟨found, available⟩, rfl, rfl⟩, rfl⟩

theorem nodup_keys {α β : Type} {cmp : β → β → Ordering} [Std.TransCmp cmp] [Std.LawfulEqCmp cmp]
    (map : Std.ExtTreeMap β α cmp) : (map.toList.map Prod.fst).Nodup := by
  rw [nodup_iff_pairwise_ne, pairwise_map]
  apply Std.ExtTreeMap.distinct_keys_toList.imp
  intro first second distinct same
  simp [same] at distinct

theorem nodup_candidates (entry : SubscriptionEntry) : entry.candidates.Nodup := by
  unfold candidates
  have sorted := perm_insertionSort deliveredFirst
    ((entry.messages.toList.filter fun pair => pair.2.state = .available).map
      fun pair => (pair.2.sequence, pair.1))
  rw [(sorted.map Prod.snd).nodup_iff, map_map]
  exact (nodup_keys entry.messages).sublist (filter_sublist.map Prod.fst)

def eligible (blocked : List Text) (messages : Messages) (id : Nat) : Bool :=
  messages[id]?.any fun tracked =>
    !(!tracked.orderingKey.isEmpty && blocked.contains tracked.orderingKey)

def deliverable (entry : SubscriptionEntry) : List Nat :=
  entry.candidates.filter (eligible entry.blockedKeys entry.messages)

theorem exists_of_eligible {blocked : List Text} {messages : Messages}
    (free : eligible blocked messages id = true) : ∃ tracked, messages[id]? = some tracked := by
  unfold eligible at free
  cases found : messages[id]? with
  | none => simp [found] at free
  | some tracked => exact ⟨tracked, rfl⟩

theorem eligible_insert_of_ne {blocked : List Text} {messages : Messages} {other : Nat}
    {tracked : Tracked} (differs : other ≠ id) :
    eligible blocked (messages.insert other tracked) id = eligible blocked messages id := by
  rw [eligible, getElem?_insert_eq, if_neg differs, eligible]

section Take

variable {blocked : List Text} {deadline : Nat} {ids : List Nat} {messages : Messages}

theorem takeFrom_cons_of_eligible {id : Nat} {room ack : Nat}
    {tracked : Tracked} (found : messages[id]? = some tracked)
    (free : eligible blocked messages id = true) :
    takeFrom blocked deadline (id :: ids) (room + 1) ack messages =
      ((takeFrom blocked deadline ids room (ack + 1)
          (messages.insert id (leased tracked ack deadline))).1,
        ⟨tracked.message, ack, tracked.attempts + 1⟩ :: (takeFrom blocked deadline ids room (ack + 1)
          (messages.insert id (leased tracked ack deadline))).2) := by
  rw [eligible, found, Option.any_some, Bool.not_eq_true'] at free
  rw [takeFrom, found]
  simp only [free]
  rfl

theorem takeFrom_cons_of_not_eligible {id : Nat} {room ack : Nat}
    (held : eligible blocked messages id = false) :
    takeFrom blocked deadline (id :: ids) (room + 1) ack messages =
      takeFrom blocked deadline ids (room + 1) ack messages := by
  rw [takeFrom]
  split
  · rfl
  · next tracked found =>
    rw [eligible, found, Option.any_some, Bool.not_eq_false'] at held
    rw [if_pos held]

theorem getElem?_takeFrom (nodup : ids.Nodup) (room ack : Nat) (messages : Messages) (id : Nat) :
    (takeFrom blocked deadline ids room ack messages).1[id]? = messages[id]? ∨
    ∃ tracked number, id ∈ ids ∧ messages[id]? = some tracked ∧ ack ≤ number ∧
      ⟨tracked.message, number, tracked.attempts + 1⟩ ∈
        (takeFrom blocked deadline ids room ack messages).2 ∧
      (takeFrom blocked deadline ids room ack messages).1[id]? =
        some (leased tracked number deadline) := by
  induction ids generalizing room ack messages with
  | nil => exact .inl rfl
  | cons first ids ih =>
    rw [nodup_cons] at nodup
    cases room with
    | zero => exact .inl rfl
    | succ room =>
      cases free : eligible blocked messages first with
      | false =>
        rw [takeFrom_cons_of_not_eligible free]
        rcases ih nodup.2 (room + 1) ack messages with kept | ⟨tracked, number, member, rest⟩
        · exact .inl kept
        · exact .inr ⟨tracked, number, mem_cons_of_mem _ member, rest⟩
      | true =>
        obtain ⟨tracked, found⟩ := exists_of_eligible free
        rw [takeFrom_cons_of_eligible found free]
        rcases ih nodup.2 room (ack + 1) (messages.insert first (leased tracked ack deadline))
          with kept | ⟨later, number, member, stored, above, lease, result⟩
        · rw [kept, getElem?_insert_eq]
          split_ifs with same
          · subst same
            exact .inr ⟨tracked, ack, mem_cons_self .., found, le_refl _, mem_cons_self .., rfl⟩
          · exact .inl rfl
        · have differs : first ≠ id := by
            rintro rfl
            exact nodup.1 member
          rw [getElem?_insert_eq, if_neg differs] at stored
          exact .inr ⟨later, number, mem_cons_of_mem _ member, stored, by omega,
            mem_cons_of_mem _ lease, result⟩

theorem takeFrom_ids (nodup : ids.Nodup) (room ack : Nat)
    (numbered : ∀ (id : Nat) (tracked : Tracked), messages[id]? = some tracked →
      tracked.message.id = id) :
    (takeFrom blocked deadline ids room ack messages).2.map (fun lease => lease.message.id) =
      (ids.filter (eligible blocked messages)).take room := by
  induction ids generalizing room ack messages with
  | nil => simp [takeFrom]
  | cons first ids ih =>
    rw [nodup_cons] at nodup
    cases room with
    | zero => simp [takeFrom]
    | succ room =>
      cases free : eligible blocked messages first with
      | false =>
        rw [takeFrom_cons_of_not_eligible free, filter_cons_of_neg (by simp [free])]
        exact ih nodup.2 (room + 1) ack numbered
      | true =>
        obtain ⟨tracked, found⟩ := exists_of_eligible free
        have later : ∀ id ∈ ids, eligible blocked
            (messages.insert first (leased tracked ack deadline)) id =
              eligible blocked messages id := by
          intro id member
          apply eligible_insert_of_ne
          rintro rfl
          exact nodup.1 member
        rw [takeFrom_cons_of_eligible found free, filter_cons_of_pos free,
          take_succ_cons, map_cons, numbered first tracked found,
          ih nodup.2 room (ack + 1), filter_congr later]
        intro id other stored
        rw [getElem?_insert_eq] at stored
        split_ifs at stored with same
        · cases stored
          exact same ▸ numbered first tracked found
        · exact numbered id other stored

end Take

theorem sameButBacklog_take (maxMessages : Int) (firstAck : Nat) (now : Moment)
    (entry : SubscriptionEntry) : SameButBacklog entry (entry.take maxMessages firstAck now).1 :=
  sameButBacklog_messages ..

theorem getElem?_take (maxMessages : Int) (firstAck : Nat) (now : Moment)
    (entry : SubscriptionEntry) (id : Nat) :
    (entry.take maxMessages firstAck now).1.messages[id]? = entry.messages[id]? ∨
    ∃ tracked ack, entry.messages[id]? = some tracked ∧ tracked.state = .available ∧
      firstAck ≤ ack ∧
      ⟨tracked.message, ack, tracked.attempts + 1⟩ ∈ (entry.take maxMessages firstAck now).2 ∧
      (entry.take maxMessages firstAck now).1.messages[id]? =
        some (leased tracked ack (entry.nextDeadline now)) := by
  rcases getElem?_takeFrom (nodup_candidates entry) maxMessages.toNat firstAck
      entry.messages id with kept | ⟨tracked, ack, candidate, found, rest⟩
  · exact .inl kept
  · obtain ⟨other, foundOther, available⟩ := mem_candidates.mp candidate
    rw [found, Option.some.injEq] at foundOther
    exact .inr ⟨tracked, ack, found, foundOther ▸ available, rest⟩

theorem take_eq_self {maxMessages : Int} {firstAck : Nat}
    (nothing : (entry.take maxMessages firstAck now).2 = []) :
    (entry.take maxMessages firstAck now).1 = entry := by
  have messages : (entry.take maxMessages firstAck now).1.messages = entry.messages := by
    apply Std.ExtTreeMap.ext_getElem?
    intro id
    rcases getElem?_take maxMessages firstAck now entry id with
      kept | ⟨_, _, _, _, _, handed, _⟩
    · exact kept
    · rw [nothing] at handed
      cases handed
  change { entry with messages := (entry.take maxMessages firstAck now).1.messages } = entry
  rw [messages]

/-! ## Leases -/

theorem findLease_eq_some {ack : Nat} (found : entry.findLease ack = some id) :
    ∃ tracked deadline, entry.messages[id]? = some tracked ∧
      tracked.state = .leased ack deadline := by
  obtain ⟨⟨id, tracked⟩, first, rfl⟩ := Option.map_eq_some_iff.mp found
  have stored := Std.ExtTreeMap.mem_toList_iff_getElem?_eq_some.mp (mem_of_find?_eq_some first)
  have holds := find?_some first
  cases state : tracked.state <;> simp_all

theorem sameButBacklog_acknowledge (id : Nat) (entry : SubscriptionEntry) :
    SameButBacklog entry (entry.acknowledge id) := by
  unfold acknowledge
  split
  · exact sameButBacklog_messages ..
  · exact .refl _

theorem getElem?_acknowledge (id other : Nat) (entry : SubscriptionEntry) :
    (entry.acknowledge id).messages[other]? = entry.messages[other]? ∨
    id = other ∧ ∃ tracked, entry.messages[other]? = some tracked ∧
      (entry.acknowledge id).messages[other]? = some { tracked with state := .acked } := by
  unfold acknowledge
  cases found : entry.messages[id]? with
  | none => exact .inl rfl
  | some tracked =>
    simp only [getElem?_insert_eq]
    split_ifs with same
    · subst same
      exact .inr ⟨rfl, tracked, found, rfl⟩
    · exact .inl rfl

theorem sameButBacklog_acknowledgeAll (acks : List Nat) (entry : SubscriptionEntry) :
    SameButBacklog entry (entry.acknowledgeAll acks).1 := by
  induction acks generalizing entry with
  | nil => exact .refl _
  | cons ack acks ih =>
    rw [acknowledgeAll]
    split
    · exact (sameButBacklog_acknowledge _ _).trans (ih _)
    · exact ih _

theorem exists_findLease {ack deadline : Nat} {tracked : Tracked}
    (stored : entry.messages[id]? = some tracked) (state : tracked.state = .leased ack deadline) :
    ∃ first, entry.findLease ack = some first := by
  have member := Std.ExtTreeMap.mem_toList_iff_getElem?_eq_some.mpr stored
  refine Option.ne_none_iff_exists'.mp fun missing => ?_
  rw [findLease, Option.map_eq_none_iff, find?_eq_none] at missing
  simpa [state] using missing _ member

/-- A lease is not found if there was none before, or if its id came twice. -/
theorem stale_acknowledgeAll {acks : List Nat} (stale : (acknowledgeAll acks entry).2 = true) :
    (∃ ack ∈ acks, entry.findLease ack = none) ∨ ¬acks.Nodup := by
  by_contra fresh
  simp only [not_or, not_exists, not_and, not_not, Option.ne_none_iff_exists'] at fresh
  obtain ⟨leased, apart⟩ := fresh
  induction acks generalizing entry with
  | nil => cases stale
  | cons ack acks ih =>
    rw [forall_mem_cons] at leased
    rw [nodup_cons] at apart
    obtain ⟨⟨id, found⟩, leased⟩ := leased
    rw [acknowledgeAll, found] at stale
    refine ih stale (fun other member => ?_) apart.2
    obtain ⟨otherId, isOther⟩ := leased other member
    obtain ⟨mine, _, stored, state⟩ := findLease_eq_some found
    obtain ⟨theirs, _, storedOther, stateOther⟩ := findLease_eq_some isOther
    have stays : (entry.acknowledge id).messages[otherId]? = some theirs := by
      rcases getElem?_acknowledge id otherId entry with kept | ⟨rfl, -⟩
      · rwa [kept]
      · rw [stored, Option.some.injEq] at storedOther
        rw [← storedOther, state] at stateOther
        cases stateOther
        exact absurd member apart.1
    exact exists_findLease stays stateOther

theorem acknowledgeAll_of_stale {acks : List Nat}
    (stale : ∀ ack ∈ acks, entry.findLease ack = none) : (acknowledgeAll acks entry).1 = entry := by
  induction acks with
  | nil => rfl
  | cons ack acks ih =>
    rw [forall_mem_cons] at stale
    rw [acknowledgeAll, stale.1]
    exact ih stale.2

theorem getElem?_acknowledgeAll (acks : List Nat) (entry : SubscriptionEntry) (id : Nat) :
    (acknowledgeAll acks entry).1.messages[id]? = entry.messages[id]? ∨
    ∃ tracked, ∃ ack ∈ acks, ∃ deadline, entry.messages[id]? = some tracked ∧
      tracked.state = .leased ack deadline ∧
      (acknowledgeAll acks entry).1.messages[id]? = some { tracked with state := .acked } := by
  induction acks generalizing entry with
  | nil => exact .inl rfl
  | cons ack acks ih =>
    rw [acknowledgeAll]
    split
    · next leasedId found =>
      rcases ih (entry.acknowledge leasedId) with kept | ⟨tracked, later, member, deadline, stored, state, result⟩
      · rw [kept]
        rcases getElem?_acknowledge leasedId id entry with same | ⟨rfl, tracked, stored, result⟩
        · exact .inl same
        · obtain ⟨other, deadline, storedOther, state⟩ := findLease_eq_some found
          rw [stored, Option.some.injEq] at storedOther
          exact .inr ⟨tracked, ack, mem_cons_self .., deadline, stored,
            storedOther ▸ state, result⟩
      · rcases getElem?_acknowledge leasedId id entry with same | ⟨rfl, before, -, acked⟩
        · rw [same] at stored
          exact .inr ⟨tracked, later, mem_cons_of_mem _ member, deadline, stored, state, result⟩
        · rw [acked, Option.some.injEq] at stored
          simp [← stored] at state
    · rcases ih entry with kept | ⟨tracked, later, member, rest⟩
      · exact .inl kept
      · exact .inr ⟨tracked, later, mem_cons_of_mem _ member, rest⟩

end SubscriptionEntry

/-- What deadline changes leave of a message leased under `ack`. -/
inductive Released (entry : SubscriptionEntry) (now : Moment) (sequence : Nat)
    (forwarded : List Forwarded) (tracked : Tracked) (ack : Nat) : Option Tracked → Prop
  | extended (deadline : Nat) :
      Released entry now sequence forwarded tracked ack
        (some { tracked with state := .leased ack deadline })
  | requeued {order : Nat} : sequence ≤ order →
      Released entry now sequence forwarded tracked ack
        (some { tracked with state := entry.waiting now, sequence := order })
  | forwarded :
      entry.exhausted tracked.attempts = true →
      ⟨entry.subscription.name, tracked.message, tracked.attempts⟩ ∈ forwarded →
      Released entry now sequence forwarded tracked ack none

namespace SubscriptionEntry

variable {entry : SubscriptionEntry} {now : Moment}

theorem waiting_ne_leased (entry : SubscriptionEntry) (now : Moment) (ack deadline : Nat) :
    entry.waiting now ≠ .leased ack deadline := by
  unfold waiting
  split <;> exact MessageState.noConfusion

theorem waiting_ne_acked (entry : SubscriptionEntry) (now : Moment) : entry.waiting now ≠ .acked := by
  unfold waiting
  split <;> exact MessageState.noConfusion

theorem modifyDeadline_of_leased {id ack deadline attempts order : Nat} {message : StoredMessage}
    (found : entry.messages[id]? = some ⟨message, .leased ack deadline, attempts, order⟩)
    (seconds : Int) (sequence : Nat) :
    entry.modifyDeadline id seconds now sequence =
      if seconds = 0 then
        if entry.exhausted attempts then
          ({ entry with messages := entry.messages.erase id }, sequence,
            [⟨entry.subscription.name, message, attempts⟩])
        else
          ({ entry with
              messages := entry.messages.insert id
                ⟨message, entry.waiting now, attempts, sequence⟩ }, sequence + 1, [])
      else
        ({ entry with
            messages := entry.messages.insert id
              ⟨message, .leased ack (now.instant + secondsLong seconds.toNat), attempts, order⟩ },
          sequence, []) := by
  rw [modifyDeadline, found]

theorem modifyDeadline_of_not_leased {id : Nat}
    (free : ∀ (tracked : Tracked) (ack deadline : Nat), entry.messages[id]? = some tracked →
      tracked.state ≠ .leased ack deadline) (seconds : Int) (sequence : Nat) :
    entry.modifyDeadline id seconds now sequence = (entry, sequence, []) := by
  unfold modifyDeadline
  split
  · next found => exact absurd rfl (free _ _ _ found)
  · rfl

section

variable (id : Nat) (seconds : Int) (now : Moment) (sequence : Nat) (entry : SubscriptionEntry)

theorem modifyDeadline_cases :
    entry.modifyDeadline id seconds now sequence = (entry, sequence, []) ∨
    ∃ message ack deadline attempts order,
      entry.messages[id]? = some ⟨message, .leased ack deadline, attempts, order⟩ := by
  by_cases leasedNow : ∃ message ack deadline attempts order,
      entry.messages[id]? = some ⟨message, .leased ack deadline, attempts, order⟩
  · exact .inr leasedNow
  · refine .inl (modifyDeadline_of_not_leased ?_ seconds sequence)
    rintro ⟨message, state, attempts, order⟩ ack deadline found rfl
    exact leasedNow ⟨message, ack, deadline, attempts, order, found⟩

theorem sameButBacklog_modifyDeadline :
    SameButBacklog entry (entry.modifyDeadline id seconds now sequence).1 := by
  rcases modifyDeadline_cases id seconds now sequence entry with
    same | ⟨_, _, _, _, _, found⟩
  · rw [same]
    exact .refl _
  · rw [modifyDeadline_of_leased found]
    split_ifs <;> exact sameButBacklog_messages ..

theorem le_modifyDeadline_sequence :
    sequence ≤ (entry.modifyDeadline id seconds now sequence).2.1 := by
  rcases modifyDeadline_cases id seconds now sequence entry with
    same | ⟨_, _, _, _, _, found⟩
  · rw [same]
  · rw [modifyDeadline_of_leased found]
    split_ifs
    · exact le_refl _
    · exact Nat.le_succ _
    · exact le_refl _

theorem getElem?_modifyDeadline (other : Nat) :
    (entry.modifyDeadline id seconds now sequence).1.messages[other]? = entry.messages[other]? ∨
    ∃ tracked ack deadline, entry.messages[other]? = some tracked ∧
      tracked.state = .leased ack deadline ∧
      Released entry now sequence (entry.modifyDeadline id seconds now sequence).2.2 tracked ack
        (entry.modifyDeadline id seconds now sequence).1.messages[other]? := by
  rcases modifyDeadline_cases id seconds now sequence entry with
    same | ⟨message, ack, deadline, attempts, order, found⟩
  · rw [same]
    exact .inl rfl
  · by_cases here : id = other
    · subst here
      refine .inr ⟨_, ack, deadline, found, rfl, ?_⟩
      rw [modifyDeadline_of_leased found]
      split_ifs with nack exhausted
      · rw [getElem?_erase, if_pos rfl]
        exact .forwarded exhausted (mem_singleton_self _)
      · rw [getElem?_insert_eq, if_pos rfl]
        exact .requeued (le_refl _)
      · rw [getElem?_insert_eq, if_pos rfl]
        exact .extended _
    · left
      rw [modifyDeadline_of_leased found]
      split_ifs
      · rw [getElem?_erase, if_neg here]
      · rw [getElem?_insert_eq, if_neg here]
      · rw [getElem?_insert_eq, if_neg here]

end

end SubscriptionEntry

namespace Released

variable {entry later : SubscriptionEntry} {now : Moment} {sequence next : Nat}
  {forwarded more : List Forwarded} {tracked : Tracked} {ack : Nat} {after : Option Tracked}

theorem weaken (same : entry.SameButBacklog later) (earlier : sequence ≤ next)
    (kept : forwarded ⊆ more) (released : Released later now next forwarded tracked ack after) :
    Released entry now sequence more tracked ack after := by
  cases released with
  | extended deadline => exact .extended deadline
  | requeued order =>
    rw [same.waiting]
    exact .requeued (by omega)
  | forwarded exhausted member =>
    refine .forwarded ?_ (kept ?_)
    · rw [← exhausted, SubscriptionEntry.exhausted, SubscriptionEntry.exhausted, same.subscription]
    · rw [← same.subscription]
      exact member

theorem eq_of_leased {number deadline : Nat}
    (released : Released entry now sequence forwarded tracked ack after) {middle : Tracked}
    (found : after = some middle) (state : middle.state = .leased number deadline) :
    middle = { tracked with state := .leased ack deadline } := by
  cases released with
  | extended until_ =>
    cases found
    cases state
    rfl
  | requeued =>
    cases found
    exact absurd state (entry.waiting_ne_leased now number deadline)
  | forwarded => cases found

theorem of_extended {deadline : Nat} (released : Released entry now sequence forwarded
    { tracked with state := .leased ack deadline } ack after) :
    Released entry now sequence forwarded tracked ack after := by
  cases released with
  | extended next => exact .extended next
  | requeued order => exact .requeued order
  | forwarded exhausted member => exact .forwarded exhausted member

end Released

namespace SubscriptionEntry

variable {entry : SubscriptionEntry} {now : Moment}

section Deadlines

variable (select : SubscriptionEntry → Nat → Option Nat) (seconds : Int) (now : Moment)

theorem sameButBacklog_modifyDeadlines (targets : List Nat) (sequence : Nat)
    (entry : SubscriptionEntry) :
    SameButBacklog entry (modifyDeadlines select seconds now targets sequence entry).1 := by
  induction targets generalizing sequence entry with
  | nil => exact .refl _
  | cons target targets ih =>
    rw [modifyDeadlines]
    split
    · exact ih ..
    · exact (sameButBacklog_modifyDeadline ..).trans (ih ..)

theorem getElem?_modifyDeadlines (targets : List Nat) (sequence : Nat) (entry : SubscriptionEntry)
    (id : Nat) :
    (modifyDeadlines select seconds now targets sequence entry).1.messages[id]? =
      entry.messages[id]? ∨
    ∃ tracked ack deadline, entry.messages[id]? = some tracked ∧
      tracked.state = .leased ack deadline ∧
      Released entry now sequence
        (modifyDeadlines select seconds now targets sequence entry).2.2 tracked ack
        (modifyDeadlines select seconds now targets sequence entry).1.messages[id]? := by
  induction targets generalizing sequence entry with
  | nil => exact .inl rfl
  | cons target targets ih =>
    rw [modifyDeadlines]
    split
    · exact ih ..
    · next first _ =>
      have same := sameButBacklog_modifyDeadline first seconds now sequence entry
      have grows := le_modifyDeadline_sequence first seconds now sequence entry
      rcases ih (entry.modifyDeadline first seconds now sequence).2.1
          (entry.modifyDeadline first seconds now sequence).1 with
        kept | ⟨middle, ack, deadline, found, state, released⟩
      · rcases getElem?_modifyDeadline first seconds now sequence entry id with
          unchanged | ⟨tracked, ack, deadline, found, state, released⟩
        · exact .inl (kept.trans unchanged)
        · refine .inr ⟨tracked, ack, deadline, found, state, ?_⟩
          rw [kept]
          exact released.weaken (.refl _) (le_refl _) (subset_append_left ..)
      · have weakened := released.weaken same grows (subset_append_right
          (entry.modifyDeadline first seconds now sequence).2.2 _)
        rcases getElem?_modifyDeadline first seconds now sequence entry id with
          unchanged | ⟨tracked, number, before, foundBefore, leasedBefore, earlier⟩
        · exact .inr ⟨middle, ack, deadline, unchanged ▸ found, state, weakened⟩
        · -- a second change acts on a message that the first one only extended
          have extended := earlier.eq_of_leased found state
          subst extended
          cases state
          exact .inr ⟨tracked, ack, before, foundBefore, leasedBefore, weakened.of_extended⟩

end Deadlines

/-! ## Pushes, settings and seeks -/

theorem sameButBacklog_pushed (now : Moment) (id : Nat) (delivered : Bool)
    (entry : SubscriptionEntry) : SameButBacklog entry (entry.pushed now id delivered) := by
  unfold pushed
  split
  · split_ifs
    · exact sameButBacklog_acknowledge ..
    · exact sameButBacklog_messages ..
    · exact .refl _
  · exact .refl _

theorem getElem?_pushed (now : Moment) (id : Nat) (delivered : Bool) (entry : SubscriptionEntry)
    (other : Nat) :
    (entry.pushed now id delivered).messages[other]? = entry.messages[other]? ∨
    id = other ∧ ∃ tracked, entry.messages[other]? = some tracked ∧
      tracked.state.isPushing = true ∧
      (entry.pushed now id delivered).messages[other]? =
        some { tracked with
          state := if delivered then .acked else .pushing (now.instant + pushRetry) } := by
  unfold pushed
  cases found : entry.messages[id]? with
  | none => exact .inl rfl
  | some tracked =>
    cases delivered with
    | true =>
      simp only
      split_ifs with pushing
      · rcases getElem?_acknowledge id other entry with kept | ⟨rfl, before, stored, acked⟩
        · exact .inl kept
        · rw [found, Option.some.injEq] at stored
          subst stored
          exact .inr ⟨rfl, tracked, found, pushing, acked⟩
      · exact .inl rfl
    | false =>
      simp only [Bool.false_eq_true, if_false]
      split_ifs with pushing
      · rw [getElem?_insert_eq]
        split_ifs with same
        · subst same
          exact .inr ⟨rfl, tracked, found, pushing, rfl⟩
        · exact .inl rfl
      · exact .inl rfl

theorem getElem?_mapMessages (change : Tracked → Tracked) (entry : SubscriptionEntry) (id : Nat) :
    (entry.mapMessages change).messages[id]? = entry.messages[id]?.map change :=
  Std.ExtTreeMap.getElem?_map

def movedState (now : Moment) (settings : Subscription) (entry : SubscriptionEntry)
    (state : MessageState) : MessageState :=
  if settings.isPush && !entry.isPush then
    if state = .available then .pushing now.instant else state
  else if entry.isPush && !settings.isPush then
    if state.isPushing then .available else state
  else state

section

variable (now : Moment)

theorem configure_eq (settings : Subscription) (entry : SubscriptionEntry) :
    entry.configure now settings = { entry with
      subscription := settings
      messages := (entry.configure now settings).messages } := by
  unfold configure
  split_ifs <;> rfl

theorem getElem?_configure (settings : Subscription) (entry : SubscriptionEntry) (id : Nat) :
    (entry.configure now settings).messages[id]? = entry.messages[id]?.map fun tracked =>
      { tracked with state := entry.movedState now settings tracked.state } := by
  unfold configure movedState
  split_ifs with starts stops
  · rw [startPushing, getElem?_mapMessages]
    congr 1
    funext tracked
    split_ifs <;> rfl
  · rw [stopPushing, getElem?_mapMessages]
    congr 1
    funext tracked
    split_ifs <;> rfl
  · exact Option.map_id'.symm

theorem configure_isPush (settings : Subscription) (entry : SubscriptionEntry) :
    (entry.configure now settings).isPush = settings.isPush := by
  rw [configure_eq, isPush]

theorem sameButBacklog_seek (change : Tracked → Tracked)
    (entry : SubscriptionEntry) : SameButBacklog entry (entry.seek now change) := by
  unfold seek
  dsimp only
  split_ifs <;> exact sameButBacklog_messages ..

theorem getElem?_seek (change : Tracked → Tracked) (entry : SubscriptionEntry) (id : Nat) :
    (entry.seek now change).messages[id]? = entry.messages[id]?.map fun tracked =>
      if entry.isPush && (change tracked).state = .available then
        { change tracked with state := .pushing now.instant }
      else change tracked := by
  unfold seek
  dsimp only
  have same : (entry.mapMessages change).isPush = entry.isPush := rfl
  rw [same]
  cases entry.isPush with
  | true =>
    rw [if_pos rfl, startPushing, getElem?_mapMessages, getElem?_mapMessages, Option.map_map]
    simp only [Bool.true_and, decide_eq_true_eq]
    rfl
  | false =>
    rw [if_neg Bool.false_ne_true, getElem?_mapMessages]
    simp

end

variable (generation : Nat) (entry : SubscriptionEntry)

theorem loseTopic_messages : (entry.loseTopic generation).messages = entry.messages := by
  unfold loseTopic
  split_ifs <;> rfl

theorem loseTopic_subscription :
    (entry.loseTopic generation).subscription =
      { entry.subscription with topic := (entry.loseTopic generation).subscription.topic } := by
  unfold loseTopic
  split_ifs <;> rfl

theorem loseTopic_deliverable : (entry.loseTopic generation).deliverable = entry.deliverable := by
  unfold loseTopic
  split_ifs <;> rfl

theorem loseTopic_isPush : (entry.loseTopic generation).isPush = entry.isPush := by
  rw [isPush, loseTopic_subscription]
  rfl

end SubscriptionEntry
end Firenook.Pubsub
