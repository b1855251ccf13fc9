import Firenook.WebChannelSession

/-!
# Reverse arrays of a session

The server keeps the arrays it enqueued until the client acknowledges them, and writes
them to backchannels: streams, which go on writing, and long polls, which answer once.  A
backchannel can break at any point, and then what it wrote and the client has not read is
lost; the client opens another one and ignores the ids it has seen.
-/

namespace Firenook.WebChannel

open List Runs SessionState Prod

variable {Value : Type}

/-- A backchannel: what was written and not yet read, and the cursor of the writer. -/
structure Backchannel (Value : Type) where
  cursor : Nat
  polling : Bool
  /-- Whether the server may still write. -/
  writable : Bool := true
  transit : List (ArrayRecord Value) := []

/-- The reverse side of a session, with the payloads enqueued so far and what the client
has received. -/
structure Reverse (Value : Type) where
  session : SessionState Value := {}
  channels : List (Backchannel Value) := []
  enqueued : List Value := []
  received : List (Nat × Value) := []

inductive ReverseStep (Value : Type)
  /-- A backend message or a keep-alive is enqueued. -/
  | enqueue (payload : Value)
  /-- The acknowledgement that comes with a forward request. -/
  | acknowledge (aid : Nat)
  /-- A request for a streaming backchannel. -/
  | stream (aid : Nat)
  /-- A request for a long poll. -/
  | poll (aid : Nat)
  /-- A backchannel finds arrays to write. -/
  | write (index : Nat)
  /-- The timeout of a backchannel. -/
  | timeout (index : Nat)
  /-- The client reads one array of a backchannel. -/
  | read (index : Nat)
  /-- A backchannel breaks. -/
  | sever (index : Nat)

namespace Backchannel

def write (session : SessionState Value) (channel : Backchannel Value) : Backchannel Value :=
  let arrays := session.arraysAfter channel.cursor
  match arrays.getLast? with
  | none => channel
  | some last =>
    if channel.writable then
      { channel with
        transit := channel.transit ++ arrays
        cursor := if channel.polling then channel.cursor else last.id
        writable := !channel.polling }
    else channel

def sever (channel : Backchannel Value) : Backchannel Value :=
  { channel with writable := false, transit := [] }

end Backchannel

variable (encodedBytes : Value → Nat) (reverse : Reverse Value)

namespace Reverse

def enqueue (payload : Value) (reverse : Reverse Value) : Reverse Value × Bool :=
  match reverse.session.enqueue encodedBytes payload with
  | .ok (session, _) =>
    ({ reverse with session, enqueued := reverse.enqueued ++ [payload] }, true)
  | .error _ => (reverse, false)

def acknowledge (aid : Nat) (reverse : Reverse Value) : Reverse Value :=
  { reverse with session := reverse.session.acknowledge aid }

def write (index : Nat) (reverse : Reverse Value) : Reverse Value :=
  { reverse with channels := reverse.channels.modify index (.write reverse.session) }

def take (array : ArrayRecord Value) (reverse : Reverse Value) : Reverse Value :=
  if array.id ∈ reverse.received.map fst then reverse
  else { reverse with received := reverse.received ++ [(array.id, array.payload)] }

def read (index : Nat) (reverse : Reverse Value) : Reverse Value :=
  match reverse.channels[index]? with
  | some channel =>
    match channel.transit with
    | array :: transit =>
      { reverse.take array with channels := reverse.channels.set index { channel with transit } }
    | [] => reverse
  | none => reverse

/-- A timeout enqueues a keep-alive; a long poll then answers, with it or with nothing. -/
def timeout (noop : Value) (index : Nat) (reverse : Reverse Value) : Reverse Value :=
  match reverse.channels[index]? with
  | some channel =>
    if channel.writable then
      let (enqueued, kept) := reverse.enqueue encodedBytes noop
      if channel.polling then
        if kept then enqueued.write index
        else { enqueued with channels := enqueued.channels.set index { channel with writable := false } }
      else enqueued
    else reverse
  | none => reverse

def step (noop : Value) (reverse : Reverse Value) : ReverseStep Value → Reverse Value
  | .enqueue payload => (reverse.enqueue encodedBytes payload).1
  | .acknowledge aid => reverse.acknowledge aid
  | .stream aid =>
    let (opened, kept) := (reverse.acknowledge aid).enqueue encodedBytes noop
    if kept then { opened with channels := opened.channels ++ [⟨aid, false, true, []⟩] } else opened
  | .poll aid =>
    let acknowledged := reverse.acknowledge aid
    { acknowledged with channels := acknowledged.channels ++ [⟨aid, true, true, []⟩] }
  | .write index => reverse.write index
  | .timeout index => reverse.timeout encodedBytes noop index
  | .read index => reverse.read index
  | .sever index => { reverse with channels := reverse.channels.modify index .sever }

def lastReceived : Nat := (reverse.received.getLast?.map fst).getD 0

/-- No request acknowledges more than the client received. -/
def Honest : ReverseStep Value → Prop
  | .acknowledge aid => aid ≤ reverse.lastReceived
  | .stream aid => aid ≤ reverse.lastReceived
  | .poll aid => aid ≤ reverse.lastReceived
  | _ => True

instance (reverse : Reverse Value) : DecidablePred reverse.Honest
  | .acknowledge _ | .stream _ | .poll _ => inferInstanceAs (Decidable (_ ≤ _))
  | .enqueue _ | .write _ | .timeout _ | .read _ | .sever _ => inferInstanceAs (Decidable True)

end Reverse

/-! ## Retained arrays -/

def records : Nat → List Value → List (ArrayRecord Value)
  | _, [] => []
  | first, payload :: payloads =>
    ⟨first, payload, encodedBytes payload⟩ :: records (first + 1) payloads

variable {array : ArrayRecord Value}

section Records

variable {encodedBytes : Value → Nat} (first : Nat)

theorem records_append (left right : List Value) :
    records encodedBytes first (left ++ right) =
      records encodedBytes first left ++ records encodedBytes (first + left.length) right := by
  induction left generalizing first with
  | nil => rfl
  | cons payload left ih =>
    rw [cons_append, records, ih, length_cons]
    congr 3
    omega

theorem length_records (payloads : List Value) :
    (records encodedBytes first payloads).length = payloads.length := by
  induction payloads generalizing first with
  | nil => rfl
  | cons payload payloads ih => rw [records, length_cons, ih, length_cons]

theorem records_ids (payloads : List Value) :
    (records encodedBytes first payloads).map ArrayRecord.id = range' first payloads.length := by
  induction payloads generalizing first with
  | nil => rfl
  | cons payload payloads ih => rw [records, map_cons, ih, length_cons, range'_succ]

theorem records_sizes (payloads : List Value) :
    (records encodedBytes first payloads).map (fun array => encodedBytes array.payload) =
      payloads.map encodedBytes := by
  induction payloads generalizing first with
  | nil => rfl
  | cons payload payloads ih => rw [records, map_cons, ih, map_cons]

theorem mem_records {first : Nat} {payloads : List Value} :
    array ∈ records encodedBytes first payloads ↔
      first ≤ array.id ∧ payloads[array.id - first]? = some array.payload ∧
        array.encodedBytes = encodedBytes array.payload := by
  induction payloads generalizing first with
  | nil => simp [records]
  | cons payload payloads ih =>
    rw [records, mem_cons, ih]
    constructor
    · rintro (rfl | ⟨beyond, stored, size⟩)
      · simp
      · refine ⟨by omega, ?_, size⟩
        rw [show array.id - first = array.id - (first + 1) + 1 by omega]
        exact stored
    · rintro ⟨beyond, stored, size⟩
      rcases Nat.eq_or_lt_of_le beyond with same | later
      · obtain ⟨id, payload, bytes⟩ := array
        simp_all
      · refine .inr ⟨later, ?_, size⟩
        rwa [show array.id - first = array.id - (first + 1) + 1 by omega] at stored

theorem filter_records (aid first : Nat) (payloads : List Value) :
    (records encodedBytes first payloads).filter (fun array => aid < array.id) =
      records encodedBytes (max first (aid + 1)) (payloads.drop (aid + 1 - first)) := by
  induction payloads generalizing first with
  | nil => simp [records]
  | cons payload payloads ih =>
    rw [records, filter_cons]
    by_cases later : aid < first
    · rw [if_pos (by simpa using later), ih, show aid + 1 - first = 0 by omega, drop_zero,
        records, show max first (aid + 1) = first by omega,
        show aid + 1 - (first + 1) = 0 by omega, drop_zero,
        show max (first + 1) (aid + 1) = first + 1 by omega]
    · rw [if_neg (by simpa using later), ih,
        show aid + 1 - first = aid + 1 - (first + 1) + 1 by omega, drop_succ_cons,
        show max (first + 1) (aid + 1) = max first (aid + 1) by omega]

theorem dropAcknowledged_records (encodedBytes : Value → Nat) (aid first bytes : Nat)
    (payloads : List Value) :
    dropAcknowledged aid (records encodedBytes first payloads) bytes =
      (records encodedBytes (max first (aid + 1)) (payloads.drop (aid + 1 - first)),
        bytes - ((payloads.take (aid + 1 - first)).map encodedBytes).sum) := by
  induction payloads generalizing first bytes with
  | nil => simp [records, dropAcknowledged]
  | cons payload payloads ih =>
    rw [records, dropAcknowledged]
    by_cases later : aid < first
    · rw [if_neg (by simpa using later), show aid + 1 - first = 0 by omega, drop_zero,
        show max first (aid + 1) = first by omega, records]
      simp
    · rw [if_pos (by simpa using later), ih,
        show aid + 1 - first = aid + 1 - (first + 1) + 1 by omega, drop_succ_cons,
        take_succ_cons, show max (first + 1) (aid + 1) = max first (aid + 1) by omega,
        map_cons, sum_cons, Nat.sub_sub]

end Records

/-- The session retains exactly the arrays above the acknowledged id, within the limits. -/
structure Retained (encodedBytes : Value → Nat) (session : SessionState Value)
    (enqueued : List Value) : Prop where
  next : session.nextArrayId = enqueued.length + 1
  floor : session.acknowledgedArrayId ≤ enqueued.length
  arrays : session.arrays = records encodedBytes (session.acknowledgedArrayId + 1)
    (enqueued.drop session.acknowledgedArrayId)
  bytes : session.arrayBytes = ((enqueued.drop session.acknowledgedArrayId).map encodedBytes).sum
  few : session.arrays.length ≤ maximumUnacknowledgedArrays
  small : session.arrayBytes ≤ maximumUnacknowledgedBytes

namespace Retained

variable {encodedBytes : Value → Nat} {session : SessionState Value} {enqueued : List Value}

theorem start : Retained encodedBytes ({} : SessionState Value) [] :=
  ⟨rfl, le_refl _, rfl, rfl, Nat.zero_le _, Nat.zero_le _⟩

section

variable (retained : Retained encodedBytes session enqueued)
include retained

theorem enqueue {payload : Value} {after : SessionState Value} {id : Nat}
    (ok : session.enqueue encodedBytes payload = .ok (after, id)) :
    Retained encodedBytes after (enqueued ++ [payload]) ∧
      after.acknowledgedArrayId = session.acknowledgedArrayId := by
  unfold SessionState.enqueue at ok
  split_ifs at ok with full
  cases ok
  rw [not_or, not_le, not_lt] at full
  refine ⟨⟨?_, ?_, ?_, ?_, ?_, full.2⟩, rfl⟩
  · rw [length_append, length_singleton, retained.next]
  · rw [length_append]
    exact retained.floor.trans (Nat.le_add_right ..)
  · rw [drop_append_of_le_length retained.floor, records_append, ← retained.arrays,
      retained.next, length_drop]
    have := retained.floor
    rw [show session.acknowledgedArrayId + 1 + (enqueued.length - session.acknowledgedArrayId) =
      enqueued.length + 1 by omega]
    rfl
  · rw [drop_append_of_le_length retained.floor, retained.bytes]
    simp
  · rw [length_append]
    exact full.1

theorem acknowledge {aid : Nat} (known : aid ≤ enqueued.length) :
    Retained encodedBytes (session.acknowledge aid) enqueued := by
  have dropped := dropAcknowledged_records encodedBytes aid
    (session.acknowledgedArrayId + 1) session.arrayBytes
    (enqueued.drop session.acknowledgedArrayId)
  rw [← retained.arrays, drop_drop,
    show aid + 1 - (session.acknowledgedArrayId + 1) = aid - session.acknowledgedArrayId by omega,
    show session.acknowledgedArrayId + (aid - session.acknowledgedArrayId) =
      max session.acknowledgedArrayId aid by omega,
    show max (session.acknowledgedArrayId + 1) (aid + 1) =
      max session.acknowledgedArrayId aid + 1 by omega] at dropped
  have floor := retained.floor
  have split_ : (enqueued.drop session.acknowledgedArrayId).take
      (aid - session.acknowledgedArrayId) ++ enqueued.drop (max session.acknowledgedArrayId aid) =
      enqueued.drop session.acknowledgedArrayId := by
    rw [show max session.acknowledgedArrayId aid =
      session.acknowledgedArrayId + (aid - session.acknowledgedArrayId) by omega, ← drop_drop,
      take_append_drop]
  have total := congrArg (fun payloads => (payloads.map encodedBytes).sum) split_
  rw [map_append, sum_append, ← retained.bytes] at total
  have small := retained.small
  have few := retained.few
  rw [retained.arrays, length_records, length_drop] at few
  unfold SessionState.acknowledge
  rw [dropped]
  refine ⟨retained.next, by dsimp only; omega, rfl, ?_, ?_, ?_⟩
  · dsimp only
    omega
  · rw [length_records, length_drop]
    omega
  · dsimp only
    omega

theorem arraysAfter (cursor : Nat) : session.arraysAfter cursor =
      records encodedBytes (max session.acknowledgedArrayId cursor + 1)
        (enqueued.drop (max session.acknowledgedArrayId cursor)) := by
  unfold SessionState.arraysAfter
  rw [retained.arrays, filter_records, drop_drop,
    show session.acknowledgedArrayId + (cursor + 1 - (session.acknowledgedArrayId + 1)) =
      max session.acknowledgedArrayId cursor by omega,
    show max (session.acknowledgedArrayId + 1) (cursor + 1) =
      max session.acknowledgedArrayId cursor + 1 by omega]

end

end Retained

/-! ## Backchannels -/

/-- Reading the ids one after the other, a client that has all ids up to `known` meets no
gap. -/
def Unbroken : Nat → List Nat → Prop
  | _, [] => True
  | known, id :: ids => id ≤ known + 1 ∧ Unbroken (max known id) ids

def reach (known : Nat) (ids : List Nat) : Nat := ids.foldl max known

theorem le_reach (known : Nat) (ids : List Nat) : known ≤ reach known ids := by
  induction ids generalizing known with
  | nil => exact le_refl _
  | cons id ids ih => exact (le_max_left known id).trans (ih _)

theorem le_reach_of_mem {known id : Nat} {ids : List Nat} (member : id ∈ ids) :
    id ≤ reach known ids := by
  induction ids generalizing known with
  | nil => cases member
  | cons first ids ih =>
    rcases mem_cons.mp member with rfl | member
    · exact (le_max_right known id).trans (le_reach _ ids)
    · exact ih member

theorem reach_le {known bound : Nat} {ids : List Nat} (below : known ≤ bound)
    (all : ∀ id ∈ ids, id ≤ bound) : reach known ids ≤ bound := by
  induction ids generalizing known with
  | nil => exact below
  | cons id ids ih =>
    refine ih (max_le below (all id (mem_cons_self ..))) ?_
    exact (forall_mem_cons.mp all).2

theorem reach_mono {known later : Nat} (grows : known ≤ later) (ids : List Nat) :
    reach known ids ≤ reach later ids := by
  induction ids generalizing known later with
  | nil => exact grows
  | cons id ids ih => exact ih (max_le_max_right id grows)

theorem Unbroken.mono {known later : Nat} {ids : List Nat} (unbroken : Unbroken known ids)
    (grows : known ≤ later) : Unbroken later ids := by
  induction ids generalizing known later with
  | nil => trivial
  | cons id ids ih =>
    exact ⟨unbroken.1.trans (Nat.add_le_add_right grows 1),
      ih unbroken.2 (max_le_max_right id grows)⟩

theorem unbroken_append {known : Nat} {left right : List Nat} :
    Unbroken known (left ++ right) ↔ Unbroken known left ∧ Unbroken (reach known left) right := by
  induction left generalizing known with
  | nil => exact ⟨fun rest => ⟨trivial, rest⟩, fun both => both.2⟩
  | cons id left ih =>
    rw [cons_append, Unbroken, Unbroken, ih, and_assoc]
    rfl

theorem unbroken_range' {known first : Nat} (joins : first ≤ known + 1) (count : Nat) :
    Unbroken known (range' first count) := by
  induction count generalizing known first with
  | zero => trivial
  | succ count ih =>
    exact ⟨joins, ih (by omega)⟩

/-- What a client that knows the ids up to `known` can rely on in a backchannel. -/
structure Backchannel.Sound (encodedBytes : Value → Nat) (enqueued : List Value) (known : Nat)
    (channel : Backchannel Value) : Prop where
  genuine : ∀ array ∈ channel.transit, array ∈ records encodedBytes 1 enqueued
  unbroken : Unbroken known (channel.transit.map ArrayRecord.id)
  cursor : channel.writable = true →
    channel.cursor ≤ reach known (channel.transit.map ArrayRecord.id)

namespace Backchannel.Sound

variable {encodedBytes : Value → Nat} {session : SessionState Value} {enqueued : List Value}
  {known : Nat} {channel : Backchannel Value}

section

variable (sound : channel.Sound encodedBytes enqueued known)
include sound

theorem mono {more : List Value} {later : Nat}
    (grows : known ≤ later) : channel.Sound encodedBytes (enqueued ++ more) later where
  genuine array member := by
    rw [records_append]
    exact mem_append_left _ (sound.genuine array member)
  unbroken := sound.unbroken.mono grows
  cursor writable := (sound.cursor writable).trans (reach_mono grows _)

theorem id_le (member : array ∈ channel.transit) : array.id ≤ enqueued.length := by
  obtain ⟨positive, stored, -⟩ := mem_records.mp (sound.genuine array member)
  have within := (List.getElem?_eq_some_iff.mp stored).1
  omega

theorem write (retained : Retained encodedBytes session enqueued)
    (acknowledged : session.acknowledgedArrayId ≤ known) (below : known ≤ enqueued.length) :
    (channel.write session).Sound encodedBytes enqueued known ∧ (channel.writable = true →
        reach known ((channel.write session).transit.map ArrayRecord.id) = enqueued.length) := by
  have after := retained.arraysAfter channel.cursor
  have inRange : ∀ id ∈ channel.transit.map ArrayRecord.id, id ≤ enqueued.length := by
    intro id member
    obtain ⟨array, inTransit, rfl⟩ := mem_map.mp member
    exact sound.id_le inTransit
  unfold Backchannel.write
  dsimp only
  cases found : (session.arraysAfter channel.cursor).getLast? with
  | none =>
    refine ⟨sound, fun writable => ?_⟩
    rw [getLast?_eq_none_iff, after, ← length_eq_zero_iff, length_records, length_drop] at found
    apply le_antisymm (reach_le below inRange)
    have cursor := sound.cursor writable
    have start := le_reach known (channel.transit.map ArrayRecord.id)
    omega
  | some last =>
    dsimp only
    by_cases writable : channel.writable = true
    · rw [if_pos writable]
      have cursor := sound.cursor writable
      have start := le_reach known (channel.transit.map ArrayRecord.id)
      have lastMember := mem_of_getLast? found
      have ids : (session.arraysAfter channel.cursor).map ArrayRecord.id =
          range' (max session.acknowledgedArrayId channel.cursor + 1)
            (enqueued.length - max session.acknowledgedArrayId channel.cursor) := by
        rw [after, records_ids, length_drop]
      have genuine : ∀ array ∈ session.arraysAfter channel.cursor,
          array ∈ records encodedBytes 1 enqueued := by
        intro array member
        rw [after] at member
        obtain ⟨beyond, stored, size⟩ := mem_records.mp member
        refine mem_records.mpr ⟨by omega, ?_, size⟩
        rw [getElem?_drop] at stored
        rw [← stored]
        congr 1
        omega
      have lastId : last.id = enqueued.length := by
        have lastIds : ((session.arraysAfter channel.cursor).map ArrayRecord.id).getLast? =
            some last.id := by rw [getLast?_map, found]; rfl
        rw [ids] at lastIds
        rw [getLast?_range'] at lastIds
        simp at lastIds
        omega
      have reached : reach known ((channel.transit ++
          session.arraysAfter channel.cursor).map ArrayRecord.id) = enqueued.length := by
        apply le_antisymm
        · refine reach_le below ?_
          intro id member
          rw [map_append, ids, mem_append] at member
          rcases member with old | new
          · exact inRange id old
          · rw [mem_range'_1] at new
            omega
        · rw [← lastId]
          exact le_reach_of_mem (mem_map_of_mem (mem_append_right _ lastMember))
      refine ⟨⟨?_, ?_, ?_⟩, fun _ => reached⟩
      · intro array member
        rcases mem_append.mp member with old | new
        · exact sound.genuine array old
        · exact genuine array new
      · rw [map_append, unbroken_append, ids]
        exact ⟨sound.unbroken, unbroken_range' (by omega) _⟩
      · intro still
        rw [reached]
        by_cases polling : channel.polling = true
        · simp [polling] at still
        · rw [if_neg polling]
          exact lastId.le
    · rw [if_neg writable]
      exact ⟨sound, fun writable' => absurd writable' writable⟩

end

theorem sever : (channel.sever).Sound encodedBytes enqueued known :=
  ⟨fun _ member => absurd member not_mem_nil, trivial, nofun⟩

end Backchannel.Sound

/-! ## Whole histories -/

namespace Reverse

theorem take_frame (array : ArrayRecord Value) :
    (reverse.take array).enqueued = reverse.enqueued ∧
      (reverse.take array).channels = reverse.channels := by
  unfold take
  split_ifs <;> exact ⟨rfl, rfl⟩

theorem enqueue_refused {encodedBytes : Value → Nat} {payload : Value} {reverse : Reverse Value}
    (refused : (reverse.enqueue encodedBytes payload).2 = false) :
    (reverse.enqueue encodedBytes payload).1 = reverse := by
  unfold enqueue at refused ⊢
  split
  · rename_i result
    simp [result] at refused
  · rfl

/-- The client has the first arrays, and every backchannel continues from there. -/
structure Faithful (encodedBytes : Value → Nat) (reverse : Reverse Value) : Prop where
  retained : Retained encodedBytes reverse.session reverse.enqueued
  ids : reverse.received.map fst = range' 1 reverse.received.length
  payloads : reverse.received.map snd = reverse.enqueued.take reverse.received.length
  acknowledged : reverse.session.acknowledgedArrayId ≤ reverse.received.length
  channels : ∀ channel ∈ reverse.channels,
    channel.Sound encodedBytes reverse.enqueued reverse.received.length

variable {encodedBytes : Value → Nat} {noop : Value} {reverse : Reverse Value}

namespace Faithful

theorem start : Faithful encodedBytes ({} : Reverse Value) :=
  ⟨Retained.start, rfl, rfl, le_refl _, fun _ member => absurd member not_mem_nil⟩

section

variable (faithful : reverse.Faithful encodedBytes)
include faithful

theorem received_le : reverse.received.length ≤ reverse.enqueued.length := by
  have lengths := congrArg length faithful.payloads
  rw [length_map, length_take] at lengths
  omega

theorem lastReceived : reverse.lastReceived = reverse.received.length := by
  unfold Reverse.lastReceived
  rw [← getLast?_map, faithful.ids, getLast?_range']
  split_ifs with none
  · rw [none]
    rfl
  · rw [Option.getD_some]
    omega

theorem enqueue (payload : Value) :
    (reverse.enqueue encodedBytes payload).1.Faithful encodedBytes := by
  unfold Reverse.enqueue
  cases result : reverse.session.enqueue encodedBytes payload with
  | error failure => exact faithful
  | ok pair =>
    obtain ⟨retained, floor⟩ := faithful.retained.enqueue result
    refine ⟨retained, faithful.ids, ?_, ?_, ?_⟩
    · rw [take_append_of_le_length faithful.received_le]
      exact faithful.payloads
    · rw [floor]
      exact faithful.acknowledged
    · exact fun channel member => (faithful.channels channel member).mono (le_refl _)

theorem acknowledge {aid : Nat}
    (honest : aid ≤ reverse.lastReceived) : (reverse.acknowledge aid).Faithful encodedBytes := by
  rw [faithful.lastReceived] at honest
  refine ⟨faithful.retained.acknowledge (honest.trans faithful.received_le), faithful.ids,
    faithful.payloads, ?_, faithful.channels⟩
  exact max_le faithful.acknowledged honest

theorem replace {channels : List (Backchannel Value)} (sound : ∀ channel ∈ channels,
      channel.Sound encodedBytes reverse.enqueued reverse.received.length) :
    Faithful encodedBytes { reverse with channels } :=
  ⟨faithful.retained, faithful.ids, faithful.payloads, faithful.acknowledged, sound⟩

theorem modify (index : Nat) {change : Backchannel Value → Backchannel Value}
    (sound : ∀ channel ∈ reverse.channels,
      (change channel).Sound encodedBytes reverse.enqueued reverse.received.length) :
    Faithful encodedBytes { reverse with channels := reverse.channels.modify index change } :=
  faithful.replace (forall_mem_modify faithful.channels sound index)

theorem attach {aid : Nat} (polling : Bool) (honest : aid ≤ reverse.received.length) :
    Faithful encodedBytes
      { reverse with channels := reverse.channels ++ [⟨aid, polling, true, []⟩] } := by
  apply faithful.replace
  intro channel member
  rcases mem_append.mp member with old | new
  · exact faithful.channels channel old
  · rw [mem_singleton.mp new]
    exact ⟨fun _ member => absurd member not_mem_nil, trivial, fun _ => honest⟩

theorem write (index : Nat) : (reverse.write index).Faithful encodedBytes :=
  faithful.modify index fun channel member =>
    ((faithful.channels channel member).write faithful.retained faithful.acknowledged
      faithful.received_le).1

theorem seen_iff {id : Nat} :
    id ∈ reverse.received.map fst ↔ 1 ≤ id ∧ id ≤ reverse.received.length := by
  rw [faithful.ids, mem_range'_1]
  omega

theorem length_take (genuine : array ∈ records encodedBytes 1 reverse.enqueued)
    (joins : array.id ≤ reverse.received.length + 1) :
    (reverse.take array).received.length = max reverse.received.length array.id := by
  have positive := (mem_records.mp genuine).1
  unfold Reverse.take
  split_ifs with seen
  · have known := (faithful.seen_iff.mp seen).2
    omega
  · rw [faithful.seen_iff] at seen
    rw [length_append, length_singleton]
    omega

theorem take (genuine : array ∈ records encodedBytes 1 reverse.enqueued)
    (joins : array.id ≤ reverse.received.length + 1) :
    (reverse.take array).Faithful encodedBytes := by
  obtain ⟨positive, stored, -⟩ := mem_records.mp genuine
  unfold Reverse.take
  split_ifs with seen
  · exact faithful
  · rw [faithful.seen_iff] at seen
    have next : array.id = reverse.received.length + 1 := by omega
    have grows : (reverse.received ++ [(array.id, array.payload)]).length =
        reverse.received.length + 1 := by rw [length_append, length_singleton]
    refine ⟨faithful.retained, ?_, ?_, ?_, ?_⟩
    · rw [map_append, faithful.ids, grows, range'_1_concat, next]
      simp [Nat.add_comm]
    · rw [next, Nat.add_sub_cancel] at stored
      rw [map_append, faithful.payloads, grows, take_add_one, stored]
      rfl
    · rw [grows]
      exact faithful.acknowledged.trans (Nat.le_add_right ..)
    · intro channel member
      rw [grows, ← append_nil reverse.enqueued]
      exact (faithful.channels channel member).mono (Nat.le_add_right ..)

theorem read (index : Nat) : (reverse.read index).Faithful encodedBytes := by
  unfold Reverse.read
  split
  · rename_i channel found
    split
    · rename_i array transit waiting
      have sound := faithful.channels channel (mem_of_getElem? found)
      have genuine := sound.genuine array (waiting ▸ mem_cons_self ..)
      have unbroken := sound.unbroken
      rw [waiting] at unbroken
      have taken := faithful.take genuine unbroken.1
      have grows := faithful.length_take genuine unbroken.1
      have same := reverse.take_frame array
      apply taken.replace
      intro other member
      rcases mem_or_eq_of_mem_set member with old | rfl
      · exact taken.channels other (same.2 ▸ old)
      · rw [same.1, grows]
        refine ⟨fun later inTransit => sound.genuine later ?_, unbroken.2, fun writable => ?_⟩
        · rw [waiting]
          exact mem_cons_of_mem _ inTransit
        · have cursor := sound.cursor writable
          rw [waiting] at cursor
          exact cursor
    · exact faithful
  · exact faithful

theorem timeout (index : Nat) :
    (reverse.timeout encodedBytes noop index).Faithful encodedBytes := by
  have enqueued := faithful.enqueue noop
  unfold Reverse.timeout
  split
  · rename_i channel found
    dsimp only
    split_ifs with writable polling kept
    · exact enqueued.write index
    · rw [enqueue_refused (Bool.eq_false_iff.mpr kept)]
      apply faithful.replace
      intro other member
      rcases mem_or_eq_of_mem_set member with old | rfl
      · exact faithful.channels other old
      · have sound := faithful.channels channel (mem_of_getElem? found)
        exact ⟨sound.genuine, sound.unbroken, nofun⟩
    · exact enqueued
    · exact faithful
  · exact faithful

end

end Faithful

theorem faithful_step (reverse : Reverse Value) (action : ReverseStep Value)
    (honest : reverse.Honest action) (faithful : reverse.Faithful encodedBytes) :
    (reverse.step encodedBytes noop action).Faithful encodedBytes := by
  cases action with
  | enqueue payload => exact faithful.enqueue payload
  | acknowledge aid => exact faithful.acknowledge honest
  | stream aid =>
    have known : aid ≤ reverse.received.length := faithful.lastReceived ▸ honest
    have opened := (faithful.acknowledge honest).enqueue noop
    have same : ((reverse.acknowledge aid).enqueue encodedBytes noop).1.received =
        reverse.received := by
      unfold enqueue
      split <;> rfl
    unfold step
    dsimp only
    split_ifs
    · exact opened.attach false (same ▸ known)
    · exact opened
  | poll aid =>
    have known : aid ≤ reverse.received.length := faithful.lastReceived ▸ honest
    exact (faithful.acknowledge honest).attach true known
  | write index => exact faithful.write index
  | timeout index => exact faithful.timeout index
  | read index => exact faithful.read index
  | sever index => exact faithful.modify index fun _ _ => Backchannel.Sound.sever

theorem faithful_run {steps : List (ReverseStep Value)}
    (honest : AllSteps (step encodedBytes noop) Honest {} steps) :
    (run (step encodedBytes noop) {} steps).Faithful encodedBytes :=
  invariant_run (Faithful encodedBytes) faithful_step Faithful.start honest

theorem read_all (noop : Value) {index : Nat} {channel : Backchannel Value}
    (faithful : reverse.Faithful encodedBytes) (found : reverse.channels[index]? = some channel) :
    let later := run (step encodedBytes noop) reverse
      (replicate channel.transit.length (.read index))
    later.received.length = reach reverse.received.length (channel.transit.map ArrayRecord.id) ∧
      later.enqueued = reverse.enqueued ∧ later.Faithful encodedBytes := by
  obtain ⟨cursor, polling, writable, transit⟩ := channel
  induction transit generalizing reverse with
  | nil => exact ⟨rfl, rfl, faithful⟩
  | cons array transit ih =>
    have sound := faithful.channels _ (mem_of_getElem? found)
    have grows := faithful.length_take (sound.genuine array (mem_cons_self ..)) sound.unbroken.1
    have first : reverse.read index = { reverse.take array with
        channels := reverse.channels.set index ⟨cursor, polling, writable, transit⟩ } := by
      unfold read
      rw [found]
    have within := (List.getElem?_eq_some_iff.mp found).1
    have rest := ih (faithful.read index) (by
      rw [first]
      exact getElem?_set_self within)
    have received : (reverse.read index).received.length =
        max reverse.received.length array.id := by rw [first]; exact grows
    have enqueued : (reverse.read index).enqueued = reverse.enqueued := by
      rw [first]
      exact (reverse.take_frame array).1
    rw [received, enqueued] at rest
    exact rest

/-- Whatever breaks, the client receives the payloads in order, numbered from one; the
session retains what was not acknowledged, counts its bytes and keeps both limits; and a
backchannel that may write gives the client everything there is. -/
theorem reverse_arrays_reliable (encodedBytes : Value → Nat) (noop : Value)
    (steps : List (ReverseStep Value))
    (honest : Runs.AllSteps (step encodedBytes noop) Honest {} steps) :
    let reverse := run (step encodedBytes noop) {} steps
    reverse.received.map Prod.fst = range' 1 reverse.received.length ∧
      reverse.received.map Prod.snd = reverse.enqueued.take reverse.received.length ∧
      (∀ id payload, reverse.session.acknowledgedArrayId < id →
        reverse.enqueued[id - 1]? = some payload →
        ⟨id, payload, encodedBytes payload⟩ ∈ reverse.session.arrays) ∧
      reverse.session.arrayBytes = (reverse.session.arrays.map fun array =>
        encodedBytes array.payload).sum ∧
      reverse.session.arrays.length ≤ maximumUnacknowledgedArrays ∧
      reverse.session.arrayBytes ≤ maximumUnacknowledgedBytes ∧
      ∀ index channel, reverse.channels[index]? = some channel → channel.writable = true →
        let later := run (step encodedBytes noop) reverse (.write index ::
          replicate (channel.write reverse.session).transit.length (.read index))
        later.received.map Prod.snd = reverse.enqueued := by
  intro reverse
  have faithful : reverse.Faithful encodedBytes := faithful_run honest
  refine ⟨faithful.ids, faithful.payloads, ?_, ?_, faithful.retained.few,
    faithful.retained.small, ?_⟩
  · intro id payload above stored
    rw [faithful.retained.arrays]
    refine mem_records.mpr ⟨above, ?_, rfl⟩
    rw [getElem?_drop, ← stored]
    dsimp only
    congr 1
    omega
  · rw [faithful.retained.bytes, faithful.retained.arrays]
    exact congrArg sum (records_sizes _ _).symm
  · intro index channel found writable later
    have reached := ((faithful.channels channel (mem_of_getElem? found)).write
      faithful.retained faithful.acknowledged faithful.received_le).2 writable
    have written : (reverse.write index).channels[index]? = some (channel.write reverse.session) := by
      unfold write
      rw [getElem?_modify, found]
      simp
    obtain ⟨length, enqueued, still⟩ := read_all noop (faithful.write index) written
    have payloads := still.payloads
    rw [length, enqueued] at payloads
    rw [show (reverse.write index).received = reverse.received from rfl, reached,
      show (reverse.write index).enqueued = reverse.enqueued from rfl, take_length] at payloads
    exact payloads

end Reverse

namespace Sample

/-- A stream breaks after the first of three arrays was read; the client goes on with a
long poll from there, and acknowledges what it has. -/
def broken : List (ReverseStep Nat) :=
  [.stream 0, .enqueue 7, .enqueue 8, .write 0, .read 0, .sever 0, .poll 1, .write 1, .read 1,
    .enqueue 9, .acknowledge 2]

end Sample

namespace Reverse

theorem reverse_arrays_reliable_sample :
    let reverse := run (step id 0) {} Sample.broken
    reverse.received = [(1, 0), (2, 7)] ∧
      reverse.session.arrays.map ArrayRecord.payload = [8, 9] ∧
      reverse.received.map Prod.fst = range' 1 reverse.received.length ∧
      reverse.received.map Prod.snd = reverse.enqueued.take reverse.received.length := by
  have honest : AllSteps (step id 0) Honest {} Sample.broken := by decide +kernel
  have reliable := reverse_arrays_reliable id 0 Sample.broken honest
  exact ⟨by decide +kernel, by decide +kernel, reliable.1, reliable.2.1⟩

end Reverse
end Firenook.WebChannel
