import Firenook.WebChannelSession

/-!
# Forward maps of a session

Requests with forward maps take turns: one at a time buffers its maps, takes those that
are next in line and hands them to the backend one after the other.  While it waits for
the backend it can be cancelled, and then the maps it took are gone.
-/

namespace Firenook.WebChannel

open OrderedMaps List SessionState
open Prod (fst)

variable {Value : Type}

/-- The forward side of a session: the session, the maps still to hand over by the request
whose turn it is, and what the backend received.  Every map is kept with its absolute id.
`posted` and `accepted` record the maps of all requests and of those without an error. -/
structure Forward (Value : Type) where
  session : SessionState Value := {}
  handing : Option (List (Nat × Value)) := none
  received : List (Nat × Value) := []
  closed : Bool := false
  posted : List (Nat × Value) := []
  accepted : List Nat := []

inductive ForwardStep (Value : Type)
  /-- A request gets its turn. -/
  | post (ofs : Nat) (maps : List (MapMessage Value))
  /-- The backend takes the next map of the request, or its stream is found closed. -/
  | hand
  /-- The request is dropped while it hands maps over, or while it waits for its turn. -/
  | cancel
  /-- The backend closes its stream. -/
  | close

namespace Forward

def absolute (ofs : Nat) (maps : List (MapMessage Value)) : List (Nat × Value) :=
  maps.map fun message => (ofs + message.localId, message.value)

/-- A request without maps left has had its turn. -/
def turn (maps : List (Nat × Value)) : Option (List (Nat × Value)) :=
  if maps.isEmpty then none else some maps

variable (encodedBytes : Value → Nat)

def step (forward : Forward Value) : ForwardStep Value → Forward Value
  | .post ofs maps =>
    match forward.handing with
    | some _ => forward
    | none =>
      let posted := forward.posted ++ absolute ofs maps
      match forward.session.sendMaps encodedBytes ofs maps with
      | (session, .error _) => { forward with session, posted }
      | (session, .ok ready) =>
        { forward with
          session, posted
          handing := turn ready
          accepted := forward.accepted ++ (absolute ofs maps).map fst }
  | .hand =>
    match forward.handing with
    | some (map :: maps) =>
      if forward.closed then { forward with handing := none }
      else { forward with received := forward.received ++ [map], handing := turn maps }
    | _ => forward
  | .cancel => { forward with handing := none }
  | .close => { forward with closed := true }

/-- No request is dropped while it has maps to hand over, and none meets a full buffer. -/
def Undisturbed (forward : Forward Value) : ForwardStep Value → Prop
  | .post ofs maps => forward.handing = none →
    ∀ message, (forward.session.bufferMaps encodedBytes ofs maps).2 ≠ some (.capacity message)
  | .cancel => forward.handing = none
  | _ => True

end Forward

/-! ## Buffering -/

namespace SessionState

variable {state : SessionState Value}

variable (state)

def Accounted (id : Nat) : Prop :=
  id < state.nextForwardMapId ∨ id ∈ state.pendingMaps

def SeenAccounted : Prop :=
  ∀ ofs localId, (ofs, localId) ∈ state.seenMaps → state.Accounted (ofs + localId)

variable {state}

theorem Accounted.insertPending {id : Nat}
    (accounted : state.Accounted id) (other : Nat) (value : Value) (bytes : Nat) :
    (state.insertPending other value bytes).Accounted id := by
  rcases accounted with taken | pending
  · exact .inl taken
  · exact .inr (Std.ExtTreeMap.mem_insert.mpr (.inr pending))

theorem accounted_insertPending (state : SessionState Value) (id : Nat) (value : Value)
    (bytes : Nat) : (state.insertPending id value bytes).Accounted id :=
  .inr Std.ExtTreeMap.mem_insert_self

structure Buffered (before after : SessionState Value) (ofs : Nat)
    (maps : List (MapMessage Value)) : Prop where
  next : after.nextForwardMapId = before.nextForwardMapId
  accounted : ∀ id, before.Accounted id → after.Accounted id
  sources : ∀ (id : Nat) (map : PendingMap Value), after.pendingMaps[id]? = some map →
    before.pendingMaps[id]? = some map ∨ (id, map.value) ∈ Forward.absolute ofs maps

theorem Buffered.cons {before middle after : SessionState Value} {ofs : Nat}
    {message : MapMessage Value} {maps : List (MapMessage Value)}
    (first : Buffered before middle ofs [message]) (rest : Buffered middle after ofs maps) :
    Buffered before after ofs (message :: maps) where
  next := rest.next.trans first.next
  accounted id accounted := rest.accounted id (first.accounted id accounted)
  sources id map found := by
    rcases rest.sources id map found with earlier | here
    · rcases first.sources id map earlier with before | here
      · exact .inl before
      · refine .inr (mem_cons.mpr (.inl ?_))
        simpa [Forward.absolute] using here
    · exact .inr (mem_cons_of_mem _ here)

section

variable (state : SessionState Value)

theorem buffered_seen (ofs : Nat) (message : MapMessage Value)
    (seenMaps : List (Nat × Nat)) : Buffered state { state with seenMaps } ofs [message] :=
  ⟨rfl, fun _ accounted => accounted, fun _ _ found => .inl found⟩

theorem buffered_insert (ofs : Nat) (message : MapMessage Value)
    (seenMaps : List (Nat × Nat)) (bytes : Nat) : Buffered state
      ({ state with seenMaps }.insertPending (ofs + message.localId) message.value bytes) ofs
      [message] where
  next := rfl
  accounted id accounted := by
    have kept : { state with seenMaps }.Accounted id := accounted
    exact kept.insertPending ..
  sources id map found := by
    rw [insertPending, getElem?_insert_eq] at found
    split_ifs at found with same
    · cases found
      simp [Forward.absolute, same]
    · exact .inl found

theorem buffered_refl (ofs : Nat) (maps : List (MapMessage Value)) :
    Buffered state state ofs maps :=
  ⟨rfl, fun _ accounted => accounted, fun _ _ found => .inl found⟩

end

variable (encodedBytes : Value → Nat)

theorem buffered_bufferMaps (ofs : Nat) (maps : List (MapMessage Value))
    (state : SessionState Value) :
    Buffered state (state.bufferMaps encodedBytes ofs maps).1 ofs maps := by
  induction maps generalizing state with
  | nil => exact buffered_refl ..
  | cons message maps ih =>
    rw [bufferMaps]
    dsimp only
    split_ifs
    · exact buffered_refl ..
    · exact (buffered_refl state ofs [message]).cons (ih _)
    · exact (buffered_seen state ofs message _).cons (ih _)
    · exact (buffered_insert state ofs message _ _).cons (ih _)
    · exact (buffered_seen state ofs message _).cons (buffered_refl ..)

theorem seenAccounted_bufferMaps {ofs : Nat} {maps : List (MapMessage Value)}
    (seen : state.SeenAccounted)
    (room : ∀ message, (state.bufferMaps encodedBytes ofs maps).2 ≠ some (.capacity message)) :
    (state.bufferMaps encodedBytes ofs maps).1.SeenAccounted ∧
      ((state.bufferMaps encodedBytes ofs maps).2 = none → ∀ message ∈ maps,
        (state.bufferMaps encodedBytes ofs maps).1.Accounted (ofs + message.localId)) := by
  induction maps generalizing state with
  | nil => exact ⟨seen, fun _ message member => absurd member not_mem_nil⟩
  | cons first maps ih =>
    -- the other maps are buffered in a state that accounts for the first
    have continue_ : ∀ next : SessionState Value, next.SeenAccounted →
        next.Accounted (ofs + first.localId) →
        (∀ message, (next.bufferMaps encodedBytes ofs maps).2 ≠ some (.capacity message)) →
        (next.bufferMaps encodedBytes ofs maps).1.SeenAccounted ∧
          ((next.bufferMaps encodedBytes ofs maps).2 = none → ∀ message ∈ first :: maps,
            (next.bufferMaps encodedBytes ofs maps).1.Accounted (ofs + message.localId)) := by
      intro next seenNext accounted room
      obtain ⟨seenAfter, all⟩ := ih seenNext room
      refine ⟨seenAfter, fun ok message member => ?_⟩
      rcases mem_cons.mp member with rfl | member
      · exact (buffered_bufferMaps encodedBytes ofs maps next).accounted _ accounted
      · exact all ok message member
    have marked : ∀ {next : SessionState Value}, next.seenMaps =
        (ofs, first.localId) :: state.seenMaps → (∀ id, state.Accounted id → next.Accounted id) →
        next.Accounted (ofs + first.localId) → next.SeenAccounted := by
      intro next same keeps accounted other localId member
      rw [same] at member
      rcases mem_cons.mp member with here | member
      · cases here
        exact accounted
      · exact keeps _ (seen other localId member)
    rw [bufferMaps] at room ⊢
    dsimp only at room ⊢
    split_ifs at room ⊢ with overflow known early fits
    · exact ⟨seen, fun ok => by cases ok⟩
    · exact continue_ state seen (seen _ _ (by simpa using known)) room
    · have accounted : state.Accounted (ofs + first.localId) := by
        rw [Bool.or_eq_true, decide_eq_true_eq] at early
        exact early.imp_right Std.ExtTreeMap.mem_iff_contains.mpr
      exact continue_ _ (marked rfl (fun _ accounted => accounted) accounted) accounted room
    · have accounted := accounted_insertPending
        { state with seenMaps := (ofs, first.localId) :: state.seenMaps } (ofs + first.localId)
        first.value (encodedBytes first.value)
      exact continue_ _ (marked rfl (buffered_insert state ofs first _ _).accounted accounted)
        accounted room
    · exact absurd rfl (room _)

/-! ## Taking what is next in line -/

structure Taken (before after : SessionState Value) (ready : List (Nat × Value)) : Prop where
  next : after.nextForwardMapId = before.nextForwardMapId + ready.length
  ids : ready.map fst = range' before.nextForwardMapId ready.length
  seen : after.seenMaps = before.seenMaps
  accounted : ∀ id, before.Accounted id → after.Accounted id
  pending : ∀ (id : Nat) (map : PendingMap Value), after.pendingMaps[id]? = some map →
    before.pendingMaps[id]? = some map
  sources : ∀ pair ∈ ready, ∃ map, before.pendingMaps[pair.1]? = some map ∧ pair.2 = map.value

theorem taken_takeReady (fuel : Nat) (state : SessionState Value) :
    Taken state (state.takeReady fuel).1 (state.takeReady fuel).2 := by
  induction fuel generalizing state with
  | zero =>
    exact ⟨rfl, rfl, rfl, fun _ accounted => accounted, fun _ _ found => found,
      fun pair member => absurd member not_mem_nil⟩
  | succ fuel ih =>
    rw [takeReady]
    split
    · exact ⟨rfl, rfl, rfl, fun _ accounted => accounted, fun _ _ found => found,
        fun pair member => absurd member not_mem_nil⟩
    · next map found =>
      have rest := ih { state with
        pendingMaps := state.pendingMaps.erase state.nextForwardMapId
        pendingMapBytes := state.pendingMapBytes - map.encodedBytes
        nextForwardMapId := state.nextForwardMapId + 1 }
      have kept : ∀ {id : Nat} {other : PendingMap Value},
          (state.pendingMaps.erase state.nextForwardMapId)[id]? = some other →
          state.pendingMaps[id]? = some other := by
        intro id other stored
        rw [getElem?_erase] at stored
        split_ifs at stored
        exact stored
      constructor
      · rw [rest.next, length_cons]
        dsimp only
        omega
      · rw [map_cons, rest.ids, length_cons, range'_succ]
      · exact rest.seen
      · intro id accounted
        apply rest.accounted
        rcases accounted with taken | pending
        · exact .inl (Nat.lt_succ_of_lt taken)
        · by_cases here : state.nextForwardMapId = id
          · exact .inl (here ▸ Nat.lt_succ_self _)
          · right
            rw [Std.ExtTreeMap.mem_iff_isSome_getElem?] at pending ⊢
            rwa [getElem?_erase, if_neg here]
      · exact fun id other stored => kept (rest.pending id other stored)
      · intro pair member
        rcases mem_cons.mp member with rfl | member
        · exact ⟨map, found, rfl⟩
        · obtain ⟨other, stored, same⟩ := rest.sources pair member
          exact ⟨other, kept stored, same⟩

theorem next_absent_takeReady {fuel : Nat} (enough : state.pendingMaps.size ≤ fuel) :
    (state.takeReady fuel).1.nextForwardMapId ∉ (state.takeReady fuel).1.pendingMaps := by
  induction fuel generalizing state with
  | zero =>
    rw [takeReady, Std.ExtTreeMap.eq_empty_iff_size_eq_zero.mpr (Nat.le_zero.mp enough)]
    exact Std.ExtTreeMap.not_mem_empty
  | succ fuel ih =>
    rw [takeReady]
    split
    · next absent => simp [Std.ExtTreeMap.mem_iff_isSome_getElem?, absent]
    · next map found =>
      apply ih
      have := size_erase_add_one found
      dsimp only
      omega

end SessionState

/-! ## Runs -/

namespace Forward

variable {ofs : Nat} {maps : List (MapMessage Value)}

structure Sound (forward : Forward Value) : Prop where
  /-- The backend received the maps from the first one on, each once. -/
  received : forward.received.map fst = range forward.received.length
  /-- Until the backend closes, received maps and those being handed over are all that
  were taken. -/
  line : forward.closed = false →
    forward.received.map fst ++ (forward.handing.getD []).map fst =
      range forward.session.nextForwardMapId
  sent : (∀ pair ∈ forward.received, pair ∈ forward.posted) ∧
    (∀ pair ∈ forward.handing.getD [], pair ∈ forward.posted) ∧
    ∀ (id : Nat) (map : PendingMap Value), forward.session.pendingMaps[id]? = some map →
      (id, map.value) ∈ forward.posted
  seen : forward.session.SeenAccounted
  accounted : ∀ id ∈ forward.accepted, forward.session.Accounted id
  /-- What was accepted without a gap was taken. -/
  served : ∀ last, (∀ id ≤ last, id ∈ forward.accepted) → last < forward.session.nextForwardMapId

theorem getD_turn (maps : List (Nat × Value)) : (turn maps).getD [] = maps := by
  unfold turn
  split_ifs with empty
  · exact (isEmpty_iff.mp empty).symm
  · rfl

theorem sound_start : Sound ({} : Forward Value) where
  received := rfl
  line _ := rfl
  sent := by simp
  seen ofs localId member := absurd member not_mem_nil
  accounted id member := absurd member not_mem_nil
  served last all := absurd (all last (le_refl _)) not_mem_nil

theorem mem_absolute {id : Nat} :
    id ∈ (absolute ofs maps).map fst ↔ ∃ message ∈ maps, ofs + message.localId = id := by
  simp [absolute]

variable {encodedBytes : Value → Nat} {forward : Forward Value}

theorem step_post_of_error (free : forward.handing = none) {failure : ProtocolError}
    (failed : (forward.session.bufferMaps encodedBytes ofs maps).2 = some failure) :
    forward.step encodedBytes (.post ofs maps) =
      { forward with
        session := (forward.session.bufferMaps encodedBytes ofs maps).1
        posted := forward.posted ++ absolute ofs maps } := by
  have sends : forward.session.sendMaps encodedBytes ofs maps =
      ((forward.session.bufferMaps encodedBytes ofs maps).1, .error failure) := by
    unfold sendMaps
    dsimp only
    rw [failed]
  unfold step
  rw [free]
  dsimp only
  rw [sends]

theorem step_post_of_ok (free : forward.handing = none) {buffered : SessionState Value}
    (ok : forward.session.bufferMaps encodedBytes ofs maps = (buffered, none)) :
    forward.step encodedBytes (.post ofs maps) =
      { forward with
        session := (buffered.takeReady buffered.pendingMaps.size).1
        posted := forward.posted ++ absolute ofs maps
        handing := turn (buffered.takeReady buffered.pendingMaps.size).2
        accepted := forward.accepted ++ (absolute ofs maps).map fst } := by
  have sends : forward.session.sendMaps encodedBytes ofs maps =
      ((buffered.takeReady buffered.pendingMaps.size).1,
        .ok (buffered.takeReady buffered.pendingMaps.size).2) := by
    unfold sendMaps
    rw [ok]
  unfold step
  rw [free]
  dsimp only
  rw [sends]

theorem sound_post (sound : forward.Sound) (free : forward.handing = none) (room : ∀ message,
      (forward.session.bufferMaps encodedBytes ofs maps).2 ≠ some (.capacity message)) :
    (forward.step encodedBytes (.post ofs maps)).Sound := by
  have buffered := buffered_bufferMaps encodedBytes ofs maps forward.session
  obtain ⟨seen, all⟩ := seenAccounted_bufferMaps encodedBytes sound.seen room
  have taken := taken_takeReady
    (forward.session.bufferMaps encodedBytes ofs maps).1.pendingMaps.size
    (forward.session.bufferMaps encodedBytes ofs maps).1
  have absent := next_absent_takeReady
    (le_refl (forward.session.bufferMaps encodedBytes ofs maps).1.pendingMaps.size)
  have sources : ∀ (id : Nat) (map : PendingMap Value),
      (forward.session.bufferMaps encodedBytes ofs maps).1.pendingMaps[id]? = some map →
      (id, map.value) ∈ forward.posted ++ absolute ofs maps := by
    intro id map found
    rcases buffered.sources id map found with before | here
    · exact mem_append_left _ (sound.sent.2.2 id map before)
    · exact mem_append_right _ here
  have line := sound.line
  rw [free] at line
  cases failed : (forward.session.bufferMaps encodedBytes ofs maps).2 with
  | some failure =>
    rw [step_post_of_error free failed]
    refine ⟨sound.received, ?_, ⟨?_, ?_, sources⟩, seen, ?_, ?_⟩
    · intro isOpen
      rw [free, buffered.next]
      exact line isOpen
    · exact fun pair member => mem_append_left _ (sound.sent.1 pair member)
    · rw [free]
      exact fun pair member => absurd member not_mem_nil
    · exact fun id member => buffered.accounted id (sound.accounted id member)
    · intro last accepted
      rw [buffered.next]
      exact sound.served last accepted
  | none =>
    have accounted : ∀ id ∈ forward.accepted ++ (absolute ofs maps).map fst,
        (forward.session.bufferMaps encodedBytes ofs maps).1.Accounted id := by
      intro id member
      rcases mem_append.mp member with before | here
      · exact buffered.accounted id (sound.accounted id before)
      · obtain ⟨message, inMaps, rfl⟩ := mem_absolute.mp here
        exact all failed message inMaps
    rw [step_post_of_ok free (Prod.ext rfl failed)]
    refine ⟨sound.received, ?_, ⟨?_, ?_, ?_⟩, ?_, ?_, ?_⟩
    · intro isOpen
      have before := line isOpen
      rw [Option.getD_none, map_nil, append_nil] at before
      rw [getD_turn, taken.next, taken.ids, before, buffered.next, range_eq_range',
        range_eq_range', ← range'_append_1, Nat.zero_add]
    · exact fun pair member => mem_append_left _ (sound.sent.1 pair member)
    · rw [getD_turn]
      intro pair member
      obtain ⟨map, found, same⟩ := taken.sources pair member
      have := sources pair.1 map found
      rwa [← same] at this
    · exact fun id map found => sources id map (taken.pending id map found)
    · intro other localId member
      rw [taken.seen] at member
      exact taken.accounted _ (seen other localId member)
    · exact fun id member => taken.accounted id (accounted id member)
    · intro last accepted
      by_contra behind
      rcases taken.accounted _ (accounted _ (accepted _ (not_lt.mp behind))) with taken | pending
      · exact lt_irrefl _ taken
      · exact absent pending

theorem sound_hand (sound : forward.Sound) : (forward.step encodedBytes .hand).Sound := by
  unfold step
  dsimp only
  split
  · next map maps handing =>
    have line := sound.line
    have sent := sound.sent
    rw [handing] at line sent
    split_ifs with closed
    · refine ⟨sound.received, ?_, ⟨sent.1, ?_, sent.2.2⟩, sound.seen, sound.accounted,
        sound.served⟩
      · intro isOpen
        rw [closed] at isOpen
        cases isOpen
      · exact fun pair member => absurd member not_mem_nil
    · have isOpen : forward.closed = false := by simpa using closed
      have whole := line isOpen
      have here : map.1 = forward.received.length := by
        have position := congrArg (fun ids => ids[forward.received.length]?) whole
        have within : forward.received.length < forward.session.nextForwardMapId := by
          have lengths := congrArg length whole
          simp at lengths
          omega
        simpa [within] using position
      refine ⟨?_, ?_, ⟨?_, ?_, sent.2.2⟩, sound.seen, sound.accounted, sound.served⟩
      · rw [map_append, sound.received, length_append, length_singleton,
          range_succ, map_singleton, here]
      · rw [getD_turn, ← whole]
        simp
      · intro pair member
        rcases mem_append.mp member with before | now
        · exact sent.1 pair before
        · rw [mem_singleton.mp now]
          exact sent.2.1 map (mem_cons_self ..)
      · rw [getD_turn]
        exact fun pair member => sent.2.1 pair (mem_cons_of_mem _ member)
  · exact sound

theorem sound_step (forward : Forward Value) (action : ForwardStep Value)
    (undisturbed : forward.Undisturbed encodedBytes action) (sound : forward.Sound) :
    (forward.step encodedBytes action).Sound := by
  cases action with
  | post ofs maps =>
    cases free : forward.handing with
    | none => exact sound_post sound free (undisturbed free)
    | some waiting =>
      unfold step
      rw [free]
      exact sound
  | hand => exact sound_hand sound
  | cancel =>
    have idle : forward.step encodedBytes .cancel = forward := by
      unfold step
      rw [← (show forward.handing = none from undisturbed)]
    rw [idle]
    exact sound
  | close =>
    exact ⟨sound.received, nofun, sound.sent, sound.seen,
      sound.accounted, sound.served⟩

/-- In an undisturbed session the backend receives the maps in the order of their absolute
ids, each once and as it was sent, and once every map up to one was accepted, that one is
delivered as soon as the request whose turn it is has handed its maps over. -/
theorem forward_maps_in_order (encodedBytes : Value → Nat) (steps : List (ForwardStep Value))
    (undisturbed : Runs.AllSteps (step encodedBytes) (Undisturbed encodedBytes) {} steps) :
    (Runs.run (step encodedBytes) {} steps).received.map fst =
        range (Runs.run (step encodedBytes) {} steps).received.length ∧
      (∀ pair ∈ (Runs.run (step encodedBytes) {} steps).received,
        pair ∈ (Runs.run (step encodedBytes) {} steps).posted) ∧
      ∀ last, (∀ id ≤ last, id ∈ (Runs.run (step encodedBytes) {} steps).accepted) →
        (Runs.run (step encodedBytes) {} steps).handing = none →
        (Runs.run (step encodedBytes) {} steps).closed = false →
        last ∈ (Runs.run (step encodedBytes) {} steps).received.map fst := by
  have sound := Runs.invariant_run Sound sound_step sound_start undisturbed
  refine ⟨sound.received, sound.sent.1, ?_⟩
  intro last accepted free isOpen
  have line := sound.line isOpen
  rw [free, Option.getD_none, map_nil, append_nil] at line
  rw [line, List.mem_range]
  exact sound.served last accepted

end Forward

namespace Sample

def post (id value : Nat) : ForwardStep Nat := .post id [⟨0, value⟩]

def after (steps : List (ForwardStep Nat)) : Forward Nat := Runs.run (Forward.step id) {} steps

def overtaken : List (ForwardStep Nat) := [post 0 1, .hand, post 2 1, post 1 1, .hand, .hand]

/-- A request with the maps 0 and 1 is cancelled after the first one; then the map 2
arrives, and the maps 0 and 1 are sent again. -/
def cancelled : List (ForwardStep Nat) :=
  [.post 0 [⟨0, 1⟩, ⟨1, 1⟩], .hand, .cancel, post 2 1, .hand, .post 0 [⟨0, 1⟩, ⟨1, 1⟩], post 1 1]

/-- Maps of 30 MiB wait for the map 0, and the third one is refused; once there is room, it
is sent again. -/
def refused : List (ForwardStep Nat) :=
  [post 1 31457280, post 2 31457280, post 3 31457280, post 0 1, .hand, .hand, .hand,
    post 3 31457280]

end Sample

open Firenook.WebChannel.Sample

namespace Forward

theorem forward_maps_in_order_sample :
    (after overtaken).received.map fst =
        range (after overtaken).received.length ∧
      (∀ pair ∈ (after overtaken).received,
        pair ∈ (after overtaken).posted) ∧
      ∀ last, (∀ id ≤ last, id ∈ (after overtaken).accepted) →
        (after overtaken).handing = none →
        (after overtaken).closed = false →
        last ∈ (after overtaken).received.map fst := by
  refine forward_maps_in_order id overtaken ?_
  have first : (({} : SessionState Nat).bufferMaps id 0 [⟨0, 1⟩]).2 = none := by decide +kernel
  have second : ((after [post 0 1, .hand]).session.bufferMaps id 2
      [⟨0, 1⟩]).2 = none := by decide +kernel
  have third : ((after [post 0 1, .hand, post 2 1]).session.bufferMaps id 1
      [⟨0, 1⟩]).2 = none := by decide +kernel
  refine ⟨fun _ message refused => ?_, trivial, fun _ message refused => ?_,
    fun _ message refused => ?_, trivial, trivial, trivial⟩
  · cases first.symm.trans refused
  · cases second.symm.trans refused
  · cases third.symm.trans refused

/-- A cancelled request loses maps it had taken, so that the backend receives later ones
without them; a map refused for lack of room is never delivered, although it is sent again
and accepted when there is room. -/
theorem forward_maps_lost :
    ((after cancelled).received.map fst = [0, 2] ∧
      (after cancelled).accepted = [0, 1, 2, 0, 1, 1] ∧
      (after cancelled).handing = none ∧
      (after cancelled).closed = false) ∧
    (after refused).received.map fst = [0, 1, 2] ∧
      (after refused).accepted = [1, 2, 0, 3] ∧
      (after refused).handing = none ∧
      (after refused).closed = false ∧
      (after refused).session.pendingRoom 31457280 = true := by
  decide +kernel

end Forward
end Firenook.WebChannel
