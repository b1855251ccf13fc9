import Firenook.ForwardMaps
import Firenook.ReverseArrays

/-!
# Limits of a session

What the limits on pending maps and unacknowledged arrays mean for a whole session: how
much it retains, and what becomes of a backend failure that meets a full replay buffer.
-/

namespace Firenook.WebChannel

open List Runs SessionState

variable {Value Message : Type}

/-! ## Retained entries -/

inductive SessionRequest (Value : Type)
  | sendMaps (ofs : Nat) (maps : List (MapMessage Value))
  | enqueue (payload : Value)
  | acknowledge (aid : Nat)

def SessionRequest.mapsSent : SessionRequest Value → Nat
  | .sendMaps _ maps => maps.length
  | _ => 0

namespace SessionState

variable (encodedBytes : Value → Nat) (state : SessionState Value)

def serve : SessionRequest Value → SessionState Value
  | .sendMaps ofs maps => (state.sendMaps encodedBytes ofs maps).1
  | .enqueue payload =>
    match state.enqueue encodedBytes payload with
    | .ok (after, _) => after
    | .error _ => state
  | .acknowledge aid => state.acknowledge aid

/-- The entries for forward maps, pending and seen, and for reverse arrays. -/
def entries : Nat :=
  state.pendingMaps.size + state.seenMaps.length + state.arrays.length

/-- The limits on pending maps and arrays hold, and every seen map was sent. -/
structure Limited (sent : Nat) (state : SessionState Value) : Prop where
  pending : state.pendingMaps.size ≤ maximumPendingForwardMaps
  seen : state.seenMaps.length ≤ sent
  arrays : state.arrays.length ≤ maximumUnacknowledgedArrays

variable {state : SessionState Value} {sent : Nat}

namespace Limited

section

variable (limited : Limited sent state)
include limited

theorem mono {more : Nat} (grows : sent ≤ more) : Limited more state :=
  ⟨limited.pending, limited.seen.trans grows, limited.arrays⟩

theorem bufferMaps (ofs : Nat) (maps : List (MapMessage Value)) :
    Limited (sent + maps.length) (state.bufferMaps encodedBytes ofs maps).1 := by
  induction maps generalizing state sent with
  | nil => exact limited
  | cons message maps ih =>
    have marked : Limited (sent + 1)
        { state with seenMaps := (ofs, message.localId) :: state.seenMaps } :=
      ⟨limited.pending, Nat.succ_le_succ limited.seen, limited.arrays⟩
    rw [bufferMaps, length_cons, Nat.add_comm maps.length, ← Nat.add_assoc]
    dsimp only
    split_ifs with _ _ _ room
    · exact limited.mono (by omega)
    · exact ih (limited.mono (Nat.le_succ _))
    · exact ih marked
    · refine ih ⟨?_, marked.seen, marked.arrays⟩
      rw [pendingRoom, Bool.and_eq_true, decide_eq_true_eq] at room
      exact Std.ExtTreeMap.size_insert_le.trans room.1
    · exact marked.mono (by omega)

theorem takeReady (fuel : Nat) : Limited sent (state.takeReady fuel).1 := by
  induction fuel generalizing state with
  | zero => exact limited
  | succ fuel ih =>
    rw [takeReady]
    split
    · exact limited
    · exact ih ⟨Std.ExtTreeMap.size_erase_le.trans limited.pending, limited.seen, limited.arrays⟩

theorem serve (request : SessionRequest Value) :
    Limited (sent + request.mapsSent) (state.serve encodedBytes request) := by
  cases request with
  | sendMaps ofs maps =>
    have buffered := limited.bufferMaps encodedBytes ofs maps
    unfold SessionState.serve sendMaps
    dsimp only
    split
    · exact buffered
    · exact buffered.takeReady _
  | enqueue payload =>
    dsimp only [SessionState.serve]
    split
    · next ok =>
      unfold enqueue at ok
      split_ifs at ok with full
      cases ok
      refine ⟨limited.pending, limited.seen, ?_⟩
      rw [length_append]
      exact not_le.mp (not_or.mp full).1
    · exact limited
  | acknowledge aid =>
    exact ⟨limited.pending, limited.seen,
      (dropAcknowledged_sublist ..).length_le.trans limited.arrays⟩

theorem run (requests : List (SessionRequest Value)) :
    Limited (sent + (requests.map SessionRequest.mapsSent).sum)
      (run (SessionState.serve encodedBytes) state requests) := by
  induction requests generalizing state sent with
  | nil => exact limited
  | cons request requests ih =>
    rw [map_cons, sum_cons, ← Nat.add_assoc]
    exact ih (limited.serve encodedBytes request)

end

end Limited

/-- While the maps sent over the whole session keep a limit, so does what it retains. -/
theorem entries_bounded (limit : Nat) (requests : List (SessionRequest Value))
    (few : (requests.map SessionRequest.mapsSent).sum ≤ limit) :
    (run (serve encodedBytes) {} requests).entries ≤
      maximumPendingForwardMaps + limit + maximumUnacknowledgedArrays := by
  have start : Limited 0 ({} : SessionState Value) :=
    ⟨Nat.zero_le _, le_refl _, Nat.zero_le _⟩
  have limited := start.run encodedBytes requests
  have pending := limited.pending
  have seen := limited.seen
  have arrays := limited.arrays
  unfold entries
  omega

theorem entries_bounded_sample :
    (run (serve id) {} [.sendMaps 0 [⟨0, 7⟩, ⟨2, 9⟩], .enqueue 5]).entries = 4 ∧
      (run (serve id) {} [.sendMaps 0 [⟨0, 7⟩, ⟨2, 9⟩], .enqueue 5]).entries ≤
        maximumPendingForwardMaps + 2 + maximumUnacknowledgedArrays :=
  ⟨by decide +kernel, entries_bounded id 2 _ (by decide)⟩

/-- What is left when so many maps were sent one by one and each was handed over. -/
def handedOver (count : Nat) : SessionState Unit :=
  { seenMaps := ((range count).map fun ofs => (ofs, 0)).reverse, nextForwardMapId := count }

theorem serve_handedOver {count : Nat} (small : count < 2 ^ 64) :
    (handedOver count).serve (fun _ => 2) (.sendMaps count [⟨0, ()⟩]) = handedOver (count + 1) := by
  have new : (handedOver count).seenMaps.contains (count, 0) = false := by simp [handedOver]
  have taken : ((∅ : Std.ExtTreeMap Nat (PendingMap Unit)).insert count ⟨(), 2⟩).erase count = ∅ := by
    ext id
    simp
  have buffered : (handedOver count).bufferMaps (fun _ => 2) count [⟨0, ()⟩] =
      ({ seenMaps := (count, 0) :: (handedOver count).seenMaps, nextForwardMapId := count,
         pendingMapBytes := 2, pendingMaps := .insert ∅ count ⟨(), 2⟩ }, none) := by
    rw [bufferMaps, if_neg (by simpa using small), new]
    simp [bufferMaps, handedOver, pendingRoom, insertPending, maximumPendingForwardMaps,
      maximumPendingForwardBytes]
  rw [serve, sendMaps, buffered]
  simp [Std.ExtTreeMap.size_insert, takeReady, taken, handedOver, range_succ]

/-- Maps handed over at once are remembered for good: short of the ids themselves nothing
limits the entries. -/
theorem seen_maps_accumulate : ¬∃ bound < 2 ^ 64, ∀ requests : List (SessionRequest Unit),
    (run (serve fun _ => 2) {} requests).entries ≤ bound := by
  rintro ⟨bound, small, within⟩
  have handed : ∀ count ≤ bound + 1, run (serve fun _ => 2) {}
      ((range count).map fun ofs => .sendMaps ofs [⟨0, ()⟩]) = handedOver count := by
    intro count
    induction count with
    | zero => exact fun _ => rfl
    | succ count ih =>
      intro below
      rw [range_succ, map_append, run_append, ih (by omega)]
      exact serve_handedOver (by omega)
  have most := within ((range (bound + 1)).map fun ofs => .sendMaps ofs [⟨0, ()⟩])
  rw [handed (bound + 1) (le_refl _)] at most
  simp [entries, handedOver] at most

end SessionState

/-! ## Backend failures -/

structure BackendError where
  status : String
  message : String
  deriving DecidableEq

inductive Payload (Message : Type)
  | noop
  | message (message : Message)
  | error (error : BackendError)
  deriving DecidableEq

def ProtocolError.message : ProtocolError → String
  | .badRequest message | .capacity message => message

structure Responding (Message : Type) where
  reverse : Reverse (Payload Message) := {}
  reading : Bool := true
  terminated : Bool := false
  terminalError : Option BackendError := none

inductive RespondingStep (Message : Type)
  /-- The backend stream gives a message or an error, or ends. -/
  | response (response : Option (Except BackendError Message))
  | terminate
  /-- The task notices that the session is terminated. -/
  | leave
  /-- Requests and backchannels; what they enqueue themselves are keep-alives. -/
  | client (step : ReverseStep (Payload Message))

namespace Responding

variable (encodedBytes : Payload Message → Nat) (session : Responding Message)

def fail (error : BackendError) : Responding Message :=
  { session with
    terminalError := some error
    reverse := (session.reverse.enqueue encodedBytes (.error error)).1 }

def respond : Option (Except BackendError Message) → Responding Message
  | none => { session with reading := false }
  | some (.ok message) =>
    match session.reverse.session.enqueue encodedBytes (.message message) with
    | .ok _ =>
      { session with reverse := (session.reverse.enqueue encodedBytes (.message message)).1 }
    | .error failure =>
      { session.fail encodedBytes ⟨"RESOURCE_EXHAUSTED", failure.message⟩ with reading := false }
  | some (.error error) => { session.fail encodedBytes error with reading := false }

def step (session : Responding Message) : RespondingStep Message → Responding Message
  | .response response => if session.reading then session.respond encodedBytes response else session
  | .terminate => { session with terminated := true }
  | .leave => { session with reading := session.reading && !session.terminated }
  | .client (.enqueue _) => session
  | .client step => { session with reverse := session.reverse.step encodedBytes .noop step }

/-- An error stands in the sequence of arrays, with no message behind it. -/
def Reported (payloads : List (Payload Message)) : Prop :=
  ∃ before error after, payloads = before ++ .error error :: after ∧
    ∀ message, Payload.message message ∉ after

/-- The replay buffer has room for the report of an error, unless the session is over. -/
def Reportable (error : BackendError) : Prop :=
  session.terminated = true ∨
    (session.reverse.session.arrays.length < maximumUnacknowledgedArrays ∧
      session.reverse.session.arrayBytes + encodedBytes (.error error) ≤ maximumUnacknowledgedBytes)

/-- The task meets an error of the stream, or a message that the buffer refuses. -/
def Fails : RespondingStep Message → Prop
  | .response (some (.error _)) => session.reading = true
  | .response (some (.ok message)) => session.reading = true ∧ ∃ failure,
    session.reverse.session.enqueue encodedBytes (.message message) = .error failure
  | _ => False

def Roomy : RespondingStep Message → Prop
  | .response (some (.error error)) => session.Reportable encodedBytes error
  | .response (some (.ok message)) => ∀ failure,
    session.reverse.session.enqueue encodedBytes (.message message) = .error failure →
      session.Reportable encodedBytes ⟨"RESOURCE_EXHAUSTED", failure.message⟩
  | _ => True

end Responding

namespace Reverse

variable {encodedBytes : Value → Nat} {noop : Value} {reverse : Reverse Value}

theorem enqueued_enqueue (payload : Value) :
    (reverse.enqueue encodedBytes payload).1.enqueued = reverse.enqueued ∨
      (reverse.enqueue encodedBytes payload).1.enqueued = reverse.enqueued ++ [payload] := by
  unfold enqueue
  split
  · exact .inr rfl
  · exact .inl rfl

theorem enqueued_step {action : ReverseStep Value} (other : ∀ payload, action ≠ .enqueue payload) :
    (reverse.step encodedBytes noop action).enqueued = reverse.enqueued ∨
      (reverse.step encodedBytes noop action).enqueued = reverse.enqueued ++ [noop] := by
  cases action with
  | enqueue payload => exact absurd rfl (other payload)
  | acknowledge | poll | write | sever => exact .inl rfl
  | stream aid =>
    dsimp only [step]
    split_ifs <;> exact enqueued_enqueue noop
  | timeout index =>
    dsimp only [step, timeout]
    split
    · split_ifs
      · exact enqueued_enqueue noop
      · exact enqueued_enqueue noop
      · exact enqueued_enqueue noop
      · exact .inl rfl
    · exact .inl rfl
  | read index =>
    left
    dsimp only [step, read]
    split
    · split
      · exact (take_frame ..).1
      · rfl
    · rfl

end Reverse

namespace Responding

variable {encodedBytes : Payload Message → Nat} {session : Responding Message}

theorem Reported.keepAlive {payloads later : List (Payload Message)} (reported : Reported payloads)
    (grown : later = payloads ∨ later = payloads ++ [.noop]) : Reported later := by
  obtain ⟨before, error, after, rfl, behind⟩ := reported
  rcases grown with rfl | rfl
  · exact ⟨before, error, after, rfl, behind⟩
  · refine ⟨before, error, after ++ [.noop], by rw [append_assoc, cons_append], ?_⟩
    intro message member
    rcases mem_append.mp member with old | new
    · exact behind message old
    · cases mem_singleton.mp new

/-- The task is gone, and the client can learn of it. -/
structure Settled (session : Responding Message) : Prop where
  stopped : session.reading = false
  reported : Reported session.reverse.enqueued ∨ session.terminated = true

theorem settled_fail {error : BackendError} (reportable : session.Reportable encodedBytes error) :
    Settled { session.fail encodedBytes error with reading := false } := by
  refine ⟨rfl, ?_⟩
  rcases reportable with ended | ⟨few, small⟩
  · exact .inr ended
  · refine .inl ⟨session.reverse.enqueued, error, [], ?_, fun _ => not_mem_nil⟩
    have fits : ¬(maximumUnacknowledgedArrays ≤ session.reverse.session.arrays.length ∨
        maximumUnacknowledgedBytes <
          session.reverse.session.arrayBytes + encodedBytes (.error error)) := by omega
    dsimp only [fail, Reverse.enqueue, enqueue]
    rw [if_neg fits]

theorem settled_of_fails {action : RespondingStep Message}
    (fails : session.Fails encodedBytes action) (roomy : session.Roomy encodedBytes action) :
    (session.step encodedBytes action).Settled := by
  match action with
  | .response (some (.error error)) =>
    dsimp only [step]
    rw [if_pos (show session.reading = true from fails)]
    exact settled_fail roomy
  | .response (some (.ok message)) =>
    obtain ⟨reading, failure, refused⟩ := fails
    dsimp only [step, respond]
    rw [if_pos reading, refused]
    exact settled_fail (roomy failure refused)

theorem settled_step (session : Responding Message) (action : RespondingStep Message)
    (settled : session.Settled) : (session.step encodedBytes action).Settled := by
  obtain ⟨stopped, reported⟩ := settled
  cases action with
  | response response => simpa [step, stopped] using ⟨stopped, reported⟩
  | terminate => exact ⟨stopped, .inr rfl⟩
  | leave => exact ⟨by simp [step, stopped], reported⟩
  | client action =>
    have others : (∀ payload, action ≠ .enqueue payload) →
        Settled { session with reverse := session.reverse.step encodedBytes .noop action } :=
      fun other => ⟨stopped, reported.imp_left fun reported =>
        reported.keepAlive (Reverse.enqueued_step other)⟩
    cases action with
    | enqueue payload => exact ⟨stopped, reported⟩
    | _ => exact others nofun

end Responding

namespace Sample

def exhausting : List (RespondingStep Unit) :=
  replicate 64 (.response (some (.ok ()))) ++ .response (some (.error ⟨"ABORTED", "late"⟩)) ::
    .client (.poll 0) :: .client (.write 0) :: replicate 64 (.client (.read 0)) ++
    [.client (.acknowledge 64)]

end Sample

namespace Responding

/-- When the buffer has room for its report, a failure of the backend stream, or of the
buffer itself, is from then on in the sequence of arrays behind the last message, or the session
is terminated. -/
theorem failures_reported (encodedBytes : Payload Message → Nat)
    (before after : List (RespondingStep Message)) (failure : RespondingStep Message)
    (fails : (run (step encodedBytes) {} before).Fails encodedBytes failure)
    (roomy : (run (step encodedBytes) {} before).Roomy encodedBytes failure) :
    let session := run (step encodedBytes) {} (before ++ failure :: after)
    Reported session.reverse.enqueued ∨ session.terminated = true := by
  intro session
  have settled : session.Settled := by
    dsimp only [session]
    rw [run_append]
    exact invariant_run_unconditional Settled settled_step (settled_of_fails fails roomy) after
  exact settled.reported

theorem failures_reported_sample :
    let session := run (step (fun _ => 1)) {} ([.response (some (.ok ())), .client (.stream 0)] ++
      .response (some (.error ⟨"ABORTED", "late"⟩)) :: [.client (.acknowledge 1)])
    session.terminated = false ∧
      (Reported session.reverse.enqueued ∨ session.terminated = true) :=
  ⟨by decide +kernel, failures_reported (fun _ => 1) [.response (some (.ok ())), .client (.stream 0)]
    [.client (.acknowledge 1)] (.response (some (.error ⟨"ABORTED", "late"⟩)))
    (show _ = true by decide +kernel) (.inr (by decide +kernel))⟩

/-- Sixty-four messages of a mebibyte fill the buffer, and the error behind them is dropped:
the client reads and acknowledges every array there is and hears nothing. -/
theorem failure_unreported :
    let encodedBytes : Payload Unit → Nat := fun payload =>
      match payload with
      | .message _ => 1024 * 1024
      | _ => 60
    let session := run (step encodedBytes) {} Sample.exhausting
    session.terminalError.isSome = true ∧ session.terminated = false ∧
      session.reverse.received.length = 64 ∧ session.reverse.session.arrays.length = 0 ∧
      ¬Reported session.reverse.enqueued := by
  intro encodedBytes session
  have messages : session.reverse.enqueued = replicate 64 (.message ()) := by decide +kernel
  refine ⟨by decide +kernel, by decide +kernel, by decide +kernel, by decide +kernel, ?_⟩
  rw [messages]
  rintro ⟨before, error, after, whole, -⟩
  have member : Payload.error error ∈ replicate 64 (Payload.message ()) := by simp [whole]
  cases eq_of_mem_replicate member

end Responding

end Firenook.WebChannel
