import Firenook.OrderedMaps
import Firenook.Runs

/-!
# WebChannel sessions

The state of one session: maps that the client sends forward, waiting for the ones before
them, and arrays that the server keeps until the client acknowledges them.  JSON payloads
are left abstract; all that counts is the size of their encoding.
-/

namespace Firenook.WebChannel

def maximumUnacknowledgedArrays : Nat := 4096
def maximumUnacknowledgedBytes : Nat := 64 * 1024 * 1024
def maximumPendingForwardMaps : Nat := 4096
def maximumPendingForwardBytes : Nat := 64 * 1024 * 1024

inductive ProtocolError
  | badRequest (message : String)
  | capacity (message : String)
  deriving DecidableEq

structure MapMessage (Value : Type) where
  localId : Nat
  value : Value

structure PendingMap (Value : Type) where
  value : Value
  encodedBytes : Nat

structure ArrayRecord (Value : Type) where
  id : Nat
  payload : Value
  encodedBytes : Nat

structure SessionState (Value : Type) where
  arrays : List (ArrayRecord Value) := []
  arrayBytes : Nat := 0
  nextArrayId : Nat := 1
  acknowledgedArrayId : Nat := 0
  /-- Maps by the offset and the local id they were sent under. -/
  seenMaps : List (Nat × Nat) := []
  pendingMaps : Std.ExtTreeMap Nat (PendingMap Value) := ∅
  pendingMapBytes : Nat := 0
  nextForwardMapId : Nat := 0

namespace SessionState

variable {Value : Type} (encodedBytes : Value → Nat)

/-! ## Forward maps -/

def pendingRoom (state : SessionState Value) (bytes : Nat) : Bool :=
  state.pendingMaps.size < maximumPendingForwardMaps &&
    state.pendingMapBytes + bytes ≤ maximumPendingForwardBytes

def insertPending (id : Nat) (value : Value) (bytes : Nat) (state : SessionState Value) :
    SessionState Value :=
  { state with
    pendingMapBytes := state.pendingMapBytes + bytes
    pendingMaps := state.pendingMaps.insert id ⟨value, bytes⟩ }

/-- Buffers the maps of one request, passing over those seen before.  A map counts as seen
before there is room for it. -/
def bufferMaps (ofs : Nat) :
    List (MapMessage Value) → SessionState Value → SessionState Value × Option ProtocolError
  | [], state => (state, none)
  | message :: maps, state =>
    if 2 ^ 64 ≤ ofs + message.localId then
      (state, some (.badRequest "WebChannel forward map ID overflow"))
    else if state.seenMaps.contains (ofs, message.localId) then bufferMaps ofs maps state
    else
      let id := ofs + message.localId
      let state := { state with seenMaps := (ofs, message.localId) :: state.seenMaps }
      if id < state.nextForwardMapId || state.pendingMaps.contains id then bufferMaps ofs maps state
      else if state.pendingRoom (encodedBytes message.value) then
        bufferMaps ofs maps (state.insertPending id message.value (encodedBytes message.value))
      else (state, some (.capacity "WebChannel pending forward map buffer is full"))

/-- Takes the maps that are next in line, with their ids; each turn takes one pending map. -/
def takeReady : Nat → SessionState Value → SessionState Value × List (Nat × Value)
  | 0, state => (state, [])
  | fuel + 1, state =>
    match state.pendingMaps[state.nextForwardMapId]? with
    | none => (state, [])
    | some map =>
      let (taken, ready) := takeReady fuel { state with
        pendingMaps := state.pendingMaps.erase state.nextForwardMapId
        pendingMapBytes := state.pendingMapBytes - map.encodedBytes
        nextForwardMapId := state.nextForwardMapId + 1 }
      (taken, (state.nextForwardMapId, map.value) :: ready)

/-- The part of `send_maps` under the state lock: the maps to hand over, or the error that
ends the request. -/
def sendMaps (ofs : Nat) (maps : List (MapMessage Value)) (state : SessionState Value) :
    SessionState Value × Except ProtocolError (List (Nat × Value)) :=
  let (buffered, failure) := state.bufferMaps encodedBytes ofs maps
  match failure with
  | some failure => (buffered, .error failure)
  | none =>
    let (taken, ready) := buffered.takeReady buffered.pendingMaps.size
    (taken, .ok ready)

/-! ## Reverse arrays -/

def enqueue (payload : Value) (state : SessionState Value) :
    Except ProtocolError (SessionState Value × Nat) :=
  if maximumUnacknowledgedArrays ≤ state.arrays.length ∨
      maximumUnacknowledgedBytes < state.arrayBytes + encodedBytes payload then
    .error (.capacity "WebChannel unacknowledged replay buffer is full")
  else
    .ok ({ state with
      nextArrayId := state.nextArrayId + 1
      arrayBytes := state.arrayBytes + encodedBytes payload
      arrays := state.arrays ++ [⟨state.nextArrayId, payload, encodedBytes payload⟩] },
      state.nextArrayId)

def dropAcknowledged (aid : Nat) : List (ArrayRecord Value) → Nat → List (ArrayRecord Value) × Nat
  | [], bytes => ([], bytes)
  | array :: arrays, bytes =>
    if array.id ≤ aid then dropAcknowledged aid arrays (bytes - array.encodedBytes)
    else (array :: arrays, bytes)

def acknowledge (aid : Nat) (state : SessionState Value) : SessionState Value :=
  let (arrays, arrayBytes) := dropAcknowledged aid state.arrays state.arrayBytes
  { state with arrays, arrayBytes, acknowledgedArrayId := max state.acknowledgedArrayId aid }

def arraysAfter (aid : Nat) (state : SessionState Value) : List (ArrayRecord Value) :=
  state.arrays.filter fun array => aid < array.id

theorem dropAcknowledged_sublist (aid : Nat) (arrays : List (ArrayRecord Value)) (bytes : Nat) :
    (dropAcknowledged aid arrays bytes).1.Sublist arrays := by
  induction arrays generalizing bytes with
  | nil => exact .slnil
  | cons array arrays ih =>
    rw [dropAcknowledged]
    split_ifs
    · exact (ih _).cons _
    · exact .refl _

end SessionState

theorem forall_mem_modify {α : Type} {change : α → α} {property : α → Prop} {values : List α}
    (old : ∀ value ∈ values, property value) (new : ∀ value ∈ values, property (change value))
    (index : Nat) : ∀ value ∈ values.modify index change, property value := by
  intro value member
  obtain ⟨position, found⟩ := List.mem_iff_getElem?.mp member
  rw [List.getElem?_modify] at found
  obtain ⟨before, stored, rfl⟩ := Option.map_eq_some_iff.mp found
  have present := List.mem_of_getElem? stored
  split_ifs
  · exact new before present
  · exact old before present

end Firenook.WebChannel
