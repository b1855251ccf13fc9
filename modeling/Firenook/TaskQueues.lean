import Firenook.Text
import Firenook.Runs

/-!
# Task queues

The dispatch engine of the tasks emulator: per queue a line of pending tasks, a bucket of
tokens and a number of dispatch slots, driven by the ticks of one timer that all queues
share, and the responses to the requests it sends, which arrive at any later time.

The numbers of a queue's configuration are doubles; the engine is written over any type
with their operations, and times are counted in nanoseconds.
-/

namespace Firenook.Tasks

/-- The operations on doubles that the engine uses. -/
class Doubles (Double : Type) where
  literal : Rat → Double
  /-- `Duration::as_secs_f64` of a number of nanoseconds. -/
  seconds : Nat → Double
  add : Double → Double → Double
  sub : Double → Double → Double
  mul : Double → Double → Double
  div : Double → Double → Double
  powf : Double → Double → Double
  min : Double → Double → Double
  max : Double → Double → Double
  lt : Double → Double → Bool
  le : Double → Double → Bool
  eq : Double → Double → Bool
  nan : Double
  isNan : Double → Bool

instance : Doubles Float where
  literal number := Float.ofInt number.num / Float.ofNat number.den
  seconds duration :=
    Float.ofNat (duration / 1000000000) + Float.ofNat (duration % 1000000000) / 1000000000
  add := (· + ·)
  sub := (· - ·)
  mul := (· * ·)
  div := (· / ·)
  powf := Float.pow
  min left right := if left.isNaN || right < left then right else left
  max left right := if left.isNaN || left < right then right else left
  lt left right := left < right
  le left right := left ≤ right
  eq left right := left == right
  nan := 0 / 0
  isNan := Float.isNaN

section Engine

variable {Double : Type} [Doubles Double]

open Doubles

/-- `Math.min`: `NaN` wins. -/
def jsMin (left right : Double) : Double :=
  if isNan left || isNan right then nan else min left right

/-- `Math.max`: `NaN` wins. -/
def jsMax (left right : Double) : Double :=
  if isNan left || isNan right then nan else max left right

def queueCapacity : Int := 10000

structure QueueConfig (Double : Type) where
  maxAttempts : Double
  maxRetrySeconds : Option Double
  maxBackoffSeconds : Double
  maxDoublings : Double
  minBackoffSeconds : Double
  slots : Nat
  maxDispatchesPerSecond : Double

structure TaskRecord where
  name : Text
  url : Option Text
  headers : List (Text × Text)
  body : Text
  scheduleTime : Option Text
  deadline : Nat
  deriving DecidableEq

def TaskRecord.shortName (task : TaskRecord) : Text :=
  (task.name.reverse.takeWhile (· ≠ '/')).reverse

inductive Status
  | notStarted
  | running
  | retry
  | failed
  | finished
  deriving DecidableEq

structure Dispatch (Double : Type) where
  id : Nat
  task : TaskRecord
  status : Status
  attempt : Nat
  backoffSeconds : Double
  started : Nat
  lastRun : Option Nat
  previousResponse : Option Nat
  executionCount : Nat

structure RunRequest where
  queueKey : Text
  dispatchId : Nat
  url : Option Text
  headers : List (Text × Text)
  body : Text
  deadline : Nat
  deriving DecidableEq

inductive Outcome
  | status (code : Nat)
  /-- The request threw. -/
  | failed

structure TaskQueue (Double : Type) where
  key : Text
  config : QueueConfig Double
  pending : List TaskRecord
  /-- Goes down on dispatch and on removal, so that it can become negative. -/
  count : Int
  /-- Enqueued and not removed, pending or not. -/
  knownNames : List Text
  /-- Every name ever enqueued. -/
  queuedIds : List Text
  slots : List (Option (Dispatch Double))
  /-- The stack of the free slots, its top at the end. -/
  openDispatches : List Nat
  tokens : Double
  maxTokens : Double
  lastTokenUpdate : Nat
  added : List Nat
  completed : List Nat
  failed : List Nat

/-! ## Requests -/

def spread (name value : Text) : List (Text × Text) → List (Text × Text)
  | [] => [(name, value)]
  | (key, old) :: headers =>
    if key = name then (key, value) :: headers else (key, old) :: spread name value headers

def decimal (number : Nat) : Text := Nat.toDigits 10 number

def buildRequest (queueKey : Text) (dispatch : Dispatch Double) (nowMs : Nat) : RunRequest :=
  let task := dispatch.task
  let headers :=
    [("Content-Type".toList, "application/json".toList),
      ("X-CloudTasks-QueueName".toList, queueKey),
      ("X-CloudTasks-TaskName".toList, task.shortName),
      ("X-CloudTasks-TaskRetryCount".toList, decimal (dispatch.attempt - 1)),
      ("X-CloudTasks-TaskExecutionCount".toList, decimal dispatch.executionCount),
      ("X-CloudTasks-TaskETA".toList, task.scheduleTime.getD (decimal nowMs))]
  let headers := task.headers.foldl (fun headers pair => spread pair.1 pair.2 headers) headers
  let headers :=
    match dispatch.previousResponse.filter (· ≠ 0) with
    | some previous =>
      spread "X-CloudTasks-TaskPreviousResponse".toList (decimal previous) headers
    | none => headers
  { queueKey, dispatchId := dispatch.id, url := task.url, headers, body := task.body,
    deadline := task.deadline }

/-! ## Retries -/

/-- Past the attempts, unless there is still time to retry. -/
def shouldStopRetrying (dispatch : Dispatch Double) (config : QueueConfig Double) (now : Nat) :
    Bool :=
  if lt config.maxAttempts (literal dispatch.attempt) then
    match config.maxRetrySeconds with
    | none => true
    | some limit =>
      if eq limit (literal 0) then true
      else lt (mul limit (literal 1000)) (mul (seconds (now - dispatch.started)) (literal 1000))
  else false

/-- Doubles the backoff, and grows it evenly after the last doubling. -/
def updateMetadata (dispatch : Dispatch Double) (config : QueueConfig Double) : Dispatch Double :=
  let attempt : Double := literal dispatch.attempt
  let multiplier :=
    add (powf (literal 2) (jsMin (sub attempt (literal 1)) config.maxDoublings))
      (mul (jsMax (literal 0) (sub (sub attempt config.maxDoublings) (literal 1)))
        (powf (literal 2) config.maxDoublings))
  { dispatch with
    backoffSeconds := jsMin config.maxBackoffSeconds (mul multiplier config.minBackoffSeconds)
    attempt := dispatch.attempt + 1 }

/-! ## One queue -/

namespace TaskQueue

def new (key : Text) (config : QueueConfig Double) (now : Nat) : TaskQueue Double where
  key
  config
  pending := []
  count := 0
  knownNames := []
  queuedIds := []
  slots := List.replicate config.slots none
  openDispatches := List.range config.slots
  tokens := literal 0
  maxTokens := jsMax config.maxDispatchesPerSecond (literal 1.1)
  lastTokenUpdate := now
  added := []
  completed := []
  failed := []

def enqueue (task : TaskRecord) (now : Nat) (queue : TaskQueue Double) :
    Option (TaskQueue Double) :=
  if queue.queuedIds.contains task.name || queueCapacity ≤ queue.count ||
      queue.knownNames.contains task.name then none
  else some
    { queue with
      knownNames := task.name :: queue.knownNames
      queuedIds := task.name :: queue.queuedIds
      pending := queue.pending ++ [task]
      count := queue.count + 1
      added := queue.added ++ [now] }

def remove (name : Text) (queue : TaskQueue Double) : Option (TaskQueue Double) :=
  if queue.knownNames.contains name then some
    { queue with
      knownNames := queue.knownNames.filter (· ≠ name)
      pending := queue.pending.filter (·.name ≠ name)
      count := queue.count - 1 }
  else none

def isActive (queue : TaskQueue Double) : Bool :=
  !queue.pending.isEmpty || queue.slots.any Option.isSome

variable (now : Nat)

def refillTokens (queue : TaskQueue Double) : TaskQueue Double :=
  let elapsed := now - queue.lastTokenUpdate
  if elapsed < 1000000000 then queue
  else
    let added := mul (seconds elapsed) queue.config.maxDispatchesPerSecond
    { queue with
      tokens := jsMin (add queue.tokens added) queue.maxTokens
      lastTokenUpdate := now }

def fill (now id slot : Nat) (task : TaskRecord) (tasks : List TaskRecord)
    (queue : TaskQueue Double) : TaskQueue Double :=
  { queue with
    openDispatches := queue.openDispatches.dropLast
    pending := tasks
    count := queue.count - 1
    slots := queue.slots.set slot (some
      { id, task, status := .notStarted, attempt := 1, backoffSeconds := literal 0, started := now,
        lastRun := none, previousResponse := none, executionCount := 0 })
    tokens := sub queue.tokens (literal 1) }

/-- Pending tasks move while there are free slots and tokens. -/
def dispatchFrom (now : Nat) : List TaskRecord → TaskQueue Double → Nat → TaskQueue Double × Nat
  | [], queue, nextId => (queue, nextId)
  | task :: tasks, queue, nextId =>
    match queue.openDispatches.getLast? with
    | some slot =>
      if le (literal 1) queue.tokens then
        dispatchFrom now tasks (queue.fill now (nextId + 1) slot task tasks) (nextId + 1)
      else (queue, nextId)
    | none => (queue, nextId)

def dispatchTasks (queue : TaskQueue Double) (nextId : Nat) : TaskQueue Double × Nat :=
  dispatchFrom now queue.pending queue nextId

def release (index : Nat) (queue : TaskQueue Double) : TaskQueue Double :=
  { queue with
    slots := queue.slots.set index none
    openDispatches := queue.openDispatches ++ [index] }

def waits (dispatch : Dispatch Double) : Bool :=
  dispatch.lastRun.any fun last => lt (seconds (now - last)) dispatch.backoffSeconds

/-- Frees a finished slot, starts a run, or prepares the next attempt. -/
def processSlot (now nowMs : Nat) (progress : TaskQueue Double × List RunRequest) (index : Nat) :
    TaskQueue Double × List RunRequest :=
  let (queue, runs) := progress
  match queue.slots[index]? with
  | some (some dispatch) =>
    match dispatch.status with
    | .failed =>
      ({ queue.release index with
        completed := queue.completed ++ [now]
        failed := queue.failed ++ [now] }, runs)
    | .finished => ({ queue.release index with completed := queue.completed ++ [now] }, runs)
    | .notStarted =>
      if waits now dispatch then (queue, runs)
      else
        let dispatch := { dispatch with status := .running }
        ({ queue with slots := queue.slots.set index (some dispatch) },
          runs ++ [buildRequest queue.key dispatch nowMs])
    | .retry =>
      let dispatch :=
        if shouldStopRetrying dispatch queue.config now then { dispatch with status := .failed }
        else { updateMetadata dispatch queue.config with status := .notStarted }
      ({ queue with slots := queue.slots.set index (some dispatch) }, runs)
    | .running => (queue, runs)
  | _ => (queue, runs)

def process (now nowMs : Nat) (queue : TaskQueue Double) : TaskQueue Double × List RunRequest :=
  (List.range queue.slots.length).foldl (processSlot now nowMs) (queue, [])

def runs (dispatchId : Nat) (slot : Option (Dispatch Double)) : Bool :=
  slot.any fun dispatch => dispatch.id = dispatchId && dispatch.status = .running

def settle (outcome : Outcome) (now : Nat) (dispatch : Dispatch Double) : Dispatch Double :=
  match outcome with
  | .status code =>
    if 200 ≤ code && code ≤ 299 then { dispatch with status := .finished }
    else
      { dispatch with
        executionCount :=
          if 500 ≤ code && code ≤ 599 then dispatch.executionCount
          else dispatch.executionCount + 1
        previousResponse := some code
        status := .retry
        lastRun := some now }
  | .failed => { dispatch with status := .retry, lastRun := some now }

/-- Writes an outcome to the slot that still holds the dispatch. -/
def complete (dispatchId : Nat) (outcome : Outcome) (now : Nat) (queue : TaskQueue Double) :
    TaskQueue Double :=
  match queue.slots.findIdx? (runs dispatchId) with
  | some index =>
    { queue with slots := queue.slots.modify index (Option.map (settle outcome now)) }
  | none => queue

end TaskQueue

/-! ## All queues -/

/-- `IndexMap::insert`: a known key keeps its place. -/
def insertQueue (key : Text) (queue : TaskQueue Double) :
    List (Text × TaskQueue Double) → List (Text × TaskQueue Double)
  | [] => [(key, queue)]
  | (other, old) :: queues =>
    if other = key then (key, queue) :: queues else (other, old) :: insertQueue key queue queues

/-- The registered queues in the order of their first registration, and the last dispatch
id; besides, the requests that were sent, those that were not answered yet, and the ids of
the slots' fillings. -/
structure TasksRuntime (Double : Type) where
  queues : List (Text × TaskQueue Double) := []
  nextDispatch : Nat := 0
  sent : List RunRequest := []
  outstanding : List RunRequest := []
  filled : List Nat := []

/-- The ids of the dispatches in slots that were empty before. -/
def fillings (before after : List (Option (Dispatch Double))) : List Nat :=
  (List.range after.length).filterMap fun index =>
    match before[index]?, after[index]? with
    | some none, some (some dispatch) => some dispatch.id
    | _, _ => none

inductive TaskStep (Double : Type)
  | registerQueue (key : Text) (config : QueueConfig Double) (now : Nat)
  | enqueue (key : Text) (task : TaskRecord) (now : Nat)
  | remove (key name : Text)
  | refill (key : Text) (now : Nat)
  | dispatch (key : Text) (now : Nat)
  | process (key : Text) (now nowMs : Nat)
  /-- The response to an outstanding request. -/
  | respond (index : Nat) (outcome : Outcome) (now : Nat)

namespace TasksRuntime

variable (runtime : TasksRuntime Double)

def queue? (key : Text) : Option (TaskQueue Double) :=
  runtime.queues.lookup key

variable (key : Text)

def setQueue (queue : TaskQueue Double) (runtime : TasksRuntime Double) : TasksRuntime Double :=
  { runtime with queues := insertQueue key queue runtime.queues }

def registerQueue (config : QueueConfig Double) (now : Nat)
    (runtime : TasksRuntime Double) : TasksRuntime Double :=
  runtime.setQueue key (.new key config now)

def change (operation : TaskQueue Double → Option (TaskQueue Double))
    (runtime : TasksRuntime Double) : TasksRuntime Double :=
  match (runtime.queue? key).bind operation with
  | some queue => runtime.setQueue key queue
  | none => runtime

def enqueue (task : TaskRecord) (now : Nat) : TasksRuntime Double → TasksRuntime Double :=
  change key (TaskQueue.enqueue task now)

def remove (key name : Text) : TasksRuntime Double → TasksRuntime Double :=
  change key (TaskQueue.remove name)

def refill (now : Nat) : TasksRuntime Double → TasksRuntime Double :=
  change key fun queue => some (queue.refillTokens now)

def dispatch (now : Nat) (runtime : TasksRuntime Double) : TasksRuntime Double :=
  match runtime.queue? key with
  | some queue =>
    let (after, nextDispatch) := queue.dispatchTasks now runtime.nextDispatch
    { runtime.setQueue key after with
      nextDispatch
      filled := runtime.filled ++ fillings queue.slots after.slots }
  | none => runtime

def process (now nowMs : Nat) (runtime : TasksRuntime Double) : TasksRuntime Double :=
  match runtime.queue? key with
  | some queue =>
    let (after, runs) := queue.process now nowMs
    { runtime.setQueue key after with
      sent := runtime.sent ++ runs
      outstanding := runtime.outstanding ++ runs }
  | none => runtime

/-- What the sender of a request does when it is answered. -/
def complete (request : RunRequest) (outcome : Outcome) (now : Nat) :
    TasksRuntime Double → TasksRuntime Double :=
  change request.queueKey fun queue => some (queue.complete request.dispatchId outcome now)

def respond (index : Nat) (outcome : Outcome) (now : Nat) (runtime : TasksRuntime Double) :
    TasksRuntime Double :=
  match runtime.outstanding[index]? with
  | some request =>
    { runtime.complete request outcome now with
      outstanding := runtime.outstanding.eraseIdx index }
  | none => runtime

def step : TaskStep Double → TasksRuntime Double
  | .registerQueue key config now => runtime.registerQueue key config now
  | .enqueue key task now => runtime.enqueue key task now
  | .remove key name => runtime.remove key name
  | .refill key now => runtime.refill key now
  | .dispatch key now => runtime.dispatch key now
  | .process key now nowMs => runtime.process key now nowMs
  | .respond index outcome now => runtime.respond index outcome now

def visit (now nowMs : Nat) (runtime : TasksRuntime Double) (key : Text) : TasksRuntime Double :=
  let runtime := runtime.refill key now
  if (runtime.queue? key).any TaskQueue.isActive then
    (runtime.dispatch key now).process key now nowMs
  else runtime

def tick (now nowMs : Nat) (runtime : TasksRuntime Double) : TasksRuntime Double :=
  (runtime.queues.map Prod.fst).foldl (visit now nowMs) runtime

end TasksRuntime
end Engine
end Firenook.Tasks
