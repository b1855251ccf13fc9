import Firenook.Text
import Firenook.Runs

/-!
# Delivery of background events

An admitted event is posted to the Functions port, which hands it to the worker of the
function's codebase.  The bridge posts again when the answer says that no worker was
reached.  Each attempt meets circumstances of its own: the link to the port, the registry
at that time, and what the worker does; the contact that the attempt made with a worker is
kept beside the answer, and nothing in the code can see it.
-/

namespace Firenook.Functions

open List

/-- A header map: lower case names, the first value of a name counts. -/
abbrev Headers := List (Text × Text)

def insertHeader (name value : Text) (headers : Headers) : Headers :=
  headers.filter (·.1 ≠ name) ++ [(name, value)]

structure Response where
  status : Nat
  headers : Headers
  body : Text

def deliveryHeader : Text := "x-firenook-delivery".toList
def deliveryHandled : Text := "handled".toList
def handlerErrorHeader : Text := "x-firenook-handler-error".toList
def controlTarget : Text := "x-firenook-target".toList
def controlSignature : Text := "x-firenook-signature".toList
def controlService : Text := "x-firenook-service".toList

def hopByHop : List Text :=
  ["connection", "keep-alive", "proxy-authenticate", "proxy-authorization", "te", "trailer",
    "transfer-encoding", "upgrade"].map String.toList

structure DispatchRequest where
  path : Text
  headers : Headers
  body : List UInt8
  eventId : Text
  deriving DecidableEq

/-! ## The Functions port -/

inductive Signature
  | http
  | event
  | cloudEvent
  deriving DecidableEq

def Signature.asStr : Signature → Text
  | .http => "http".toList
  | .event => "event".toList
  | .cloudEvent => "cloudevent".toList

structure Definition where
  id : Text
  name : Text
  entryPoint : Text
  signature : Signature

structure Record where
  key : Text
  definition : Definition
  codebase : Text
  enabled : Bool
  /-- The source no longer exports the function. -/
  stale : Bool

structure Backend where
  id : Text
  directory : Text

structure Host where
  records : List Record
  backends : List Backend
  debugMode : Bool

inductive Contact
  | unreached
  | reached
  | started
  deriving DecidableEq

inductive WorkerReply
  /-- No answer before the time limit of the function. -/
  | silent (contact : Contact)
  /-- The connection failed or was dropped. -/
  | failed (contact : Contact) (error : Text)
  | answered (contact : Contact) (response : Response)

structure WorkerRequest where
  origin : Text
  path : Text
  headers : Headers
  body : List UInt8

structure Surroundings where
  host : Host
  /-- Reading the request's body can fail. -/
  readBody : List UInt8 → Except Text (List UInt8)
  decodeBase64 : List UInt8 → Option (List UInt8)
  /-- The origin of the live worker, which is started if needed. -/
  origin : Backend → Except Text Text
  worker : WorkerRequest → WorkerReply

def poweredBy : Text × Text := ("x-powered-by".toList, "Express".toList)

def expressText (status : Nat) (contentType body : Text) : Response :=
  ⟨status, [("content-type".toList, contentType), poweredBy], body⟩

def plainText : Text := "text/plain; charset=utf-8".toList

/-- The answer of the official proxy when the worker dropped the connection. -/
def proxyFailure : Response := ⟨500, [poweredBy], "\x7b\"code\":\"ECONNRESET\"\x7d".toList⟩

def unknownFunction (keys : List Text) (triggerId : Text) : Response :=
  expressText 404 "text/html; charset=utf-8".toList
    ("Function ".toList ++ triggerId ++ " does not exist, valid functions are: ".toList ++
      intercalate ", ".toList keys)

def forwardedHeaders (definition : Definition) (headers : Headers) : Headers :=
  headers.filter (fun header => !(hopByHop.contains header.1 || header.1 = controlTarget ||
      header.1 = controlSignature || header.1 = controlService)) ++
    [(controlTarget, definition.entryPoint), (controlSignature, definition.signature.asStr),
      (controlService, definition.name)]

def isEncoded (definition : Definition) (headers : Headers) : Bool :=
  definition.signature = .cloudEvent &&
    (headers.lookup "content-type".toList).any fun value =>
      value.tails.any ("application/protobuf".toList.isPrefixOf ·)

/-- The headers and the body for the worker; it is sent the decoded bytes. -/
def decodeEvent (decodeBase64 : List UInt8 → Option (List UInt8)) (definition : Definition)
    (headers : Headers) (bytes : List UInt8) : Headers × List UInt8 :=
  if isEncoded definition headers then
    let decoded := (decodeBase64 bytes).getD bytes
    (insertHeader "content-length".toList (Nat.toDigits 10 decoded.length) headers, decoded)
  else (headers, bytes)

def relay (upstream : Response) : Response :=
  if (upstream.headers.lookup handlerErrorHeader).isSome then
    { proxyFailure with
      headers := insertHeader deliveryHeader deliveryHandled proxyFailure.headers }
  else
    { upstream with
      headers := insertHeader deliveryHeader deliveryHandled
        (upstream.headers.filter fun header => !hopByHop.contains header.1) }

variable (surroundings : Surroundings)

/-- Hands a request to the worker; no response if the worker is silent and no limit set. -/
def proxy (request : WorkerRequest) : Option Response × Contact :=
  match surroundings.worker request with
  | .silent contact => (if surroundings.host.debugMode then none else some proxyFailure, contact)
  | .failed contact _ => (some proxyFailure, contact)
  | .answered contact upstream => (some (relay upstream), contact)

/-- `handleHttpsTrigger`: looks the record up and proxies to the worker. -/
def dispatch (triggerId path : Text) (headers : Headers)
    (body : List UInt8) : Option Response × Contact :=
  let host := surroundings.host
  match host.records.find? (·.key = triggerId) with
  | none => (some (unknownFunction (host.records.map Record.key) triggerId), .unreached)
  | some record =>
    if record.stale then (some proxyFailure, .unreached)
    else if !record.enabled then (some ⟨204, [poweredBy], []⟩, .unreached)
    else
      match host.backends.find? (·.id = record.codebase) with
      | none =>
        (some (expressText 500 plainText "Internal Error: backend not found".toList), .unreached)
      | some backend =>
        match surroundings.readBody body with
        | .error error =>
          (some (expressText 400 plainText ("invalid request body: ".toList ++ error)), .unreached)
        | .ok bytes =>
          let (headers, bytes) :=
            decodeEvent surroundings.decodeBase64 record.definition headers bytes
          match surroundings.origin backend with
          | .error error =>
            (some (expressText 500 plainText ("Failed to start functions in ".toList ++
              backend.directory ++ ": ".toList ++ error)), .unreached)
          | .ok origin =>
            proxy surroundings ⟨origin, path, forwardedHeaders record.definition headers, bytes⟩

/-! ## The bridge -/

inductive Link
  /-- It could not be made. -/
  | refused (error : Text)
  /-- It broke, or the request timed out, before the answer; perhaps the port had the
  request. -/
  | broken (arrived : Bool) (error : Text)
  | intact

structure Circumstances where
  link : Link
  surroundings : Surroundings
  latencyMicros : Nat

inductive Exchange
  | response (response : Response)
  | connectError (error : Text)
  | lost (error : Text)

variable (circumstances : Circumstances)

/-- One request of the bridge to the route of one trigger, whose answer is taken as it comes:
the route that fans out to several triggers is left out, and redirects are not followed. -/
def post (triggerId : Text) (request : DispatchRequest) : Exchange × Contact :=
  let (answer, contact) :=
    dispatch circumstances.surroundings triggerId "/".toList request.headers request.body
  match circumstances.link with
  | .refused error => (.connectError error, .unreached)
  | .broken arrived error => (.lost error, if arrived then contact else .unreached)
  | .intact =>
    match answer with
    | some response => (.response response, contact)
    | none => (.lost "operation timed out".toList, contact)

inductive DeliveryOutcome
  | delivered (retries latencyMicros : Nat)
  | assumedDelivered (retries : Nat) (reason : Text)
  | failed (retries : Nat) (error : Text)

structure DeliveryPolicy where
  maxConcurrent : Nat
  maxAttempts : Nat
  initialRetryDelay : Nat
  maximumRetryDelay : Nat
  dedupeCapacity : Nat

def validatePolicy (policy : DeliveryPolicy) : Bool :=
  !(policy.maxConcurrent = 0 || policy.maxAttempts = 0 || policy.dedupeCapacity = 0 ||
    policy.maximumRetryDelay < policy.initialRetryDelay)

def isSuccess (status : Nat) : Bool := 200 ≤ status && status < 300

/-- Whether the answer says that the port could not reach a worker. -/
def retryable (response : Response) : Bool :=
  ((500 ≤ response.status && response.status < 600) || response.status = 429) &&
    response.headers.lookup deliveryHeader ≠ some deliveryHandled

def hostReturned (response : Response) : Text :=
  "Functions host returned ".toList ++ Nat.toDigits 10 response.status

def deliverFrom (policy : DeliveryPolicy) (triggerId : Text) (request : DispatchRequest)
    (world : Nat → Circumstances) : Nat → Nat → DeliveryOutcome × List Contact
  | 0, _ =>
    (.failed (policy.maxAttempts - 1) "Functions delivery exhausted without an outcome".toList, [])
  | remaining + 1, attempt =>
    let (exchange, contact) := post (world attempt) triggerId request
    let retry :=
      let (outcome, contacts) := deliverFrom policy triggerId request world remaining (attempt + 1)
      (outcome, contact :: contacts)
    match exchange with
    | .response response =>
      if isSuccess response.status then
        (.delivered (attempt - 1) (world attempt).latencyMicros, [contact])
      else if retryable response && attempt ≠ policy.maxAttempts then retry
      else (.failed (attempt - 1) (hostReturned response), [contact])
    | .connectError error =>
      if attempt = policy.maxAttempts then
        (.failed (attempt - 1) ("Functions host connection failed: ".toList ++ error), [contact])
      else retry
    | .lost error =>
      (.assumedDelivered (attempt - 1) ("Functions host response was lost: ".toList ++ error),
        [contact])

/-- All attempts of an event; none if its path is no URL below the endpoint. -/
def deliver (policy : DeliveryPolicy) (route : Except Text Text) (request : DispatchRequest)
    (world : Nat → Circumstances) : DeliveryOutcome × List Contact :=
  match route with
  | .error error => (.failed 0 ("invalid dispatch path: ".toList ++ error), [])
  | .ok triggerId => deliverFrom policy triggerId request world policy.maxAttempts 1

/-! ## Handlers run once -/

/-- Every worker that is reached answers: it neither falls silent nor breaks off. -/
def Surroundings.Responsive : Prop :=
  ∀ request contact, contact ≠ .unreached →
    surroundings.worker request ≠ .silent contact ∧
      ∀ error, surroundings.worker request ≠ .failed contact error

theorem lookup_insertHeader (name value : Text) (headers : Headers) :
    (insertHeader name value headers).lookup name = some value := by
  unfold insertHeader
  induction headers with
  | nil => simp
  | cons header headers ih =>
    rw [filter_cons]
    split_ifs with other
    · rw [cons_append, lookup_cons]
      have differs : name ≠ header.1 := fun same => by simp [same] at other
      rw [beq_eq_false_iff_ne.mpr differs]
      exact ih
    · exact ih

theorem lookup_relay (upstream : Response) :
    (relay upstream).headers.lookup deliveryHeader = some deliveryHandled := by
  unfold relay
  split_ifs
  · exact lookup_insertHeader ..
  · exact lookup_insertHeader ..

theorem proxy_marked {surroundings : Surroundings} (responsive : surroundings.Responsive)
    {request : WorkerRequest} {response : Response} {contact : Contact}
    (result : proxy surroundings request = (some response, contact))
    (contacted : contact ≠ .unreached) :
    response.headers.lookup deliveryHeader = some deliveryHandled := by
  unfold proxy at result
  cases reply : surroundings.worker request with
  | silent other =>
    rw [reply] at result
    have same : other = contact := congrArg Prod.snd result
    exact absurd (same ▸ reply) (responsive request contact contacted).1
  | failed other error =>
    rw [reply] at result
    have same : other = contact := congrArg Prod.snd result
    exact absurd (same ▸ reply) ((responsive request contact contacted).2 error)
  | answered other upstream =>
    rw [reply] at result
    cases result
    exact lookup_relay upstream

theorem dispatch_marked {surroundings : Surroundings} {triggerId path : Text} {headers : Headers}
    {body : List UInt8} (responsive : surroundings.Responsive) {response : Response}
    {contact : Contact}
    (result : dispatch surroundings triggerId path headers body = (some response, contact))
    (contacted : contact ≠ .unreached) :
    response.headers.lookup deliveryHeader = some deliveryHandled := by
  -- every exit before the proxy leaves the worker unreached
  have early : ∀ {other : Response}, (some other, Contact.unreached) = (some response, contact) →
      response.headers.lookup deliveryHeader = some deliveryHandled := by
    intro other same
    cases same
    exact absurd rfl contacted
  unfold dispatch at result
  dsimp only at result
  split at result
  · exact early result
  · split_ifs at result
    · exact early result
    · exact early result
    · split at result
      · exact early result
      · split at result
        · exact early result
        · split at result
          · exact early result
          · exact proxy_marked responsive result contacted

/-- An attempt that gives reason to retry reached no worker, if workers are responsive. -/
theorem post_unreached (triggerId : Text) (request : DispatchRequest) {contact : Contact}
    (responsive : circumstances.surroundings.Responsive) :
    (∀ {response}, post circumstances triggerId request = (.response response, contact) →
      retryable response = true → contact = .unreached) ∧
    ∀ {error}, post circumstances triggerId request = (.connectError error, contact) →
      contact = .unreached := by
  unfold post
  dsimp only
  constructor
  · intro response result retried
    split at result
    · cases result
    · cases result
    · split at result
      · rename_i answer known
        cases result
        by_contra contacted
        have marked := dispatch_marked responsive (Prod.ext known rfl) contacted
        simp [retryable, marked] at retried
      · cases result
  · intro error result
    split at result
    · cases result
      rfl
    · cases result
    · split at result <;> cases result

theorem deliverFrom_once {policy : DeliveryPolicy} {triggerId : Text} {request : DispatchRequest}
    {world : Nat → Circumstances} (remaining attempt : Nat)
    (responsive : ∀ made, attempt ≤ made → made < attempt + remaining →
      (world made).surroundings.Responsive) :
    ∀ contact ∈ (deliverFrom policy triggerId request world remaining attempt).2.dropLast,
      contact = .unreached := by
  induction remaining generalizing attempt with
  | zero => exact fun contact member => absurd member not_mem_nil
  | succ remaining ih =>
    -- one more attempt, which made no contact, before the others
    have more : ∀ first, first = Contact.unreached → ∀ contact ∈ (first ::
        (deliverFrom policy triggerId request world remaining (attempt + 1)).2).dropLast,
        contact = .unreached := by
      intro first unreached contact member
      generalize others : (deliverFrom policy triggerId request world remaining
        (attempt + 1)).2 = contacts at member
      cases contacts with
      | nil => cases member
      | cons next contacts =>
        rcases mem_cons.mp member with rfl | later
        · exact unreached
        · exact ih (attempt + 1) (fun made after below => responsive made (by omega) (by omega))
            contact (others ▸ later)
    have single : ∀ first : Contact, ∀ contact ∈ [first].dropLast, contact = .unreached :=
      fun first contact member => absurd member not_mem_nil
    have unreached := @post_unreached (world attempt) triggerId request
      (post (world attempt) triggerId request).2 (responsive attempt le_rfl (by omega))
    unfold deliverFrom
    dsimp only
    split
    · rename_i response exchange
      split_ifs with success retried
      · exact single _
      · rw [Bool.and_eq_true] at retried
        exact more _ (unreached.1 (Prod.ext exchange rfl) retried.1)
      · exact single _
    · rename_i error exchange
      split_ifs
      · exact single _
      · exact more _ (unreached.2 (Prod.ext exchange rfl))
    · exact single _

/-- If every worker that is reached answers in time, attempts are repeated only after such
that reached none: all contacts but the last one are none. -/
theorem handlers_at_most_once (policy : DeliveryPolicy) (route : Except Text Text)
    (request : DispatchRequest) (world : Nat → Circumstances)
    (responsive : ∀ attempt, 1 ≤ attempt → attempt ≤ policy.maxAttempts →
      (world attempt).surroundings.Responsive) :
    ∀ first second : Nat, first < second →
      ∀ contact, (deliver policy route request world).2[first]? = some contact →
      (deliver policy route request world).2[second]? ≠ none → contact = .unreached := by
  intro first second before contact made later
  have others : contact ∈ (deliver policy route request world).2.dropLast := by
    have within : second < (deliver policy route request world).2.length := by
      by_contra beyond
      exact later (List.getElem?_eq_none (not_lt.mp beyond))
    refine List.mem_of_getElem? (i := first) ?_
    rw [List.getElem?_dropLast, if_pos (by omega)]
    exact made
  unfold deliver at others
  split at others
  · cases others
  · exact deliverFrom_once _ _ (fun made first last => responsive made first (by omega)) contact
      others

namespace Sample

def definition : Definition := ⟨"f".toList, "f".toList, "f".toList, .event⟩

def host : Host :=
  ⟨[⟨"f".toList, definition, "default".toList, true, false⟩],
    [⟨"default".toList, "functions".toList⟩], false⟩

def facing (reply : WorkerReply) : Circumstances where
  link := .intact
  surroundings :=
    { host
      readBody := .ok
      decodeBase64 := some
      origin := fun _ => .ok "http://127.0.0.1".toList
      worker := fun _ => reply }
  latencyMicros := 0

def policy : DeliveryPolicy := ⟨32, 5, 25, 1000, 100000⟩

def request : DispatchRequest := ⟨"/f".toList, [], [], "event".toList⟩

def contacts (first second : WorkerReply) : List Contact :=
  (deliver policy (.ok "f".toList) request fun attempt =>
    facing (if attempt = 1 then first else second)).2

def succeeded : WorkerReply := .answered .started ⟨200, [], []⟩

end Sample

open Sample

theorem handlers_at_most_once_sample :
    contacts (.failed .unreached "refused".toList) succeeded =
        [.unreached, .started] ∧
      ∀ first second : Nat, first < second → ∀ contact,
        (contacts (.failed .unreached "refused".toList) succeeded)[first]? =
          some contact →
        (contacts (.failed .unreached "refused".toList) succeeded)[second]? ≠ none →
        contact = .unreached := by
  refine ⟨by decide +kernel, handlers_at_most_once _ _ _ _ ?_⟩
  intro attempt _ _ request contact contacted
  by_cases first : attempt = 1
  · refine ⟨fun silent => ?_, fun error failed => ?_⟩
    · simp [first, facing] at silent
    · simp [first, facing] at failed
      exact contacted failed.1.symm
  · refine ⟨fun silent => ?_, fun error failed => ?_⟩
    · simp [first, facing, succeeded] at silent
    · simp [first, facing, succeeded] at failed

/-- A handler that started runs a second time if it exceeds the time limit of its function,
or if its worker drops the connection. -/
theorem handler_repeated :
    contacts (.silent .started) succeeded = [.started, .started] ∧
      contacts (.failed .started "reset".toList) succeeded =
        [.started, .started] := by
  decide +kernel

end Firenook.Functions
