import Firenook.WriteResults

/-!
# Transactions of several clients

Clients begin transactions, look documents up, run queries and commit, in any
interleaving.  A read is admitted with a snapshot first and records its documents
afterwards, one by one; it is answered when all are recorded.  What the clients were
told is kept beside the service.
-/

namespace Firenook

open Std OrderedMaps List FirestoreService Document

open QueryEngine (Query DatabaseEdition QueryDocument)

inductive Answer
  | lookups (reads : List (DocumentKey × Option Timestamp))
  | query (database : DatabaseName) (query : Query) (results : List (DocumentKey × Timestamp))

def Answer.reads : Answer → List (DocumentKey × Option Timestamp)
  | .lookups reads => reads
  | .query _ _ results => results.map fun result => (result.1, some result.2)

/-- An admitted read with the documents that it still has to record. -/
structure PendingRead where
  token : List UInt8
  answer : Answer
  unrecorded : List (DocumentKey × Option Document)

structure Clients where
  service : FirestoreService
  pending : List PendingRead
  answered : List (List UInt8 × Answer)

inductive ClientEvent
  | beginTransaction (database : DatabaseName) (mode : TransactionMode) (now : Timestamp)
  | takeId
  | getDocument (key : DocumentKey) (token : List UInt8)
      (authorize : Snapshot → Bool → Except Status Unit)
  | batchGetDocuments (database : DatabaseName) (keys : List DocumentKey) (token : List UInt8)
      (authorize : Snapshot → Bool → Except Status Unit)
  | runQuery (database : DatabaseName) (query : Query) (token : List UInt8)
      (authorize : Snapshot → Bool → Except Status Unit)
  | record (index : Nat)
  | commit (request : CommitRequest)
  | rollback (database : DatabaseName) (token : List UInt8)

def observed (read : DocumentKey × Option Document) : DocumentKey × Option Timestamp :=
  (read.1, read.2.map updateTime)

namespace Clients

def start (store : Store) : Clients := ⟨⟨store, ∅, 1⟩, [], []⟩

def enqueue (clients : Clients) (token : List UInt8) (answer : Answer)
    (unrecorded : List (DocumentKey × Option Document)) : Clients :=
  { clients with pending := clients.pending ++ [⟨token, answer, unrecorded⟩] }

def getDocument (clients : Clients) (key : DocumentKey) (token : List UInt8)
    (snapshot : Snapshot) : Clients :=
  match snapshot.get key with
  | none => { clients with answered := clients.answered ++ [(token, .lookups [(key, none)])] }
  | some document =>
    clients.enqueue token (.lookups [(key, some document.updateTime)]) [(key, some document)]

def batchGetDocuments (clients : Clients) (database : DatabaseName) (keys : List DocumentKey)
    (token : List UInt8) (snapshot : Snapshot) : Clients :=
  match batchReads snapshot database keys with
  | .error _ => clients
  | .ok reads => clients.enqueue token (.lookups (reads.map observed)) reads

variable (crc32c : List UInt8 → UInt32) (hypot : Binary64 → Binary64 → Binary64)
  (edition : DatabaseEdition)

/-- The results of a query or an aggregation are recorded as they are consumed. -/
def runQuery (clients : Clients) (database : DatabaseName) (query : Query) (token : List UInt8)
    (snapshot : Snapshot) : Clients :=
  match QueryEngine.execute hypot snapshot database query edition with
  | .ok (some results) =>
    clients.enqueue token
      (.query database query (results.map fun result => (result.key, result.document.updateTime)))
      (results.map fun result => (result.key, some result.document))
  | _ => clients

/-- A read goes on with its snapshot if the service admits it and the rules allow it. -/
def read (clients : Clients) (database : DatabaseName) (token : List UInt8)
    (authorize : Snapshot → Bool → Except Status Unit) (proceed : Snapshot → Clients) : Clients :=
  match clients.service.readSnapshot database token with
  | .error _ => clients
  | .ok (snapshot, readWrite) =>
    match authorize snapshot readWrite with
    | .error _ => clients
    | .ok () => proceed snapshot

/-- The next record of a pending read, or its answer when nothing is left to record. -/
def record (clients : Clients) (index : Nat) : Clients :=
  match clients.pending[index]? with
  | none => clients
  | some read =>
    match read.unrecorded with
    | [] => { clients with
        pending := clients.pending.eraseIdx index
        answered := clients.answered ++ [(read.token, read.answer)] }
    | (key, document) :: rest => { clients with
        service := clients.service.recordRead read.token key document
        pending := clients.pending.set index { read with unrecorded := rest } }

def step (clients : Clients) : ClientEvent → Clients
  | .beginTransaction database mode now =>
    match clients.service.beginTransaction database mode now with
    | .error _ => clients
    | .ok (_, service) => { clients with service := service }
  | .takeId => { clients with service := clients.service.takeId }
  | .getDocument key token authorize =>
    clients.read key.database token authorize (clients.getDocument key token)
  | .batchGetDocuments database keys token authorize =>
    clients.read database token authorize (clients.batchGetDocuments database keys token)
  | .runQuery database query token authorize =>
    clients.read database token authorize (clients.runQuery hypot edition database query token)
  | .record index => clients.record index
  | .commit request => { clients with service := (clients.service.commit crc32c request).1 }
  | .rollback database token =>
    { clients with service := (clients.service.rollback database token).1 }

/-! ## What the read sets hold -/

/-- The update time that a snapshot shows for a key, or that there is no document. -/
def shown (snapshot : Snapshot) (key : DocumentKey) : Option Timestamp :=
  (snapshot.get key).map updateTime

variable (transaction : TransactionState)

/-- A read in progress in the transaction: every document that it will report is
recorded or still to be recorded. -/
def Progress (read : PendingRead) : Prop :=
  (∀ key document, (key, document) ∈ read.unrecorded →
    document.map updateTime = shown transaction.snapshot key) ∧
  ∀ report ∈ read.answer.reads, transaction.reads[report.1]? = some report.2 ∨
    ∃ document, (report.1, document) ∈ read.unrecorded ∧ document.map updateTime = report.2

/-- The transactions, by whether they are read-only, and the answers that a statement
is about. -/
structure Coverage where
  mode : Bool → Prop
  answer : Answer → Prop

def Coverage.everything : Coverage := ⟨fun _ => True, fun _ => True⟩

def Coverage.nothing : Coverage := ⟨fun _ => False, fun _ => False⟩

def Computed (snapshot : Snapshot) : Answer → Prop
  | .lookups _ => True
  | .query database query results => ∃ documents,
      QueryEngine.execute hypot snapshot database query edition = .ok (some documents) ∧
        results = documents.map fun document => (document.key, document.document.updateTime)

/-- The read set of a transaction holds what its clients were told. -/
structure Protects (coverage : Coverage) (clients : Clients) (token : List UInt8)
    (transaction : TransactionState) : Prop where
  genuine : ∀ key time, transaction.reads[key]? = some time → time = shown transaction.snapshot key
  answered : ∀ answer, (token, answer) ∈ clients.answered →
    Computed hypot edition transaction.snapshot answer ∧ (coverage.answer answer →
      ∀ report ∈ answer.reads, transaction.reads[report.1]? = some report.2)
  pending : ∀ read ∈ clients.pending, read.token = token →
    Computed hypot edition transaction.snapshot read.answer ∧ Progress transaction read

def Issued (clients : Clients) (token : List UInt8) : Prop :=
  token = [] ∨ ∃ number, number < clients.service.nextId ∧ token = transactionToken number

structure Admitted (clients : Clients) (token : List UInt8) (snapshot : Snapshot) : Prop where
  issued : clients.Issued token
  shared : ∀ transaction, clients.service.transactions[token]? = some transaction →
    transaction.snapshot = snapshot

structure Tracks (coverage : Coverage) (clients : Clients) : Prop where
  counter : clients.service.nextId < 2 ^ 64
  opened : ∀ token, token ∈ clients.service.transactions → token ≠ [] ∧ clients.Issued token
  answered : ∀ token answer, (token, answer) ∈ clients.answered → clients.Issued token
  pending : ∀ read ∈ clients.pending, clients.Issued read.token
  protects : ∀ token transaction, clients.service.transactions[token]? = some transaction →
    coverage.mode transaction.readOnly → Protects hypot edition coverage clients token transaction

/-- Every covered read records what it reports, and the counter does not wrap. -/
def Recorded (coverage : Coverage) (clients : Clients) : ClientEvent → Prop
  | .beginTransaction _ _ _ => clients.service.nextId + 1 < 2 ^ 64
  | .takeId => clients.service.nextId + 1 < 2 ^ 64
  | .getDocument key token _ => ∀ transaction,
      clients.service.transactions[token]? = some transaction →
        coverage.mode transaction.readOnly → coverage.answer (.lookups [(key, none)]) →
          (transaction.snapshot.get key).isSome
  | .runQuery database query token _ => ∀ transaction results,
      clients.service.transactions[token]? = some transaction →
        coverage.mode transaction.readOnly →
          QueryEngine.execute hypot transaction.snapshot database query edition =
            .ok (some results) →
          ∀ result ∈ results, transaction.snapshot.get result.key = some result.document
  | _ => True

/-! ## Steps -/

theorem transactionToken_ne_nil (number : Nat) : transactionToken number ≠ [] := by
  intro empty
  have length := congrArg length empty
  rw [transactionToken] at length
  simp at length

theorem transactionToken_injective {first second : Nat} (firstBound : first < 2 ^ 64)
    (secondBound : second < 2 ^ 64)
    (same : transactionToken first = transactionToken second) :
    first = second := by
  have numbers := congrArg ByteOrder.fromBigEndian (append_cancel_left same)
  rwa [ByteOrder.fromBigEndian_bigEndian firstBound,
    ByteOrder.fromBigEndian_bigEndian secondBound] at numbers

theorem mem_transactions {service : FirestoreService} {token : List UInt8}
    {transaction : TransactionState} (found : service.transactions[token]? = some transaction) :
    token ∈ service.transactions := by
  simp [ExtTreeMap.mem_iff_isSome_getElem?, found]

theorem getElem?_record (key other : DocumentKey) (document : Option Document) :
    (transaction.record key document).reads[other]? =
      if key = other ∧ transaction.reads[other]? = none then
        some (document.map updateTime)
      else transaction.reads[other]? := by
  rw [TransactionState.record, ExtTreeMap.getElem?_insertIfNew]
  by_cases same : key = other
  · subst same
    simp
  · simp [same]

theorem getElem?_record_of_some {transaction : TransactionState} {key : DocumentKey}
    {time : Option Timestamp} (recorded : transaction.reads[key]? = some time)
    (other : DocumentKey) (document : Option Document) :
    (transaction.record other document).reads[key]? = some time := by
  rw [getElem?_record, recorded, if_neg (by simp)]

section

variable {clients : Clients} {hypot : Binary64 → Binary64 → Binary64} {edition : DatabaseEdition}
  {crc32c : List UInt8 → UInt32} {coverage : Coverage} {service : FirestoreService}
  {token : List UInt8} {database : DatabaseName} {snapshot : Snapshot}
  {transaction : TransactionState} {key : DocumentKey}
  {authorize : Snapshot → Bool → Except Status Unit} {document : Option Document}

theorem tracks_start (store : Store) : Tracks hypot edition coverage (start store) where
  counter := by simp [start]
  opened := by simp [start]
  answered := by simp [start]
  pending := by simp [start]
  protects := by simp [start]

theorem Tracks.shrink (tracks : Tracks hypot edition coverage clients)
    (later : clients.service.nextId ≤ service.nextId) (bound : service.nextId < 2 ^ 64)
    (fewer : ∀ (token : List UInt8) (transaction : TransactionState),
      service.transactions[token]? = some transaction →
        clients.service.transactions[token]? = some transaction) :
    Tracks hypot edition coverage { clients with service := service } := by
  have issued : ∀ token, clients.Issued token →
      Issued { clients with service := service } token := by
    rintro token (empty | ⟨number, earlier, isToken⟩)
    · exact .inl empty
    · exact .inr ⟨number, earlier.trans_le later, isToken⟩
  refine ⟨bound, ?_, ?_, ?_, ?_⟩
  · intro token member
    have found : service.transactions[token]? = some (service.transactions[token]) :=
      ExtTreeMap.getElem?_eq_some_getElem member
    obtain ⟨nonempty, before⟩ := tracks.opened token (mem_transactions (fewer token _ found))
    exact ⟨nonempty, issued token before⟩
  · intro token answer member
    exact issued token (tracks.answered token answer member)
  · intro read member
    exact issued read.token (tracks.pending read member)
  · intro token transaction found covered
    obtain ⟨genuine, answered, pending⟩ :=
      tracks.protects token transaction (fewer _ _ found) covered
    exact ⟨genuine, answered, pending⟩

theorem nextId_takeId (bound : service.nextId + 1 < 2 ^ 64) :
    service.takeId.nextId = service.nextId + 1 :=
  Nat.mod_eq_of_lt bound

variable {unrecorded : List (DocumentKey × Option Document)}

section

variable (tracks : Tracks hypot edition coverage clients)
include tracks

theorem Tracks.takeId (bound : clients.service.nextId + 1 < 2 ^ 64) :
    Tracks hypot edition coverage { clients with service := clients.service.takeId } := by
  apply tracks.shrink
  · rw [nextId_takeId bound]
    exact Nat.le_succ _
  · rwa [nextId_takeId bound]
  · intro token transaction found
    exact found

theorem Tracks.enqueue (issued : clients.Issued token) {answer : Answer}
    (progress : ∀ transaction, clients.service.transactions[token]? = some transaction →
      coverage.mode transaction.readOnly → Computed hypot edition transaction.snapshot answer ∧
          Progress transaction ⟨token, answer, unrecorded⟩) :
    Tracks hypot edition coverage (clients.enqueue token answer unrecorded) where
  counter := tracks.counter
  opened := tracks.opened
  answered := tracks.answered
  pending := by
    intro read member
    rcases mem_append.mp member with member | member
    · exact tracks.pending read member
    · cases mem_singleton.mp member
      exact issued
  protects := by
    intro other transaction found covered
    obtain ⟨genuine, answered, pending⟩ := tracks.protects other transaction found covered
    refine ⟨genuine, answered, ?_⟩
    intro read member isToken
    rcases mem_append.mp member with member | member
    · exact pending read member isToken
    · cases mem_singleton.mp member
      subst isToken
      exact progress transaction found covered

theorem Tracks.readSnapshot {readWrite : Bool}
    (admitted : clients.service.readSnapshot database token = .ok (snapshot, readWrite)) :
    clients.Admitted token snapshot := by
  rw [FirestoreService.readSnapshot] at admitted
  split_ifs at admitted with empty
  · subst empty
    refine ⟨.inl rfl, ?_⟩
    intro transaction found
    exact absurd rfl (tracks.opened [] (mem_transactions found)).1
  · rw [snapshotForTransaction] at admitted
    cases found : clients.service.transactions[token]? with
    | none =>
      rw [found] at admitted
      cases admitted
    | some transaction =>
      simp only [found] at admitted
      split_ifs at admitted
      cases admitted
      refine ⟨(tracks.opened token (mem_transactions found)).2, fun other isOther => ?_⟩
      cases found.symm.trans isOther
      rfl

end

theorem progress_of_shown {answer : Answer} (reports : answer.reads = unrecorded.map observed)
    (genuine : ∀ read ∈ unrecorded, read.2 = transaction.snapshot.get read.1) :
    Progress transaction ⟨token, answer, unrecorded⟩ := by
  constructor
  · intro key document member
    rw [shown, ← genuine (key, document) member]
  · intro report member
    rw [reports] at member
    obtain ⟨read, isRead, rfl⟩ := mem_map.mp member
    exact .inr ⟨read.2, isRead, rfl⟩

section

variable (tracks : Tracks hypot edition coverage clients)
include tracks

theorem Tracks.getDocument
    (recorded : clients.Recorded hypot edition coverage (.getDocument key token authorize))
    (admitted : clients.Admitted token snapshot) :
    Tracks hypot edition coverage (clients.getDocument key token snapshot) := by
  rw [Clients.getDocument]
  cases found : snapshot.get key with
  | some document =>
    apply tracks.enqueue admitted.issued
    intro transaction isTransaction _
    refine ⟨trivial, progress_of_shown rfl ?_⟩
    rw [admitted.shared transaction isTransaction, forall_mem_singleton]
    exact found.symm
  | none =>
    refine ⟨tracks.counter, tracks.opened, ?_, tracks.pending, ?_⟩
    · intro other answer member
      rcases mem_append.mp member with member | member
      · exact tracks.answered other answer member
      · cases mem_singleton.mp member
        exact admitted.issued
    · intro other transaction isTransaction covered
      obtain ⟨genuine, answered, pending⟩ := tracks.protects other transaction isTransaction covered
      refine ⟨genuine, ?_, pending⟩
      intro answer member
      rcases mem_append.mp member with member | member
      · exact answered answer member
      · -- the transaction would have been told of a document that is missing
        cases mem_singleton.mp member
        refine ⟨trivial, ?_⟩
        intro isCovered
        have present := recorded transaction isTransaction covered isCovered
        rw [admitted.shared transaction isTransaction, found] at present
        cases present

theorem Tracks.batchGetDocuments {keys : List DocumentKey}
    (admitted : clients.Admitted token snapshot) :
    Tracks hypot edition coverage (clients.batchGetDocuments database keys token snapshot) := by
  rw [Clients.batchGetDocuments]
  cases batch : batchReads snapshot database keys with
  | error error => exact tracks
  | ok reads =>
    rw [batchReads] at batch
    split_ifs at batch
    cases batch
    apply tracks.enqueue admitted.issued
    intro transaction isTransaction _
    refine ⟨trivial, progress_of_shown rfl ?_⟩
    intro read member
    obtain ⟨key, _, rfl⟩ := mem_map.mp member
    rw [admitted.shared transaction isTransaction]

theorem Tracks.runQuery {query : Query}
    (recorded : clients.Recorded hypot edition coverage (.runQuery database query token authorize))
    (admitted : clients.Admitted token snapshot) :
    Tracks hypot edition coverage (clients.runQuery hypot edition database query token snapshot) := by
  rw [Clients.runQuery]
  split
  · next results executed =>
    apply tracks.enqueue admitted.issued
    intro transaction isTransaction covered
    rw [← admitted.shared transaction isTransaction] at executed
    refine ⟨⟨results, executed, rfl⟩, progress_of_shown ?_ ?_⟩
    · simp [Answer.reads, observed]
    · intro read member
      obtain ⟨result, isResult, rfl⟩ := mem_map.mp member
      exact (recorded transaction results isTransaction covered executed result isResult).symm
  · exact tracks

theorem Tracks.read {proceed : Snapshot → Clients}
    (proceeds : ∀ snapshot, clients.Admitted token snapshot →
      Tracks hypot edition coverage (proceed snapshot)) :
    Tracks hypot edition coverage (clients.read database token authorize proceed) := by
  rw [Clients.read]
  cases admitted : clients.service.readSnapshot database token with
  | error error => exact tracks
  | ok admittedRead =>
    obtain ⟨snapshot, readWrite⟩ := admittedRead
    cases allowed : authorize snapshot readWrite with
    | error error => simpa only [allowed] using tracks
    | ok _ => simpa only [allowed] using proceeds snapshot (tracks.readSnapshot admitted)

end

variable {read : PendingRead}

theorem Progress.record
    (progress : Progress transaction read) (key : DocumentKey) (document : Option Document) :
    Progress (transaction.record key document) read := by
  obtain ⟨genuine, covered⟩ := progress
  refine ⟨genuine, ?_⟩
  intro report member
  rcases covered report member with recorded | unrecorded
  · exact .inl (getElem?_record_of_some recorded key document)
  · exact .inr unrecorded

variable {rest : List (DocumentKey × Option Document)}

theorem Progress.advance (progress : Progress transaction read)
    (next : read.unrecorded = (key, document) :: rest)
    (genuine : ∀ key time, transaction.reads[key]? = some time →
      time = shown transaction.snapshot key) :
    Progress (transaction.record key document) { read with unrecorded := rest } := by
  obtain ⟨unrecorded, covered⟩ := progress
  rw [next] at unrecorded covered
  constructor
  · intro other otherDocument member
    exact unrecorded other otherDocument (mem_cons_of_mem _ member)
  · intro report member
    rcases covered report member with recorded | ⟨reported, waiting, isReport⟩
    · exact .inl (getElem?_record_of_some recorded key document)
    · rcases mem_cons.mp waiting with isNext | waiting
      · -- an earlier record of the key holds what the snapshot shows, as this one does
        cases isNext
        left
        have isShown := unrecorded report.1 document (mem_cons_self ..)
        rw [getElem?_record, ← isReport]
        split_ifs with fresh
        · rfl
        · cases recorded : transaction.reads[report.1]? with
          | none => exact absurd ⟨rfl, recorded⟩ fresh
          | some time => rw [genuine report.1 time recorded, isShown]
      · exact .inr ⟨reported, waiting, isReport⟩

theorem genuine_record (genuine : ∀ key time, transaction.reads[key]? = some time →
      time = shown transaction.snapshot key)
    (isShown : document.map updateTime = shown transaction.snapshot key)
    (other : DocumentKey) (time : Option Timestamp)
    (recorded : (transaction.record key document).reads[other]? = some time) :
    time = shown (transaction.record key document).snapshot other := by
  rw [getElem?_record] at recorded
  split_ifs at recorded with fresh
  · rw [← Option.some.inj recorded, ← fresh.1]
    exact isShown
  · exact genuine other time recorded

theorem Tracks.answer (tracks : Tracks hypot edition coverage clients) {index : Nat}
    (found : clients.pending[index]? = some read) (finished : read.unrecorded = []) :
    Tracks hypot edition coverage { clients with
      pending := clients.pending.eraseIdx index
      answered := clients.answered ++ [(read.token, read.answer)] } where
  counter := tracks.counter
  opened := tracks.opened
  answered := by
    intro token answer member
    rcases mem_append.mp member with member | member
    · exact tracks.answered token answer member
    · cases mem_singleton.mp member
      exact tracks.pending read (mem_of_getElem? found)
  pending := by
    intro other member
    exact tracks.pending other (mem_of_mem_eraseIdx member)
  protects := by
    intro token transaction isTransaction covered
    obtain ⟨genuine, answered, pending⟩ := tracks.protects token transaction isTransaction covered
    refine ⟨genuine, ?_, ?_⟩
    · intro answer member
      rcases mem_append.mp member with member | member
      · exact answered answer member
      · cases mem_singleton.mp member
        obtain ⟨computed, progress⟩ := pending read (mem_of_getElem? found) rfl
        refine ⟨computed, ?_⟩
        intro _ report isReport
        rcases progress.2 report isReport with recorded | ⟨document, waiting, _⟩
        · exact recorded
        · rw [finished] at waiting
          cases waiting
    · intro other member
      exact pending other (mem_of_mem_eraseIdx member)

theorem recordRead_cases {other : List UInt8}
    (found : (service.recordRead token key document).transactions[other]? = some transaction) :
    service.transactions[other]? = some transaction ∧ (token = other → other = []) ∨
      token = other ∧ ∃ before, service.transactions[other]? = some before ∧
        transaction = before.record key document := by
  rw [recordRead] at found
  split_ifs at found with empty
  · exact .inl ⟨found, fun same => same.symm.trans empty⟩
  · cases isTransaction : service.transactions[token]? with
    | none =>
      rw [isTransaction] at found
      refine .inl ⟨found, ?_⟩
      rintro rfl
      rw [isTransaction] at found
      cases found
    | some before =>
      simp only [isTransaction, getElem?_insert_eq] at found
      split_ifs at found with same
      · subst same
        exact .inr ⟨rfl, before, isTransaction, (Option.some.inj found).symm⟩
      · exact .inl ⟨found, fun equal => absurd equal same⟩

theorem nextId_recordRead (service : FirestoreService) (token : List UInt8) (key : DocumentKey)
    (document : Option Document) :
    (service.recordRead token key document).nextId = service.nextId := by
  rw [recordRead]
  split_ifs
  · rfl
  · split <;> rfl

section

variable (tracks : Tracks hypot edition coverage clients)
include tracks

theorem Tracks.recordNext {index : Nat} (found : clients.pending[index]? = some read)
    (next : read.unrecorded = (key, document) :: rest) :
    Tracks hypot edition coverage { clients with
      service := clients.service.recordRead read.token key document
      pending := clients.pending.set index { read with unrecorded := rest } } where
  counter := by
    rw [nextId_recordRead]
    exact tracks.counter
  opened := by
    intro token member
    have isTransaction := ExtTreeMap.getElem?_eq_some_getElem member
    rw [Issued, nextId_recordRead]
    rcases recordRead_cases isTransaction with ⟨before, _⟩ | ⟨_, _, before, _⟩
    · exact tracks.opened token (mem_transactions before)
    · exact tracks.opened token (mem_transactions before)
  answered := by
    simpa only [Issued, nextId_recordRead] using tracks.answered
  pending := by
    intro other member
    rw [Issued, nextId_recordRead]
    rcases mem_or_eq_of_mem_set member with member | rfl
    · exact tracks.pending other member
    · exact tracks.pending read (mem_of_getElem? found)
  protects := by
    intro token transaction isTransaction covered
    rcases recordRead_cases isTransaction with ⟨before, differs⟩ | ⟨rfl, previous, before, rfl⟩
    · obtain ⟨genuine, answered, pending⟩ := tracks.protects token transaction before covered
      refine ⟨genuine, answered, ?_⟩
      intro other member isToken
      rcases mem_or_eq_of_mem_set member with member | rfl
      · exact pending other member isToken
      · exact absurd (differs isToken) (tracks.opened token (mem_transactions before)).1
    · obtain ⟨genuine, answered, pending⟩ :=
        tracks.protects read.token previous before covered
      obtain ⟨computed, progress⟩ := pending read (mem_of_getElem? found) rfl
      have isShown := progress.1 key document (by simp [next])
      refine ⟨genuine_record genuine isShown, ?_, ?_⟩
      · intro answer member
        obtain ⟨isComputed, recorded⟩ := answered answer member
        refine ⟨isComputed, ?_⟩
        intro isCovered report isReport
        exact getElem?_record_of_some (recorded isCovered report isReport) key document
      · intro other member isToken
        rcases mem_or_eq_of_mem_set member with member | rfl
        · obtain ⟨isComputed, otherProgress⟩ := pending other member isToken
          exact ⟨isComputed, otherProgress.record key document⟩
        · exact ⟨computed, progress.advance next genuine⟩

theorem Tracks.record (index : Nat) : Tracks hypot edition coverage (clients.record index) := by
  rw [Clients.record]
  cases found : clients.pending[index]? with
  | none => exact tracks
  | some read =>
    cases next : read.unrecorded with
    | nil => simpa only [next] using tracks.answer found next
    | cons first rest => simpa only [next] using tracks.recordNext found next

theorem Tracks.beginTransaction
    {mode : TransactionMode} {now : Timestamp} (bound : clients.service.nextId + 1 < 2 ^ 64)
    (begun : clients.service.beginTransaction database mode now = .ok (token, service)) :
    Tracks hypot edition coverage { clients with service := service } := by
  rw [FirestoreService.beginTransaction, bind_eq_ok] at begun
  obtain ⟨⟨readOnly, snapshot⟩, _, begun⟩ := begun
  cases begun
  have taken := tracks.takeId bound
  have fresh : ¬ clients.Issued (transactionToken clients.service.nextId) := by
    rintro (empty | ⟨number, earlier, isToken⟩)
    · exact transactionToken_ne_nil _ empty
    · have same := transactionToken_injective tracks.counter
        (earlier.trans tracks.counter) isToken
      omega
  refine ⟨taken.counter, ?_, taken.answered, taken.pending, ?_⟩
  · intro other member
    rcases Std.ExtTreeMap.mem_insert.mp member with same | member
    · rw [Std.LawfulEqCmp.compare_eq_iff_eq] at same
      subst same
      refine ⟨transactionToken_ne_nil _, .inr ⟨clients.service.nextId, ?_, rfl⟩⟩
      rw [nextId_takeId bound]
      exact Nat.lt_succ_self _
    · exact taken.opened other member
  · intro other transaction isTransaction covered
    simp only [getElem?_insert_eq] at isTransaction
    split_ifs at isTransaction with same
    · subst same
      cases isTransaction
      refine ⟨by simp, ?_, ?_⟩
      · intro answer member
        exact absurd (tracks.answered _ answer member) fresh
      · intro read member isToken
        exact absurd (isToken ▸ tracks.pending read member) fresh
    · obtain ⟨genuine, answered, pending⟩ :=
        tracks.protects other transaction isTransaction covered
      exact ⟨genuine, answered, pending⟩

end

theorem applyWrites_frame (service : FirestoreService) (clock : ClockReading)
    (decoded : List DecodedWrite) :
    (service.applyWrites crc32c clock decoded).1.transactions = service.transactions ∧
      (service.applyWrites crc32c clock decoded).1.nextId = service.nextId := by
  rw [applyWrites]
  split <;> exact ⟨rfl, rfl⟩

theorem authorizeAndApply_frame (service : FirestoreService) (current : Snapshot)
    (request : CommitRequest) :
    (service.authorizeAndApply crc32c current request).1.transactions = service.transactions ∧
      (service.authorizeAndApply crc32c current request).1.nextId = service.nextId := by
  rw [authorizeAndApply]
  split
  · exact ⟨rfl, rfl⟩
  · exact applyWrites_frame service request.clock request.decoded

theorem commit_frame (crc32c : List UInt8 → UInt32) (service : FirestoreService)
    (request : CommitRequest) :
    ((service.commit crc32c request).1.transactions = service.transactions ∨
      (service.commit crc32c request).1.transactions = service.transactions.erase request.token) ∧
      (service.commit crc32c request).1.nextId = service.nextId := by
  rw [commit]
  split_ifs
  · obtain ⟨same, sameId⟩ := authorizeAndApply_frame service service.store.snapshot request
    exact ⟨.inl same, sameId⟩
  · split
    · exact ⟨.inl rfl, rfl⟩
    · split
      · exact ⟨.inr rfl, rfl⟩
      · obtain ⟨same, sameId⟩ := authorizeAndApply_frame
          { service with transactions := service.transactions.erase request.token }
          service.store.snapshot request
        exact ⟨.inr same, sameId⟩

theorem store_commit (crc32c : List UInt8 → UInt32) (service : FirestoreService)
    (request : CommitRequest) :
    (service.commit crc32c request).1.store = service.store ∨
      (service.commit crc32c request).1.store = (service.store.commit crc32c request.clock
        (request.decoded.map DecodedWrite.write)).1 := by
  have applied : ∀ other : FirestoreService, other.store = service.store →
      (other.authorizeAndApply crc32c service.store.snapshot request).1.store = service.store ∨
        (other.authorizeAndApply crc32c service.store.snapshot request).1.store =
          (service.store.commit crc32c request.clock
            (request.decoded.map DecodedWrite.write)).1 := by
    intro other sameStore
    rw [authorizeAndApply]
    split
    · exact .inl sameStore
    · right
      rw [applyWrites, sameStore]
      rcases service.store.commit crc32c request.clock
        (request.decoded.map DecodedWrite.write) with ⟨next, _ | _⟩ <;> rfl
  rw [commit]
  split_ifs
  · exact applied service rfl
  · split
    · exact .inl rfl
    · split
      · exact .inl rfl
      · exact applied _ rfl

section

variable (tracks : Tracks hypot edition coverage clients)
include tracks

theorem Tracks.erase (erased : service.transactions = clients.service.transactions ∨
      service.transactions = clients.service.transactions.erase token)
    (sameId : service.nextId = clients.service.nextId) :
    Tracks hypot edition coverage { clients with service := service } := by
  apply tracks.shrink sameId.ge (sameId ▸ tracks.counter)
  intro other transaction found
  rcases erased with same | erased
  · rwa [same] at found
  · rw [erased, getElem?_erase] at found
    split_ifs at found
    exact found

theorem Tracks.rollback (database : DatabaseName) (token : List UInt8) :
    Tracks hypot edition coverage
      { clients with service := (clients.service.rollback database token).1 } := by
  rw [FirestoreService.rollback]
  split
  · exact tracks
  · exact tracks.erase (.inr rfl) rfl

theorem Tracks.step {event : ClientEvent}
    (recorded : clients.Recorded hypot edition coverage event) :
    Tracks hypot edition coverage (clients.step crc32c hypot edition event) := by
  cases event with
  | beginTransaction database mode now =>
    simp only [Clients.step]
    split
    · exact tracks
    · next begun => exact tracks.beginTransaction recorded begun
  | takeId => exact tracks.takeId recorded
  | getDocument key token authorize => exact tracks.read fun _ => tracks.getDocument recorded
  | batchGetDocuments database keys token authorize =>
    exact tracks.read fun _ => tracks.batchGetDocuments
  | runQuery database query token authorize => exact tracks.read fun _ => tracks.runQuery recorded
  | record index => exact tracks.record index
  | commit request =>
    obtain ⟨erased, sameId⟩ := commit_frame crc32c clients.service request
    exact tracks.erase erased sameId
  | rollback database token => exact tracks.rollback database token

end

theorem tracks_run (store : Store) (events : List ClientEvent)
    (recorded : Runs.AllSteps (step crc32c hypot edition) (Recorded hypot edition coverage)
      (start store) events) :
    Tracks hypot edition coverage (Runs.run (step crc32c hypot edition) (start store) events) :=
  Runs.invariant_run (Tracks hypot edition coverage)
    (fun _ _ recorded tracks => tracks.step recorded) (tracks_start store) recorded

theorem commit_validated {request : CommitRequest}
    {response : CommitResponse} (named : request.token ≠ [])
    (committed : (service.commit crc32c request).2 = .ok response) :
    ∃ transaction, service.transactions[request.token]? = some transaction ∧
      ∀ (key : DocumentKey) (time : Option Timestamp), transaction.reads[key]? = some time →
        shown service.store.snapshot key = time := by
  revert committed
  fun_cases commit crc32c service request
  case case1 empty => exact absurd empty named
  case case4 transaction found _ valid =>
    refine fun _ => ⟨transaction, found, fun key time recorded => ?_⟩
    rw [validateTransaction] at valid
    split_ifs at valid
    split at valid
    · cases valid
    · next unchanged =>
      have matched := find?_eq_none.mp unchanged (key, time)
        (ExtTreeMap.mem_toList_iff_getElem?_eq_some.mpr recorded)
      simpa [shown] using matched
  all_goals nofun

end

/-- In every interleaving in which each point read of a transaction finds its
document, a successful commit has seen every lookup confirmed by the state that its
writes are applied to. -/
theorem transactional_lookups_hold (crc32c : List UInt8 → UInt32)
    (hypot : Binary64 → Binary64 → Binary64) (edition : DatabaseEdition) (store : Store)
    (events : List ClientEvent)
    (recorded : Runs.AllSteps (step crc32c hypot edition)
      (Recorded hypot edition .everything) (start store) events)
    (request : FirestoreService.CommitRequest) (named : request.token ≠ [])
    (response : CommitResponse) :
    let clients := Runs.run (step crc32c hypot edition) (start store) events
    (clients.service.commit crc32c request).2 = .ok response →
      ∀ answer, (request.token, answer) ∈ clients.answered → ∀ report ∈ answer.reads,
        shown clients.service.store.snapshot report.1 = report.2 := by
  intro clients committed answer isAnswered report isReport
  have tracks := tracks_run store events recorded
  obtain ⟨transaction, found, validated⟩ := commit_validated named committed
  have protects := tracks.protects request.token transaction found trivial
  exact validated report.1 report.2
    ((protects.answered answer isAnswered).2 trivial report isReport)

end Clients

namespace Sample

def firstToken : List UInt8 := transactionToken 1

def commitRequest (token : List UInt8) (decoded : List DecodedWrite) : CommitRequest :=
  ⟨itemA.database, token, decoded, clock, fun _ => .ok ()⟩

def lookupClients (events : List ClientEvent) : Clients :=
  Runs.run (Clients.step castagnoli (fun x _ => x) .standard)
    (.start (.memory (.new options))) events

end Sample

namespace Clients

open Sample

/-- A batch lookup of a missing document is recorded. -/
theorem transactional_lookups_hold_sample :
    shown (lookupClients [.beginTransaction itemA.database .readWrite .epoch,
      .batchGetDocuments itemA.database [itemA] firstToken fun _ _ => .ok (), .record 0,
      .record 0]).service.store.snapshot itemA = none :=
  transactional_lookups_hold castagnoli (fun x _ => x) .standard (.memory (.new options))
    [.beginTransaction itemA.database .readWrite .epoch,
      .batchGetDocuments itemA.database [itemA] firstToken fun _ _ => .ok (), .record 0,
      .record 0]
    ⟨show 1 + 1 < 2 ^ 64 by decide, trivial, trivial, trivial, trivial⟩
    (commitRequest firstToken [increment itemB]) (by decide) _ rfl
    (.lookups [(itemA, none)]) (mem_singleton_self _) (itemA, none) (mem_singleton_self _)

/-- A point read of a missing document is not recorded: another client creates the
document, and the transaction that was told that there is none commits. -/
theorem missing_lookup_is_unprotected :
    let clients := lookupClients [.beginTransaction itemA.database .readWrite .epoch,
      .getDocument itemA firstToken fun _ _ => .ok (),
      .commit (commitRequest [] [increment itemA])]
    clients.answered.map (fun answer => (answer.1, answer.2.reads)) =
        [(firstToken, [(itemA, none)])] ∧
      (shown clients.service.store.snapshot itemA).isSome ∧
      (clients.service.commit castagnoli (commitRequest firstToken [increment itemB])).2.isOk := by
  decide +kernel

/-! ## Uninterrupted reads -/

section

variable {crc32c : List UInt8 → UInt32} {hypot : Binary64 → Binary64 → Binary64}
  {edition : DatabaseEdition}

theorem run_of_idle {clients : Clients} {event : ClientEvent}
    (same : clients.step crc32c hypot edition event = clients) (count : Nat) :
    Runs.run (step crc32c hypot edition) clients
      (event :: replicate count (.record clients.pending.length)) = clients := by
  have idle : clients.step crc32c hypot edition (.record clients.pending.length) = clients := by
    simp [step, Clients.record]
  rw [Runs.run, foldl_cons, same]
  induction count with
  | zero => rfl
  | succ count ih => rwa [replicate_succ, foldl_cons, idle]

theorem run_record (clients : Clients) (token : List UInt8) (answer : Answer)
    (reads : List (DocumentKey × Option Document)) :
    Runs.run (step crc32c hypot edition) (clients.enqueue token answer reads)
      (replicate (reads.length + 1) (.record clients.pending.length)) =
    ⟨clients.service.recordReads token reads, clients.pending,
      clients.answered ++ [(token, answer)]⟩ := by
  induction reads generalizing clients with
  | nil => simp [Runs.run, step, Clients.record, enqueue, recordReads, eraseIdx_append_of_length_le]
  | cons read reads ih =>
    have next : (clients.enqueue token answer (read :: reads)).step crc32c hypot edition
        (.record clients.pending.length) =
          enqueue { clients with service := clients.service.recordRead token read.1 read.2 }
            token answer reads := by
      simp [step, Clients.record, enqueue]
    rw [length_cons, replicate_succ, Runs.run, foldl_cons, next]
    exact ih _

end

/-- The steps of a batch read that no other request interrupts are the handler. -/
theorem uninterrupted_batch_is_handler (crc32c : List UInt8 → UInt32)
    (hypot : Binary64 → Binary64 → Binary64) (edition : DatabaseEdition) (clients : Clients)
    (database : DatabaseName) (keys : List DocumentKey) (token : List UInt8)
    (authorize : Snapshot → Bool → Except Status Unit) :
    let handled := clients.service.batchGetDocuments database keys token authorize
    Runs.run (step crc32c hypot edition) clients
        (.batchGetDocuments database keys token authorize ::
          replicate (keys.eraseDups.length + 1) (.record clients.pending.length)) =
      ⟨handled.1, clients.pending, clients.answered ++
        match handled.2 with
        | .error _ => []
        | .ok reads => [(token, .lookups (reads.map observed))]⟩ := by
  fun_cases FirestoreService.batchGetDocuments clients.service database keys token authorize
  case case1 error admitted =>
    simpa using run_of_idle (by simp [step, read, admitted]) _
  case case2 snapshot readWrite admitted error batched =>
    refine (run_of_idle ?_ _).trans (by simp)
    cases allowed : authorize snapshot readWrite <;>
      simp [step, read, admitted, Clients.batchGetDocuments, batched, allowed]
  case case3 snapshot readWrite admitted reads batched error refused =>
    simpa using run_of_idle (by simp [step, read, admitted, refused]) _
  case case4 snapshot readWrite admitted reads batched allowed =>
    have length : keys.eraseDups.length = reads.length := by
      rw [batchReads] at batched
      split_ifs at batched
      cases batched
      simp
    rw [Runs.run, foldl_cons, length]
    simp only [step, read, admitted, allowed, Clients.batchGetDocuments, batched]
    exact run_record clients token _ reads

end Clients

/-! ## Requests in another database -/

namespace FirestoreService

variable (service : FirestoreService)

def NamesElsewhere (database : DatabaseName) (token : List UInt8) : Prop :=
  ∃ transaction, service.transactions[token]? = some transaction ∧ transaction.database ≠ database

/-- The token was given out, and no transaction has it any more. -/
def Forgotten (token : List UInt8) : Prop :=
  (∃ number, number < service.nextId ∧ token = transactionToken number) ∧
    service.transactions[token]? = none

/-- A rollback or commit of a transaction of another database. -/
def Stray (token : List UInt8) : ClientEvent → Prop
  | .rollback database named => named = token ∧ service.NamesElsewhere database token
  | .commit request => request.token = token ∧ token ≠ [] ∧
    service.NamesElsewhere request.database token
  | _ => False

def Refused (crc32c : List UInt8 → UInt32) : ClientEvent → Prop
  | .rollback database token => (service.rollback database token).2 =
    .error (.invalidArgument "transaction belongs to a different database".toList)
  | .commit request => (service.commit crc32c request).2 =
    .error (.invalidArgument "transaction belongs to a different database".toList)
  | _ => False

end FirestoreService

namespace Clients

variable {clients : Clients} {hypot : Binary64 → Binary64 → Binary64} {edition : DatabaseEdition}
  {crc32c : List UInt8 → UInt32} {token : List UInt8}

theorem service_getDocument (key : DocumentKey) (token : List UInt8) (snapshot : Snapshot) :
    (clients.getDocument key token snapshot).service = clients.service := by
  rw [getDocument]
  split <;> rfl

theorem service_batchGetDocuments (database : DatabaseName) (keys : List DocumentKey)
    (token : List UInt8) (snapshot : Snapshot) :
    (clients.batchGetDocuments database keys token snapshot).service = clients.service := by
  rw [batchGetDocuments]
  split <;> rfl

theorem service_runQuery (database : DatabaseName) (query : Query) (token : List UInt8)
    (snapshot : Snapshot) :
    (clients.runQuery hypot edition database query token snapshot).service = clients.service := by
  rw [runQuery]
  split <;> rfl

theorem service_read {database : DatabaseName} {named : List UInt8}
    {authorize : Snapshot → Bool → Except Status Unit} {proceed : Snapshot → Clients}
    (proceeds : ∀ snapshot, (proceed snapshot).service = clients.service) :
    (clients.read database named authorize proceed).service = clients.service := by
  rw [Clients.read]
  split
  · rfl
  · split
    · rfl
    · exact proceeds _

theorem forgotten_of_erased {service : FirestoreService} {named : List UInt8}
    (forgotten : clients.service.Forgotten token)
    (erased : service.transactions = clients.service.transactions ∨
      service.transactions = clients.service.transactions.erase named)
    (sameId : service.nextId = clients.service.nextId) : service.Forgotten token := by
  refine ⟨sameId ▸ forgotten.1, ?_⟩
  rcases erased with same | erased
  · rw [same, forgotten.2]
  · rw [erased, getElem?_erase, forgotten.2, ite_self]

theorem forgotten_step (clients : Clients) (event : ClientEvent)
    (recorded : clients.Recorded hypot edition .nothing event)
    (forgotten : clients.service.Forgotten token) :
    (clients.step crc32c hypot edition event).service.Forgotten token := by
  obtain ⟨⟨number, given, isToken⟩, gone⟩ := forgotten
  cases event with
  | beginTransaction database mode now =>
    simp only [Clients.step]
    split
    · exact ⟨⟨number, given, isToken⟩, gone⟩
    · next begun =>
      rw [beginTransaction, bind_eq_ok] at begun
      obtain ⟨_, -, begun⟩ := begun
      cases begun
      have bound : clients.service.nextId + 1 < 2 ^ 64 := recorded
      refine ⟨⟨number, ?_, isToken⟩, ?_⟩
      · exact (nextId_takeId bound).symm ▸ given.trans (Nat.lt_succ_self _)
      · rw [getElem?_insert_eq, if_neg, gone]
        intro same
        have equal := transactionToken_injective (by omega) (by omega) (same.trans isToken)
        omega
  | takeId =>
    have bound : clients.service.nextId + 1 < 2 ^ 64 := recorded
    exact ⟨⟨number, (nextId_takeId bound).symm ▸ given.trans (Nat.lt_succ_self _), isToken⟩, gone⟩
  | getDocument key named authorize =>
    rw [Clients.step, service_read (service_getDocument key named)]
    exact ⟨⟨number, given, isToken⟩, gone⟩
  | batchGetDocuments database keys named authorize =>
    rw [Clients.step, service_read (service_batchGetDocuments database keys named)]
    exact ⟨⟨number, given, isToken⟩, gone⟩
  | runQuery database query named authorize =>
    rw [Clients.step, service_read (service_runQuery database query named)]
    exact ⟨⟨number, given, isToken⟩, gone⟩
  | record index =>
    rw [Clients.step, Clients.record]
    split
    · exact ⟨⟨number, given, isToken⟩, gone⟩
    · split
      · exact ⟨⟨number, given, isToken⟩, gone⟩
      · refine ⟨⟨number, ?_, isToken⟩, ?_⟩
        · rwa [nextId_recordRead]
        · rw [Option.eq_none_iff_forall_ne_some]
          intro transaction found
          rcases recordRead_cases found with ⟨before, -⟩ | ⟨-, _, before, -⟩ <;>
            cases gone.symm.trans before
  | commit request =>
    obtain ⟨erased, sameId⟩ := commit_frame crc32c clients.service request
    exact forgotten_of_erased ⟨⟨number, given, isToken⟩, gone⟩ erased sameId
  | rollback database named =>
    rw [Clients.step, rollback]
    split
    · exact ⟨⟨number, given, isToken⟩, gone⟩
    · exact forgotten_of_erased ⟨⟨number, given, isToken⟩, gone⟩ (.inr rfl) rfl

variable (hypot edition crc32c)

theorem refused_of_stray {event : ClientEvent} (stray : clients.service.Stray token event) :
    token ∈ clients.service.transactions ∧ clients.service.Refused crc32c event ∧
      (clients.step crc32c hypot edition event).service =
        { clients.service with transactions := clients.service.transactions.erase token } := by
  cases event with
  | rollback database named =>
    obtain ⟨rfl, transaction, found, elsewhere⟩ := stray
    simp only [Refused, Clients.step, rollback, found, if_pos elsewhere]
    exact ⟨mem_transactions found, rfl, trivial⟩
  | commit request =>
    obtain ⟨rfl, named, transaction, found, elsewhere⟩ := stray
    have refused : validateTransaction transaction clients.service.store.snapshot request =
        .error (.invalidArgument "transaction belongs to a different database".toList) := by
      rw [validateTransaction, if_pos elsewhere]
      rfl
    simp only [Refused, Clients.step, commit, if_neg named, found, refused]
    exact ⟨mem_transactions found, trivial, trivial⟩
  | _ => exact stray.elim

end Clients

namespace Sample

def elsewhere : DatabaseName :=
  { database with databaseId := "other".toList, databaseValid := by decide }

def registry : FirestoreService :=
  (lookupClients [.beginTransaction itemA.database .readWrite .epoch]).service

def strayCommit : CommitRequest := { commitRequest firstToken [] with database := elsewhere }

theorem registry_namesElsewhere : registry.NamesElsewhere elsewhere firstToken := by
  have computed : (registry.transactions[firstToken]?.any fun transaction =>
      transaction.database ≠ elsewhere) = true := by
    decide +kernel
  simpa [NamesElsewhere, Option.any_eq_true] using computed

end Sample

namespace Clients

open Sample

end Clients
end Firenook
