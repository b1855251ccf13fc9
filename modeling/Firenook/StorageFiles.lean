import Firenook.Text
import Firenook.Runs
import Firenook.FileTables

/-!
# Stored objects and their files

Uploads, copies, metadata updates, deletions, resets and imports of the storage emulator, cut
into the steps between which other requests run.  Bytes are staged, appended, copied and
summarized without a lock; the mutation lock is held while a staged file is renamed to its
object's data file and entered in the inventory, and while files are removed or imported.  A
request that is dropped frees the lock, but a removal or copy that it waits for still ends.

A data file is named by a hash of the object's bucket and name, which is also what its key in
the inventory consists of.  Hashes are taken to be collision-free, so a data file is named by
the key and a staging file by what its name is a hash of.
-/

namespace Firenook.StorageFiles

/-- The hash functions of the checksums. -/
class Digests where
  md5 : List UInt8 → Text
  crc32c : List UInt8 → UInt32

structure Summary where
  size : Nat
  md5Hash : Text
  crc32c : UInt32
deriving DecidableEq

/-- `summarize_file`, and the running checksums of `stream_to_staging`. -/
def summarize [Digests] (bytes : List UInt8) : Summary :=
  ⟨bytes.length, Digests.md5 bytes, Digests.crc32c bytes⟩

/-- A record of the inventory; `metadata` stands for all that is not about the bytes. -/
structure StoredObject extends Summary where
  metadata : Text
deriving DecidableEq

inductive Path
  | object (key : Text)
  /-- A file of a simple or multipart upload, or of a copy. -/
  | upload (id : Text)
  /-- The file of a resumable upload. -/
  | session (id : Text)
deriving DecidableEq

def objectKey (bucket name : Text) : Text := bucket ++ '\x00' :: name

structure CommitSpec where
  bucket : Text
  name : Text
  metadata : Text
  firebase : Bool

def CommitSpec.key (spec : CommitSpec) : Text := objectKey spec.bucket spec.name

structure UploadSession where
  bucket : Text
  name : Text
  metadata : Text
  received : Nat := 0
  denied : Bool := false
  cancelled : Bool := false

def UploadSession.spec (session : UploadSession) (firebase : Bool) : CommitSpec :=
  ⟨session.bucket, session.name, session.metadata, firebase⟩

structure ContentRange where
  start : Nat
  total : Option Nat

inductive Command
  /-- A chunk for the GCS endpoint. -/
  | chunk (range : Option ContentRange)
  /-- A command of the Firebase endpoint that contains `upload`, `finalize` or both. -/
  | firebase (upload finalize : Bool)
  | cancel

/-- A request in progress outside the mutation lock, by what it does next. -/
inductive Request
  | streaming (spec : CommitSpec) (id : Text) (file : Nat) (written : List UInt8)
  | copying (source : Text) (object : StoredObject) (spec : CommitSpec)
  | resuming (id : Text) (session : UploadSession) (command : Command)
  | appending (id : Text) (session : UploadSession) (command : Command) (file : Nat)
      (appended : Nat)
  | finalizing (id : Text) (session : UploadSession) (firebase : Bool)
  /-- Waits for the mutation lock; a Firebase upload that is resumable keeps its session. -/
  | uploaded (spec : CommitSpec) (path : Path) (summary : Summary)
      (session : Option (Text × UploadSession))
  /-- A Firebase upload whose object is published gives up its session. -/
  | concluding (id : Text)
  | cancelling (id : Text)
  | over

/-- A metadata file of an import, and the blob of the same name. -/
structure ImportEntry where
  key : Text
  object : StoredObject
  blob : List UInt8

inductive Mutation
  | free
  | publishing (key : Text) (object : StoredObject) (session : Option Text)
  | deleting (key : Text)
  | resetting (paths : List Path)
  | importing (imported : List (Text × StoredObject)) (pending : List ImportEntry)

/-- Work on a file that goes on when the request that waits for it is dropped. -/
inductive Detached
  | unlink (path : Path)
  | copy (key : Text) (blob : List UInt8)

def Detached.path : Detached → Path
  | .unlink path => path
  | .copy key _ => .object key

def importCopyConcurrency : Nat := 16

/-- What is under way when the holder of the mutation lock is dropped. -/
def Mutation.detached : Mutation → List Detached
  | .deleting key => [.unlink (.object key)]
  | .resetting paths => (paths.take 1).map .unlink
  | .importing _ pending =>
    (pending.take importCopyConcurrency).map fun entry => .copy entry.key entry.blob
  | _ => []

structure Store where
  files : FileTable Path := .empty
  objects : Std.ExtTreeMap Text StoredObject Text.cmp := ∅
  uploads : Std.ExtTreeMap Text UploadSession Text.cmp := ∅
  requests : List Request := []
  mutation : Mutation := .free
  late : List Detached := []

inductive Event
  | upload (spec : CommitSpec) (id : Text)
  | copy (source : Text) (spec : CommitSpec)
  /-- A resumable upload starts; its file may fail to be created. -/
  | start (id : Text) (session : UploadSession) (created : Bool)
  | resume (id bucket : Text) (command : Command)
  /-- A chunk of a request's body arrives and is written. -/
  | write (index : Nat) (bytes : List UInt8)
  /-- A request without the mutation lock takes its next step. -/
  | proceed (index : Nat)
  | copyFile (index : Nat) (id : Text)
  /-- A request takes the mutation lock to commit its file, if the rules allow it. -/
  | commit (index : Nat) (allowed : Bool)
  /-- A request fails, or its client has left. -/
  | abandon (index : Nat)
  | updateMetadata (key metadata : Text)
  | delete (key : Text)
  | reset
  | importDirectory (entries : List ImportEntry)
  /-- The holder of the mutation lock takes its next step. -/
  | proceedLocked
  /-- The copies of an import end in any order. -/
  | importObject (index : Nat)
  /-- The holder of the mutation lock fails, or its client has left. -/
  | release
  /-- Work that was under way then comes to its end. -/
  | finish (index : Nat)

namespace Store

variable (store : Store)

def addRequest (request : Request) : Store := { store with requests := store.requests ++ [request] }

variable (index : Nat)

def setRequest (request : Request) : Store :=
  { store with requests := store.requests.set index request }

def setUpload (id : Text) (session : UploadSession) : Store :=
  { store with uploads := store.uploads.insert id session }

def eraseUpload (id : Text) : Store := { store with uploads := store.uploads.erase id }

/-- `stream_to_staging` and the multipart uploads create their file. -/
def upload (spec : CommitSpec) (id : Text) : Store :=
  { store.addRequest (.streaming spec id (store.files.handle (.upload id)) []) with
    files := store.files.overwrite (.upload id) [] }

/-- `gcs_alias_copy` up to the metadata of its source. -/
def copy (source : Text) (spec : CommitSpec) : Store :=
  match store.objects[source]? with
  | some object => store.addRequest (.copying source object spec)
  | none => store

/-- `gcs_resumable_start`. -/
def start (id : Text) (session : UploadSession) (created : Bool) : Store :=
  let entered := store.setUpload id { session with received := 0, denied := false, cancelled := false }
  if created then { entered with files := store.files.overwrite (.session id) [] } else entered

/-- `gcs_resumable_chunk` and `firebase_resumable` up to their checks of the session. -/
def resume (id bucket : Text) (command : Command) : Store :=
  match store.uploads[id]?.filter fun session => session.bucket == bucket with
  | none => store
  | some session =>
    match command with
    | .chunk range =>
      if range.any fun range => range.start != session.received then store
      else store.addRequest (.resuming id session command)
    | .firebase _ _ =>
      if session.cancelled || session.denied then store
      else store.addRequest (.resuming id session command)
    | .cancel =>
      if session.cancelled || session.denied then store
      else (store.setUpload id { session with cancelled := true }).addRequest (.cancelling id)

def write (bytes : List UInt8) : Store :=
  match store.requests[index]? with
  | some (.streaming spec id file written) =>
    { store.setRequest index (.streaming spec id file (written ++ bytes)) with
      files := store.files.append file bytes }
  | some (.appending id session command file appended) =>
    { store.setRequest index (.appending id session command file (appended + bytes.length)) with
      files := store.files.append file bytes }
  | _ => store

/-- `append_body` opens the staging file, which must exist. -/
def openStaging (id : Text) (session : UploadSession) (command : Command) : Store :=
  match store.files.links (.session id) with
  | some file => store.setRequest index (.appending id session command file 0)
  | none => store.setRequest index .over

def finishAppend (id : Text) (session : UploadSession) : Command → Store
  | .chunk range =>
    if session.received < (range.bind (·.total)).getD session.received then
      (store.setUpload id session).setRequest index .over
    else store.setRequest index (.finalizing id session false)
  | .firebase _ finalize =>
    (store.setUpload id session).setRequest index
      (if finalize then .finalizing id session true else .over)
  | .cancel => store

/-- `summarize_file` of a resumable upload; the GCS endpoint gives up the session at once. -/
def finalize [Digests] (index : Nat) (id : Text) (session : UploadSession) (firebase : Bool) :
    Store :=
  match store.files.read (.session id) with
  | none => store.setRequest index .over
  | some bytes =>
    let kept := if firebase then store else store.eraseUpload id
    kept.setRequest index (.uploaded (session.spec firebase) (.session id) (summarize bytes)
      (if firebase then some (id, session) else none))

def proceed [Digests] (index : Nat) : Store :=
  match store.requests[index]? with
  | some (.streaming spec id _ written) =>
    store.setRequest index (.uploaded spec (.upload id) (summarize written) none)
  | some (.resuming id session command) =>
    match command with
    | .firebase false finalize =>
      store.setRequest index (if finalize then .finalizing id session true else .over)
    | command => store.openStaging index id session command
  | some (.appending id session command _ appended) =>
    store.finishAppend index id { session with received := session.received + appended } command
  | some (.finalizing id session firebase) => store.finalize index id session firebase
  | some (.concluding id) => (store.eraseUpload id).setRequest index .over
  | some (.cancelling id) =>
    { store.setRequest index .over with files := store.files.unlink (.session id) }
  | _ => store

/-- `gcs_alias_copy` copies the bytes and keeps the checksums that it read before. -/
def copyFile (id : Text) : Store :=
  match store.requests[index]? with
  | some (.copying source object spec) =>
    match store.files.read (.object source) with
    | none => store.setRequest index .over
    | some bytes =>
      { store.setRequest index (.uploaded spec (.upload id) object.toSummary none) with
        files := store.files.overwrite (.upload id) bytes }
  | _ => store

def deny (path : Path) (session : Option (Text × UploadSession)) : Store :=
  let removed := { store.setRequest index .over with files := store.files.unlink path }
  match session with
  | some (id, session) => removed.setUpload id { session with denied := true }
  | none => removed

/-- `commit_staging` up to the renamed file. -/
def commit (allowed : Bool) : Store :=
  match store.mutation, store.requests[index]? with
  | .free, some (.uploaded spec path summary session) =>
    if spec.firebase && !allowed then store.deny index path session
    else
      match store.files.rename path (.object spec.key) with
      | none => store.setRequest index .over
      | some files =>
        { store.setRequest index .over with
          files
          mutation := .publishing spec.key ⟨summary, spec.metadata⟩ (session.map (·.1)) }
  | _, _ => store

def updateMetadata (key metadata : Text) : Store :=
  match store.mutation, store.objects[key]? with
  | .free, some object =>
    { store with objects := store.objects.insert key { object with metadata } }
  | _, _ => store

/-- `delete_object` up to the changed inventory. -/
def delete (key : Text) : Store :=
  match store.mutation, store.objects[key]? with
  | .free, some _ => { store with objects := store.objects.erase key, mutation := .deleting key }
  | _, _ => store

/-- `internal_reset` up to the empty inventory. -/
def reset : Store :=
  match store.mutation with
  | .free =>
    { store with
      objects := ∅
      uploads := ∅
      mutation := .resetting (store.objects.keys.map .object ++ store.uploads.keys.map .session) }
  | _ => store

def importDirectory (entries : List ImportEntry) : Store :=
  match store.mutation with
  | .free => { store with mutation := .importing [] entries }
  | _ => store

def insertAll (objects : Std.ExtTreeMap Text StoredObject Text.cmp)
    (imported : List (Text × StoredObject)) : Std.ExtTreeMap Text StoredObject Text.cmp :=
  imported.foldl (fun objects entry => objects.insert entry.1 entry.2) objects

def proceedLocked : Store :=
  match store.mutation with
  | .free => store
  | .publishing key object session =>
    { store with
      objects := store.objects.insert key object
      requests := store.requests ++ (session.map Request.concluding).toList
      mutation := .free }
  | .deleting key => { store with files := store.files.unlink (.object key), mutation := .free }
  | .resetting (path :: paths) =>
    { store with files := store.files.unlink path, mutation := .resetting paths }
  | .resetting [] => { store with mutation := .free }
  | .importing _ (_ :: _) => store
  | .importing imported [] =>
    { store with objects := insertAll store.objects imported, mutation := .free }

/-- `import_object` writes the data file before any metadata is committed. -/
def importObject : Store :=
  match store.mutation with
  | .importing imported pending =>
    match pending[index]? with
    | some entry =>
      { store with
        files := store.files.overwrite (.object entry.key) entry.blob
        mutation := .importing (imported ++ [(entry.key, entry.object)]) (pending.eraseIdx index) }
    | none => store
  | _ => store

def release : Store :=
  { store with mutation := .free, late := store.late ++ store.mutation.detached }

def finish : Store :=
  match store.late[index]? with
  | some (.unlink path) =>
    { store with files := store.files.unlink path, late := store.late.eraseIdx index }
  | some (.copy key blob) =>
    { store with
      files := store.files.overwrite (.object key) blob
      late := store.late.eraseIdx index }
  | none => store

def step [Digests] (store : Store) : Event → Store
  | .upload spec id => store.upload spec id
  | .copy source spec => store.copy source spec
  | .start id session created => store.start id session created
  | .resume id bucket command => store.resume id bucket command
  | .write index bytes => store.write index bytes
  | .proceed index => store.proceed index
  | .copyFile index id => store.copyFile index id
  | .commit index allowed => store.commit index allowed
  | .abandon index => store.setRequest index .over
  | .updateMetadata key metadata => store.updateMetadata key metadata
  | .delete key => store.delete key
  | .reset => store.reset
  | .importDirectory entries => store.importDirectory entries
  | .proceedLocked => store.proceedLocked
  | .importObject index => store.importObject index
  | .release => store.release
  | .finish index => store.finish index

end Store
end Firenook.StorageFiles
