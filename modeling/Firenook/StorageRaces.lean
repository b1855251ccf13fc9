import Firenook.StorageFiles

/-!
# When data files have the recorded checksums

Every object of the inventory has a data file with its size and checksums, as long as no
request touches bytes that another one has already summarized: nothing is appended to a file
that is summarized or published, the source of a copy stays what it was when the copy read its
metadata, an import brings blobs that fit their metadata and is not broken off, and no work of a
dropped request ends on a file that is on record by then.
-/

namespace Firenook
namespace StorageFiles

open Std List FileTable Store Request

variable {requests : List Request} {request : Request}

/-- The objects whose data files are in place before their records. -/
def Mutation.incoming : Mutation → List (Text × StoredObject)
  | .publishing key object _ => [(key, object)]
  | .importing imported _ => imported
  | _ => []

namespace Path

theorem upload_ne_object (id key : Text) : upload id ≠ object key := nofun

theorem session_ne_object (id key : Text) : session id ≠ object key := nofun

end Path

namespace Request

def path : Request → Option Path
  | .streaming _ id _ _ => some (.upload id)
  | .uploaded _ path _ _ => some path
  | _ => none

/-- The file that the request is still writing and summarizing. -/
def streams : Request → Option Path
  | .streaming _ id _ _ => some (.upload id)
  | _ => none

def appends : Request → Option Nat
  | .appending _ _ _ file _ => some file
  | _ => none

theorem path_of_streams {request : Request} {path : Path} (streams : request.streams = some path) :
    request.path = some path := by
  cases request with
  | streaming => exact streams
  | _ => cases streams

theorem streams_ne_session (request : Request) (id : Text) :
    request.streams ≠ some (.session id) := by
  cases request with
  | streaming | _ => exact nofun

theorem streams_of_path {request : Request} (nothing : request.path = none) :
    request.streams = none := by
  cases request with
  | streaming => cases nothing
  | _ => rfl

end Request

def Separate (requests : List Request) : Prop :=
  ∀ (first second : Nat) (one other : Request) (path : Path), first ≠ second →
    requests[first]? = some one → requests[second]? = some other →
    one.streams = some path → other.path ≠ some path

theorem Separate.append (separate : Separate requests)
    (fresh : ∀ path, request.path = some path → ∀ other ∈ requests, other.path ≠ some path) :
    Separate (requests ++ [request]) := by
  intro first second one other path differ foundOne foundOther streams
  have placed : ∀ (index : Nat) (found : Request), (requests ++ [request])[index]? = some found →
      requests[index]? = some found ∨ index = requests.length ∧ found = request := by
    intro index found place
    rcases Nat.lt_trichotomy index requests.length with less | same | more
    · rw [getElem?_append_left less] at place
      exact .inl place
    · rw [same, getElem?_concat_length] at place
      exact .inr ⟨same, (Option.some.inj place).symm⟩
    · rw [getElem?_eq_none (by simp; omega)] at place
      cases place
  rcases placed first one foundOne with oldOne | ⟨atOne, rfl⟩ <;>
    rcases placed second other foundOther with oldOther | ⟨atOther, rfl⟩
  · exact separate first second one other path differ oldOne oldOther streams
  · intro named
    exact fresh path named one (mem_of_getElem? oldOne) (one.path_of_streams streams)
  · exact fresh path (path_of_streams streams) other (mem_of_getElem? oldOther)
  · omega

theorem Separate.set {index : Nat} {old : Request}
    (separate : Separate requests) (found : requests[index]? = some old)
    (streams : ∀ path, request.streams = some path → old.streams = some path)
    (named : ∀ path, request.path = some path → old.path = some path ∨
      ∀ other ∈ requests, other.streams ≠ some path) :
    Separate (requests.set index request) := by
  intro first second one other path differ foundOne foundOther streamed
  have inside : index < requests.length := (List.getElem?_eq_some_iff.1 found).1
  by_cases atFirst : index = first
  · subst atFirst
    rw [getElem?_set_self inside] at foundOne
    rw [getElem?_set_ne differ] at foundOther
    cases foundOne
    exact separate index second old other path differ found foundOther (streams path streamed)
  · rw [getElem?_set_ne atFirst] at foundOne
    by_cases atSecond : index = second
    · subst atSecond
      rw [getElem?_set_self inside] at foundOther
      cases foundOther
      intro name
      rcases named path name with before | nobody
      · exact separate first index one old path differ foundOne found streamed before
      · exact nobody one (mem_of_getElem? foundOne) streamed
    · rw [getElem?_set_ne atSecond] at foundOther
      exact separate first second one other path differ foundOne foundOther streamed

theorem mem_set_cases {index : Nat} {other : Request}
    (member : other ∈ requests.set index request) :
    other = request ∨ ∃ place, index ≠ place ∧ requests[place]? = some other := by
  obtain ⟨place, found⟩ := mem_iff_getElem?.1 member
  by_cases own : index = place
  · subst own
    have inside : index < (requests.set index request).length := (List.getElem?_eq_some_iff.1 found).1
    rw [getElem?_set_self (by simpa using inside)] at found
    exact .inl (Option.some.inj found).symm
  · rw [getElem?_set_ne own] at found
    exact .inr ⟨place, own, found⟩

namespace Store

variable (store : Store)

def recordedPaths : List Path :=
  store.objects.keys.map .object ++ store.mutation.incoming.map fun entry => .object entry.1

def settledPaths : List Path := store.recordedPaths ++ store.requests.filterMap path

def Fresh (path : Path) : Prop :=
  store.files.links path = none ∧ ∀ request ∈ store.requests, request.path ≠ some path

/-- The bytes that a copy is about to read are those it read the metadata of. -/
def SourceKept : Request → Prop
  | .copying source object _ =>
    source ∉ store.mutation.incoming.map (·.1) ∧
      store.objects[source]?.map (·.toSummary) = some object.toSummary
  | _ => True

instance decidableSourceKept (store : Store) : ∀ request, Decidable (store.SourceKept request)
  | .copying .. => inferInstanceAs (Decidable (_ ∧ _))
  | .streaming .. | .resuming .. | .appending .. | .finalizing .. | .uploaded .. | .concluding ..
  | .cancelling .. | .over => inferInstanceAs (Decidable True)

instance decidableFresh (store : Store) (path : Path) : Decidable (store.Fresh path) :=
  inferInstanceAs (Decidable (_ ∧ _))

section Settled

variable {store : Store}

theorem mem_recordedPaths {path : Path} :
    path ∈ store.recordedPaths ↔
      (∃ key object, store.objects[key]? = some object ∧ path = .object key) ∨
        ∃ entry ∈ store.mutation.incoming, path = .object entry.1 := by
  simp only [recordedPaths, mem_append, mem_map, ExtTreeMap.mem_keys,
    ExtTreeMap.mem_iff_isSome_getElem?, Option.isSome_iff_exists]
  constructor
  · rintro (⟨key, ⟨object, found⟩, rfl⟩ | ⟨entry, member, rfl⟩)
    · exact .inl ⟨key, object, found, rfl⟩
    · exact .inr ⟨entry, member, rfl⟩
  · rintro (⟨key, object, found, rfl⟩ | ⟨entry, member, rfl⟩)
    · exact .inl ⟨key, ⟨object, found⟩, rfl⟩
    · exact .inr ⟨entry, member, rfl⟩

theorem mem_settledPaths {path : Path} :
    path ∈ store.settledPaths ↔ ((∃ key object, store.objects[key]? = some object ∧
        path = .object key) ∨ ∃ entry ∈ store.mutation.incoming, path = .object entry.1) ∨
      ∃ request ∈ store.requests, request.path = some path := by
  rw [settledPaths, mem_append, mem_recordedPaths, mem_filterMap]

theorem not_mem_recordedPaths {path : Path} (notObject : ∀ key, path ≠ .object key) :
    path ∉ store.recordedPaths := by
  rw [mem_recordedPaths]
  rintro (⟨key, -, -, same⟩ | ⟨entry, -, same⟩)
  · exact notObject _ same
  · exact notObject _ same

theorem Fresh.ne_of_settled {path settled : Path} (fresh : store.Fresh path)
    (notObject : ∀ key, path ≠ .object key) (member : settled ∈ store.settledPaths) :
    settled ≠ path := by
  rintro rfl
  rcases mem_settledPaths.1 member with (⟨key, -, -, rfl⟩ | ⟨entry, -, rfl⟩) | ⟨request, held, named⟩
  · exact notObject _ rfl
  · exact notObject _ rfl
  · exact fresh.2 request held named

end Settled

variable [Digests]

/-- The step does not touch bytes that another request has summarized. -/
def Undisturbed (store : Store) : Event → Prop
  | .upload _ id => store.Fresh (.upload id)
  | .start id _ created => created = true → store.Fresh (.session id)
  | .write index _ =>
    ∀ file ∈ store.requests[index]?.bind appends,
      ∀ path ∈ store.settledPaths, store.files.links path ≠ some file
  | .copyFile index id =>
    store.Fresh (.upload id) ∧ ∀ request ∈ store.requests[index]?, store.SourceKept request
  | .importDirectory entries =>
    (entries.map (·.key)).Nodup ∧ ∀ entry ∈ entries, summarize entry.blob = entry.object.toSummary
  | .release => store.mutation.incoming = []
  | .finish index => ∀ work ∈ store.late[index]?, work.path ∉ store.recordedPaths
  | _ => True

instance decidableUndisturbed (store : Store) : ∀ event, Decidable (store.Undisturbed event)
  | .upload .. => decidableFresh ..
  | .start .. => inferInstanceAs (Decidable (_ → _))
  | .write .. => inferInstanceAs (Decidable (∀ file ∈ (_ : Option Nat), _))
  | .copyFile .. => inferInstanceAs (Decidable (_ ∧ _))
  | .importDirectory .. => inferInstanceAs (Decidable (_ ∧ _))
  | .release => inferInstanceAs (Decidable (store.mutation.incoming = []))
  | .finish .. => inferInstanceAs (Decidable (∀ work ∈ (_ : Option Detached), _))
  | .copy .. | .resume .. | .proceed .. | .commit .. | .abandon .. | .updateMetadata ..
  | .delete .. | .reset | .proceedLocked | .importObject .. => inferInstanceAs (Decidable True)

/-! ## The invariant -/

/-- The data file has the size and the checksums of the record. -/
def Matches (files : FileTable Path) (key : Text) (object : StoredObject) : Prop :=
  (files.read (.object key)).map summarize = some object.toSummary

end Store

variable [Digests]

def Request.Sound (files : FileTable Path) : Request → Prop
  | .streaming _ id file written =>
    files.OnlyAt file (.upload id) ∧
      ∀ other, files.links (.upload id) = some other → other = file ∧ files.contents file = written
  | .uploaded _ path summary _ =>
    (∀ key, path ≠ .object key) ∧ ∀ bytes, files.read path = some bytes → summarize bytes = summary
  | _ => True

def Mutation.Valid (objects : ExtTreeMap Text StoredObject Text.cmp) : Mutation → Prop
  | .deleting key => objects[key]? = none
  | .resetting _ => objects = ∅
  | .importing imported pending =>
    (imported.map (·.1) ++ pending.map (·.key)).Nodup ∧
      ∀ entry ∈ pending, summarize entry.blob = entry.object.toSummary
  | _ => True

namespace Store

variable {files : FileTable Path} {key : Text} {request : Request} {path : Path} {file index : Nat}
  {id : Text}

structure Sound (store : Store) : Prop where
  stored : ∀ (key : Text) (object : StoredObject), store.objects[key]? = some object →
    key ∈ store.mutation.incoming.map (·.1) ∨ Matches store.files key object
  incoming : ∀ entry ∈ store.mutation.incoming, Matches store.files entry.1 entry.2
  mutation : store.mutation.Valid store.objects
  requests : ∀ request ∈ store.requests, request.Sound store.files
  separate : Separate store.requests

variable {store : Store}

theorem sound_start : ({} : Store).Sound where
  stored key object found := by
    cases found
  incoming _ member := nomatch member
  mutation := trivial
  requests _ member := nomatch member
  separate _ _ _ _ _ _ found := nomatch found

/-! ## Changed files -/

theorem matches_of_agreeAt {other : FileTable Path} {object : StoredObject}
    (agree : AgreeAt files other (.object key)) (old : Matches files key object) :
    Matches other key object := by
  rw [Matches, agree.read_eq]
  exact old

theorem requestSound_of_agreeAt {other : FileTable Path}
    (agree : ∀ path, request.path = some path → AgreeAt files other path)
    (only : ∀ file path, request.streams = some path → files.OnlyAt file path →
      other.OnlyAt file path)
    (old : request.Sound files) : request.Sound other := by
  cases request with
  | streaming spec id file written =>
    have kept := agree _ rfl
    refine ⟨only file _ rfl old.1, ?_⟩
    intro found link
    rw [kept.1] at link
    obtain ⟨rfl, contents⟩ := old.2 found link
    exact ⟨rfl, (kept.2 found link).trans contents⟩
  | uploaded spec path summary session =>
    refine ⟨old.1, ?_⟩
    rw [(agree path rfl).read_eq]
    exact old.2
  | _ => trivial

theorem Sound.of_agreeAt (sound : store.Sound)
    (agree : ∀ path ∈ store.settledPaths, AgreeAt store.files files path)
    (only : ∀ file path, store.files.OnlyAt file path → files.OnlyAt file path) :
    { store with files }.Sound where
  stored key object found := by
    rcases sound.stored key object found with held | same
    · exact .inl held
    · exact .inr (matches_of_agreeAt
        (agree _ (mem_settledPaths.2 (.inl (.inl ⟨key, object, found, rfl⟩)))) same)
  incoming entry member :=
    matches_of_agreeAt (agree _ (mem_settledPaths.2 (.inl (.inr ⟨entry, member, rfl⟩))))
      (sound.incoming entry member)
  mutation := sound.mutation
  requests request member :=
    requestSound_of_agreeAt
      (fun path named => agree path (mem_settledPaths.2 (.inr ⟨request, member, named⟩)))
      (fun file path _ => only file path) (sound.requests request member)
  separate := sound.separate

theorem Sound.overwrite_fresh (sound : store.Sound) (fresh : store.Fresh path)
    (notObject : ∀ key, path ≠ .object key) (bytes : List UInt8) :
    { store with files := store.files.overwrite path bytes }.Sound := by
  apply sound.of_agreeAt
  · intro settled member
    exact store.files.agreeAt_overwrite bytes (fresh.ne_of_settled notObject member)
  · intro file other only
    exact only.overwrite path bytes

theorem requestSound_unlink (removed : Path)
    (old : request.Sound files) : request.Sound (files.unlink removed) := by
  by_cases named : request.path = some removed
  · cases request with
    | streaming spec id file written =>
      cases named
      refine ⟨old.1.unlink _, ?_⟩
      intro other link
      rw [links_unlink_self] at link
      cases link
    | uploaded spec path summary session =>
      cases named
      refine ⟨old.1, ?_⟩
      intro bytes found
      rw [read_unlink_self] at found
      cases found
    | _ => cases named
  · refine requestSound_of_agreeAt ?_ (fun file path _ only => only.unlink removed) old
    intro path held
    refine files.agreeAt_unlink ?_
    rintro rfl
    exact named held

theorem requestSound_move {source : Path} (link : files.links source = some file)
    (notStreamed : request.streams ≠ some source) (old : request.Sound files) :
    request.Sound (files.move source (.object key) file link) := by
  cases request with
  | streaming spec id handle written =>
    have differs : Path.upload id ≠ source := fun same => notStreamed (congrArg some same)
    refine requestSound_of_agreeAt ?_ ?_ old
    · intro path named
      cases named
      exact files.agreeAt_move link differs (Path.upload_ne_object id key)
    · intro file path named only
      cases named
      exact only.move link differs.symm
  | uploaded spec path summary session =>
    by_cases same : path = source
    · subst same
      refine ⟨old.1, ?_⟩
      intro bytes read
      rw [FileTable.read, files.links_move_source link (old.1 key)] at read
      cases read
    · refine requestSound_of_agreeAt ?_ ?_ old
      · intro other named
        cases named
        exact files.agreeAt_move link same (old.1 key)
      · rintro _ _ ⟨⟩
  | _ => trivial

theorem requestSound_overwrite (bytes : List UInt8) (old : request.Sound files) :
    request.Sound (files.overwrite (.object key) bytes) := by
  refine requestSound_of_agreeAt ?_ (fun _ _ _ only => only.overwrite _ _) old
  intro path named
  apply files.agreeAt_overwrite
  rintro rfl
  cases request with
  | streaming => cases named
  | uploaded =>
    cases named
    exact old.1 _ rfl
  | _ => cases named

/-- A change of a file that is not on record. -/
theorem Sound.change (sound : store.Sound) {changed : Path} (unused : changed ∉ store.recordedPaths)
    (others : ∀ path, path ≠ changed → AgreeAt store.files files path)
    (requests : ∀ request ∈ store.requests, request.Sound files) : { store with files }.Sound where
  stored key object found := by
    refine (sound.stored key object found).imp_right (matches_of_agreeAt (others _ ?_))
    rintro rfl
    exact unused (mem_recordedPaths.2 (.inl ⟨key, object, found, rfl⟩))
  incoming entry member := by
    refine matches_of_agreeAt (others _ ?_) (sound.incoming entry member)
    rintro rfl
    exact unused (mem_recordedPaths.2 (.inr ⟨entry, member, rfl⟩))
  mutation := sound.mutation
  requests := requests
  separate := sound.separate

theorem Sound.unlink (sound : store.Sound) (path : Path) (unused : path ∉ store.recordedPaths) :
    { store with files := store.files.unlink path }.Sound :=
  sound.change unused (fun _ differs => store.files.agreeAt_unlink differs)
    fun request member => requestSound_unlink path (sound.requests request member)

/-! ## Changed requests -/

theorem Sound.addRequest (sound : store.Sound) (valid : request.Sound store.files)
    (fresh : ∀ path, request.path = some path → ∀ other ∈ store.requests, other.path ≠ some path) :
    (store.addRequest request).Sound where
  stored := sound.stored
  incoming := sound.incoming
  mutation := sound.mutation
  requests other member := by
    rcases mem_append.1 member with old | new
    · exact sound.requests other old
    · cases mem_singleton.1 new
      exact valid
  separate := sound.separate.append fresh

theorem Sound.setRequest (sound : store.Sound) {old : Request}
    (found : store.requests[index]? = some old) (valid : request.Sound store.files)
    (streams : ∀ path, request.streams = some path → old.streams = some path)
    (named : ∀ path, request.path = some path → old.path = some path ∨
      ∀ other ∈ store.requests, other.streams ≠ some path) :
    (store.setRequest index request).Sound where
  stored := sound.stored
  incoming := sound.incoming
  mutation := sound.mutation
  requests other member := by
    rcases mem_or_eq_of_mem_set member with kept | rfl
    · exact sound.requests other kept
    · exact valid
  separate := sound.separate.set found streams named

theorem requestSound_of_path (nothing : request.path = none)
    (files : FileTable Path) : request.Sound files := by
  cases request with
  | streaming => cases nothing
  | uploaded => cases nothing
  | _ => trivial

section

variable (sound : store.Sound)
include sound

theorem Sound.addQuiet (nothing : request.path = none) : (store.addRequest request).Sound := by
  apply sound.addRequest (requestSound_of_path nothing store.files)
  intro path named
  cases nothing.symm.trans named

theorem Sound.setQuiet (index : Nat)
    (nothing : request.path = none) : (store.setRequest index request).Sound := by
  cases found : store.requests[index]? with
  | some old =>
    apply sound.setRequest found (requestSound_of_path nothing store.files)
    · intro path named
      cases (streams_of_path nothing).symm.trans named
    · intro path named
      cases nothing.symm.trans named
  | none =>
    have same : store.requests.set index request = store.requests :=
      set_eq_of_length_le (getElem?_eq_none_iff.1 found)
    rw [Store.setRequest, same]
    exact sound

theorem Sound.setUpload (id : Text) (session : UploadSession) :
    (store.setUpload id session).Sound :=
  ⟨sound.stored, sound.incoming, sound.mutation, sound.requests, sound.separate⟩

theorem Sound.eraseUpload (id : Text) : (store.eraseUpload id).Sound :=
  ⟨sound.stored, sound.incoming, sound.mutation, sound.requests, sound.separate⟩

/-! ## The steps outside the lock -/

theorem sound_upload (spec : CommitSpec)
    (fresh : store.Fresh (.upload id)) : (store.upload spec id).Sound := by
  have created := sound.overwrite_fresh fresh (Path.upload_ne_object id) []
  refine Sound.addRequest created ?_ ?_
  · refine ⟨store.files.onlyAt_handle (.upload id) [], ?_⟩
    intro other link
    rw [links_overwrite_self] at link
    exact ⟨(Option.some.inj link).symm, store.files.contents_overwrite_self (.upload id) []⟩
  · intro path named
    cases named
    exact fresh.2

theorem sound_copy (source : Text) (spec : CommitSpec) : (store.copy source spec).Sound := by
  unfold copy
  split
  · exact sound.addQuiet rfl
  · exact sound

theorem sound_startUpload (session : UploadSession)
    {created : Bool} (fresh : created = true → store.Fresh (.session id)) :
    (store.start id session created).Sound := by
  cases created with
  | false => exact sound.setUpload id _
  | true => exact (sound.overwrite_fresh (fresh rfl) (Path.session_ne_object id) []).setUpload id _

theorem sound_resume (id bucket : Text) (command : Command) :
    (store.resume id bucket command).Sound := by
  unfold resume
  split
  · exact sound
  · split
    · split
      · exact sound
      · exact sound.addQuiet rfl
    · split
      · exact sound
      · exact sound.addQuiet rfl
    · split
      · exact sound
      · exact (sound.setUpload id _).addQuiet rfl

theorem sound_stream {spec : CommitSpec} {written : List UInt8} (bytes : List UInt8)
    (found : store.requests[index]? = some (.streaming spec id file written)) :
    { store.setRequest index (.streaming spec id file (written ++ bytes)) with
      files := store.files.append file bytes }.Sound := by
  have mine := sound.requests _ (mem_of_getElem? found)
  have elsewhere : ∀ path, path ≠ .upload id →
      AgreeAt store.files (store.files.append file bytes) path := by
    intro path differs
    apply agreeAt_setContents
    exact fun link => differs (mine.1.2 path link)
  refine ⟨?_, ?_, sound.mutation, ?_, ?_⟩
  · intro key object held
    exact (sound.stored key object held).imp_right
      (matches_of_agreeAt (elsewhere _ (Path.upload_ne_object id _).symm))
  · intro entry member
    exact matches_of_agreeAt (elsewhere _ (Path.upload_ne_object id _).symm) (sound.incoming entry member)
  · intro request member
    rcases mem_set_cases member with rfl | ⟨place, differs, held⟩
    · refine ⟨mine.1, ?_⟩
      intro other link
      obtain ⟨rfl, contents⟩ := mine.2 other link
      refine ⟨rfl, (Function.update_self ..).trans ?_⟩
      rw [contents]
    · have old := sound.requests request (mem_of_getElem? held)
      refine requestSound_of_agreeAt ?_ (fun _ _ _ only => only.append file bytes) old
      intro path named
      apply elsewhere
      rintro rfl
      exact sound.separate index place _ request _ differs found held rfl named
  · exact sound.separate.set found (fun path named => named) (fun path named => .inl named)

theorem sound_append (index : Nat) {appended : Nat}
    {session : UploadSession} {command : Command} (bytes : List UInt8)
    (free : ∀ path ∈ store.settledPaths, store.files.links path ≠ some file) :
    { store.setRequest index (.appending id session command file appended) with
      files := store.files.append file bytes }.Sound := by
  have changed : { store with files := store.files.append file bytes }.Sound := by
    refine sound.of_agreeAt ?_ (fun _ _ only => only.append file bytes)
    intro path member
    exact agreeAt_setContents _ (free path member)
  exact changed.setQuiet index rfl

theorem sound_write (index : Nat) (bytes : List UInt8)
    (free : ∀ file ∈ store.requests[index]?.bind appends,
      ∀ path ∈ store.settledPaths, store.files.links path ≠ some file) :
    (store.write index bytes).Sound := by
  unfold write
  split
  next spec id file written found => exact sound_stream sound bytes found
  next id session command file appended found =>
    apply sound_append sound
    apply free
    rw [found]
    rfl
  next => exact sound

theorem sound_openStaging (index : Nat) (id : Text) (session : UploadSession) (command : Command) :
    (store.openStaging index id session command).Sound := by
  unfold openStaging
  split
  · exact sound.setQuiet index rfl
  · exact sound.setQuiet index rfl

theorem sound_finishAppend (index : Nat) (id : Text) (session : UploadSession) (command : Command) :
    (store.finishAppend index id session command).Sound := by
  cases command with
  | chunk range =>
    rw [finishAppend]
    split
    · exact (sound.setUpload id session).setQuiet index rfl
    · exact sound.setQuiet index rfl
  | firebase upload finalize =>
    cases finalize with
    | true | false => exact (sound.setUpload id session).setQuiet index rfl
  | cancel => exact sound

theorem sound_finalize {session : UploadSession} {firebase : Bool}
    (found : store.requests[index]? = some (.finalizing id session firebase)) :
    (store.finalize index id session firebase).Sound := by
  unfold finalize
  split
  · exact sound.setQuiet index rfl
  next bytes read =>
    have valid : Request.Sound store.files
        (.uploaded (session.spec firebase) (.session id) (summarize bytes)
          (if firebase then some (id, session) else none)) := by
      refine ⟨Path.session_ne_object id, ?_⟩
      intro others same
      cases read.symm.trans same
      rfl
    have named : ∀ path, some (.session id) = some path →
        Request.path (.finalizing id session firebase) = some path ∨
          ∀ other ∈ store.requests, other.streams ≠ some path := by
      intro path same
      cases same
      exact .inr fun other _ => other.streams_ne_session id
    cases firebase with
    | true => exact sound.setRequest found valid nofun named
    | false =>
      exact (sound.eraseUpload id).setRequest found valid nofun named

theorem sound_proceed (index : Nat) : (store.proceed index).Sound := by
  unfold proceed
  split
  next spec id file written found =>
    have mine := sound.requests _ (mem_of_getElem? found)
    refine sound.setRequest found ?_ nofun (fun _ named => .inl named)
    refine ⟨Path.upload_ne_object id, ?_⟩
    intro bytes read
    obtain ⟨other, link, rfl⟩ := read_eq_some.1 read
    obtain ⟨rfl, contents⟩ := mine.2 other link
    rw [contents]
  next id session command found =>
    split
    next finalize =>
      apply sound.setQuiet index
      cases finalize with
      | true => rfl
      | false => rfl
    next => exact sound_openStaging sound index id session command
  next id session command file appended found =>
    exact sound_finishAppend sound index id _ command
  next id session firebase found => exact sound_finalize sound found
  next id found => exact (sound.eraseUpload id).setQuiet index rfl
  next id found =>
    exact (sound.unlink (.session id) (not_mem_recordedPaths nofun)).setQuiet index rfl
  next => exact sound

theorem sound_copyFile (fresh : store.Fresh (.upload id))
    (kept : ∀ request ∈ store.requests[index]?, store.SourceKept request) :
    (store.copyFile index id).Sound := by
  unfold copyFile
  split
  next source object spec found =>
    split
    · exact sound.setQuiet index rfl
    next bytes read =>
      obtain ⟨settled, same⟩ := kept _ found
      obtain ⟨current, held, summary⟩ := Option.map_eq_some_iff.1 same
      have fits : Matches store.files source current :=
        (sound.stored source current held).resolve_left settled
      have copied : summarize bytes = object.toSummary := by
        rw [Matches, read] at fits
        exact (Option.some.inj fits).trans summary
      have created := sound.overwrite_fresh fresh (Path.upload_ne_object id) bytes
      refine created.setRequest found ?_ nofun ?_
      · refine ⟨Path.upload_ne_object id, ?_⟩
        intro others written
        rw [read_overwrite_self] at written
        cases written
        exact copied
      · intro path named
        cases named
        refine .inr fun other member streams => ?_
        exact fresh.2 other member (path_of_streams streams)
  next => exact sound

/-! ## The steps under the lock -/

theorem sound_deny (index : Nat)
    (notObject : ∀ key, path ≠ .object key) (session : Option (Text × UploadSession)) :
    (store.deny index path session).Sound := by
  have removed := (sound.unlink path (not_mem_recordedPaths notObject)).setQuiet index
    (show Request.path .over = none from rfl)
  unfold deny
  split
  · exact Sound.setUpload removed _ _
  · exact removed

theorem sound_rename (free : store.mutation = .free)
    {spec : CommitSpec} {summary : Summary} {session : Option (Text × UploadSession)}
    (found : store.requests[index]? = some (.uploaded spec path summary session))
    (link : store.files.links path = some file) : { store.setRequest index .over with
      files := store.files.move path (.object spec.key) file link
      mutation := .publishing spec.key ⟨summary, spec.metadata⟩ (session.map Prod.fst) }.Sound := by
  obtain ⟨notObject, summarized⟩ := sound.requests _ (mem_of_getElem? found)
  have others : ∀ other, other ≠ path → other ≠ .object spec.key →
      AgreeAt store.files (store.files.move path (.object spec.key) file link) other :=
    fun other notSource notTarget => store.files.agreeAt_move link notSource notTarget
  refine ⟨?_, ?_, trivial, ?_, (sound.setQuiet index rfl).separate⟩
  · intro key object held
    by_cases same : key = spec.key
    · subst same
      exact .inl (mem_singleton_self _)
    · refine .inr (matches_of_agreeAt (others _ (notObject key).symm ?_) ?_)
      · exact fun equal => same (Path.object.inj equal)
      · refine (sound.stored key object held).resolve_left ?_
        rw [free]
        exact not_mem_nil
  · intro entry member
    cases mem_singleton.1 member
    change ((store.files.move path (.object spec.key) file link).read (.object spec.key)).map
      summarize = some summary
    rw [read_move_target]
    have read : store.files.read path = some (store.files.contents file) :=
      read_eq_some.2 ⟨file, link, rfl⟩
    rw [read]
    exact congrArg some (summarized _ read)
  · intro request member
    rcases mem_set_cases member with rfl | ⟨place, differs, held⟩
    · trivial
    · refine requestSound_move link ?_ (sound.requests request (mem_of_getElem? held))
      intro streams
      exact sound.separate place index request _ path differs.symm held found streams rfl

theorem sound_commit (index : Nat) (allowed : Bool) : (store.commit index allowed).Sound := by
  unfold commit
  split
  next spec path summary session free found =>
    split
    · exact sound_deny sound index (sound.requests _ (mem_of_getElem? found)).1 session
    · split
      · exact sound.setQuiet index rfl
      next files renamed =>
        obtain ⟨file, link, rfl⟩ := rename_eq_some.1 renamed
        exact sound_rename sound free found link
  next => exact sound

theorem sound_updateMetadata (key metadata : Text) : (store.updateMetadata key metadata).Sound := by
  unfold updateMetadata
  split
  next object free found =>
    refine ⟨?_, sound.incoming, ?_, sound.requests, sound.separate⟩
    · intro other held entered
      rw [ExtTreeMap.getElem?_insert] at entered
      split at entered
      next same =>
        cases LawfulEqCmp.eq_of_compare same
        cases entered
        exact sound.stored key object found
      next => exact sound.stored other held entered
    · rw [free]
      trivial
  next => exact sound

theorem Sound.lock (free : store.mutation = .free) {mutation : Mutation}
    {objects : ExtTreeMap Text StoredObject Text.cmp}
    {uploads : ExtTreeMap Text UploadSession Text.cmp}
    (fewer : ∀ (key : Text) (object : StoredObject), objects[key]? = some object →
      store.objects[key]? = some object)
    (nothing : mutation.incoming = []) (valid : mutation.Valid objects) :
    { store with objects, uploads, mutation }.Sound where
  stored key object found := by
    refine .inr ((sound.stored key object (fewer key object found)).resolve_left ?_)
    rw [free]
    exact not_mem_nil
  incoming entry member := by
    rw [nothing] at member
    cases member
  mutation := valid
  requests := sound.requests
  separate := sound.separate

theorem sound_delete (key : Text) : (store.delete key).Sound := by
  unfold delete
  split
  next object free found =>
    refine sound.lock free ?_ rfl ExtTreeMap.getElem?_erase_self
    intro other held kept
    rw [ExtTreeMap.getElem?_erase] at kept
    split at kept
    · cases kept
    · exact kept
  next => exact sound

theorem sound_reset : store.reset.Sound := by
  unfold reset
  split
  next free =>
    exact sound.lock free (fun _ _ => nofun) rfl rfl
  next => exact sound

theorem sound_importDirectory {entries : List ImportEntry} (distinct : (entries.map (·.key)).Nodup)
    (fit : ∀ entry ∈ entries, summarize entry.blob = entry.object.toSummary) :
    (store.importDirectory entries).Sound := by
  unfold importDirectory
  split
  next free => exact sound.lock free (fun _ _ kept => kept) rfl ⟨distinct, fit⟩
  next => exact sound

theorem Sound.unlock (nothing : store.mutation.incoming = []) :
    { store with mutation := .free }.Sound where
  stored key object found := by
    refine .inr ((sound.stored key object found).resolve_left ?_)
    rw [nothing]
    exact not_mem_nil
  incoming _ member := nomatch member
  mutation := trivial
  requests := sound.requests
  separate := sound.separate

end

omit [Digests] in
theorem getElem?_insertAll (objects : ExtTreeMap Text StoredObject Text.cmp)
    (imported : List (Text × StoredObject)) {object : StoredObject}
    (found : (insertAll objects imported)[key]? = some object) :
    (key, object) ∈ imported ∨ key ∉ imported.map (·.1) ∧ objects[key]? = some object := by
  induction imported generalizing objects with
  | nil => exact .inr ⟨not_mem_nil, found⟩
  | cons entry imported ih =>
    rcases ih (objects.insert entry.1 entry.2) found with later | ⟨absent, held⟩
    · exact .inl (mem_cons_of_mem _ later)
    · rw [ExtTreeMap.getElem?_insert] at held
      split at held
      next same =>
        cases LawfulEqCmp.eq_of_compare same
        cases held
        exact .inl (mem_cons_self ..)
      next differs =>
        refine .inr ⟨?_, held⟩
        rw [map_cons, mem_cons, not_or]
        refine ⟨?_, absent⟩
        rintro rfl
        exact differs ReflCmp.compare_self

theorem sound_importObject (sound : store.Sound) (index : Nat) :
    (store.importObject index).Sound := by
  unfold importObject
  split
  next imported pending importing =>
    split
    next entry found =>
      obtain ⟨distinct, fit⟩ : (Mutation.importing imported pending).Valid store.objects :=
        importing ▸ sound.mutation
      have others : ∀ path, path ≠ .object entry.key →
          AgreeAt store.files (store.files.overwrite (.object entry.key) entry.blob) path :=
        fun path differs => store.files.agreeAt_overwrite entry.blob differs
      obtain ⟨inside, rfl⟩ := List.getElem?_eq_some_iff.1 found
      have moved : ((imported ++ [(pending[index].key, pending[index].object)]).map (·.1) ++
          (pending.eraseIdx index).map (·.key)).Perm
            (imported.map (·.1) ++ pending.map (·.key)) := by
        rw [map_append, append_assoc]
        exact ((getElem_cons_eraseIdx_perm inside).map (·.key)).append_left _
      refine ⟨?_, ?_, ⟨moved.nodup_iff.2 distinct, fun other member =>
        fit other (mem_of_mem_eraseIdx member)⟩, ?_, sound.separate⟩
      · intro key object stored
        change key ∈ (imported ++ [(pending[index].key, pending[index].object)]).map (·.1) ∨ _
        rw [map_append, mem_append]
        by_cases same : key = pending[index].key
        · exact .inl (.inr (mem_singleton.2 same))
        · rcases sound.stored key object stored with held | fits
          · rw [importing] at held
            exact .inl (.inl held)
          · exact .inr
              (matches_of_agreeAt (others _ fun equal => same (Path.object.inj equal)) fits)
      · intro arrived member
        rcases mem_append.1 member with before | now
        · have fits := sound.incoming arrived (importing ▸ before)
          refine matches_of_agreeAt (others _ fun equal => ?_) fits
          have here : arrived.1 ∈ imported.map (·.1) := mem_map_of_mem before
          refine (nodup_append.1 distinct).2.2 _ here _ (mem_map_of_mem (mem_of_getElem? found)) ?_
          exact Path.object.inj equal
        · cases mem_singleton.1 now
          change ((store.files.overwrite (.object _) _).read _).map summarize = _
          rw [read_overwrite_self]
          exact congrArg some (fit _ (mem_of_getElem? found))
      · intro request member
        exact requestSound_overwrite _ (sound.requests request member)
    next => exact sound
  next => exact sound

theorem sound_finish (sound : store.Sound) (index : Nat)
    (harmless : ∀ work ∈ store.late[index]?, work.path ∉ store.recordedPaths) :
    (store.finish index).Sound := by
  unfold finish
  split
  next path found =>
    have removed := sound.unlink path (harmless _ found)
    exact ⟨removed.stored, removed.incoming, removed.mutation, removed.requests, removed.separate⟩
  next key blob found =>
    have copied := sound.change (harmless _ found)
      (fun _ differs => store.files.agreeAt_overwrite blob differs)
      fun request member => requestSound_overwrite blob (sound.requests request member)
    exact ⟨copied.stored, copied.incoming, copied.mutation, copied.requests, copied.separate⟩
  next => exact sound

theorem Sound.enter (sound : store.Sound) :
    { store with
      objects := insertAll store.objects store.mutation.incoming
      mutation := .free }.Sound := by
  refine ⟨?_, nofun, trivial, sound.requests, sound.separate⟩
  intro key object found
  rcases getElem?_insertAll store.objects store.mutation.incoming found with new | ⟨absent, old⟩
  · exact .inr (sound.incoming _ new)
  · exact .inr ((sound.stored key object old).resolve_left absent)

theorem sound_proceedLocked (sound : store.Sound) : store.proceedLocked.Sound := by
  have valid := sound.mutation
  have entered := sound.enter
  unfold proceedLocked
  split
  next => exact sound
  next key object session publishing =>
    rw [publishing] at entered
    cases session with
    | none =>
      change { store with
        objects := store.objects.insert key object
        requests := store.requests ++ []
        mutation := .free }.Sound
      rw [append_nil]
      exact entered
    | some id => exact Sound.addQuiet entered (show path (.concluding id) = none from rfl)
  next key deleting =>
    rw [deleting] at valid
    have nothing : store.mutation.incoming = [] := by rw [deleting]; rfl
    refine Sound.unlock (sound.unlink (.object key) ?_) nothing
    rw [mem_recordedPaths, nothing]
    rintro (⟨_, object, found, ⟨⟩⟩ | ⟨_, member, -⟩)
    · cases (show store.objects[key]? = none from valid).symm.trans found
    · cases member
  next path paths resetting =>
    rw [resetting] at valid
    have nothing : store.mutation.incoming = [] := by rw [resetting]; rfl
    have removed : { store with files := store.files.unlink path }.Sound := by
      refine sound.unlink path ?_
      rw [mem_recordedPaths, nothing, show store.objects = ∅ from valid]
      rintro (⟨_, object, found, -⟩ | ⟨_, member, -⟩)
      · cases found
      · cases member
    have unlocked := removed.unlock nothing
    refine ⟨fun key object found => .inr ?_, nofun, valid, unlocked.requests, unlocked.separate⟩
    exact (unlocked.stored key object found).resolve_left not_mem_nil
  next resetting => exact sound.unlock (by rw [resetting]; rfl)
  next => exact sound
  next imported importing =>
    rw [importing] at entered
    exact entered

theorem sound_step (store : Store) (event : Event) (undisturbed : store.Undisturbed event)
    (sound : store.Sound) : (store.step event).Sound := by
  cases event with
  | upload spec id => exact sound_upload sound spec undisturbed
  | copy source spec => exact sound_copy sound source spec
  | start id session created => exact sound_startUpload sound session undisturbed
  | resume id bucket command => exact sound_resume sound id bucket command
  | write index bytes => exact sound_write sound index bytes undisturbed
  | proceed index => exact sound_proceed sound index
  | copyFile index id => exact sound_copyFile sound undisturbed.1 undisturbed.2
  | commit index allowed => exact sound_commit sound index allowed
  | abandon index => exact sound.setQuiet index rfl
  | updateMetadata key metadata => exact sound_updateMetadata sound key metadata
  | delete key => exact sound_delete sound key
  | reset => exact sound_reset sound
  | importDirectory entries => exact sound_importDirectory sound undisturbed.1 undisturbed.2
  | proceedLocked => exact sound_proceedLocked sound
  | importObject index => exact sound_importObject sound index
  | release =>
    have unlocked := sound.unlock undisturbed
    exact ⟨unlocked.stored, nofun, trivial, unlocked.requests, unlocked.separate⟩
  | finish index => exact sound_finish sound index undisturbed

end Store
end StorageFiles

namespace StorageFiles
namespace Sample

open Store

/-- Checksums that tell short files apart. -/
instance digests : Digests where
  md5 bytes := bytes.map fun byte => Char.ofNat byte.toNat
  crc32c bytes := (bytes.map (·.toUInt32)).sum

def spec (name : String) : CommitSpec := ⟨"b".toList, name.toList, [], false⟩

/-- A simple upload from its first byte to its published object. -/
def put (index : Nat) (id name : String) (bytes : List UInt8) : List Event :=
  [.upload (spec name) id.toList, .write index bytes, .proceed index, .commit index true,
    .proceedLocked]

def session : UploadSession := { bucket := "b".toList, name := "r".toList, metadata := [] }

def chunk (start total : Nat) : Event :=
  .resume "s".toList "b".toList (.chunk (some ⟨start, some total⟩))

/-- The size on record and the length of the data file, when the lock is free. -/
def sizes (events : List Event) (name : String) : Option (Option Nat × Option Nat) :=
  let store := Runs.run step {} events
  match store.mutation with
  | .free => some (store.objects[(spec name).key]?.map (·.size),
      (store.files.read (.object (spec name).key)).map List.length)
  | _ => none

/-- A resumable upload of two chunks, a copy of what it published, and a deletion whose client
leaves. -/
def orderly : List Event :=
  put 0 "u" "a" [1] ++
    [.start "s".toList session true, chunk 0 4, .proceed 1, .write 1 [1, 2], .proceed 1, chunk 2 4,
      .proceed 2, .write 2 [3, 4], .proceed 2, .proceed 2, .commit 2 true, .proceedLocked,
      .copy (spec "r").key (spec "c"), .copyFile 3 "k".toList, .commit 3 true, .proceedLocked,
      .delete (spec "a").key, .release, .finish 0]

/-- Another chunk completes the upload and publishes the object while the first one is still
being received. -/
def lateChunk : List Event :=
  [.start "s".toList session true, chunk 0 4, .proceed 0, chunk 0 2, .proceed 1, .write 1 [1, 2],
    .proceed 1, .proceed 1, .commit 1 true, .proceedLocked, .write 0 [3, 4]]

/-- The source is replaced after the copy has read its metadata. -/
def staleCopy : List Event :=
  put 0 "u" "a" [1] ++ [.copy (spec "a").key (spec "c")] ++ put 2 "v" "a" [1, 2] ++
    [.copyFile 1 "k".toList, .commit 1 true, .proceedLocked]

def brokenImport : List Event :=
  put 0 "u" "a" [1] ++
    [.importDirectory [⟨(spec "a").key, ⟨summarize [1, 2], []⟩, [1, 2]⟩], .importObject 0, .release]

/-- The client of a deletion leaves, the object is uploaded again, and then its file goes. -/
def lateUnlink : List Event :=
  put 0 "u" "a" [1] ++ [.delete (spec "a").key, .release] ++ put 1 "v" "a" [1, 2] ++ [.finish 0]

end Sample

open Sample

namespace Store

end Store
end StorageFiles
end Firenook
