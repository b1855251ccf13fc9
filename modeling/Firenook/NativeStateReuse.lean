import Firenook.NativeState

/-!
# Reuse of native state

What every reachable world satisfies.  A resuming start imports only when it found the
directory empty.  A complete receipt stands for a finished import, made under the settings of
the receipt's identity; what the import read of its seed is what the fingerprint in the
identity was taken of, unless a file was edited while it was being read, or an edit put a file
back that the import had read otherwise.
A start that reuses state does so under such a receipt, for a seed that it fingerprinted alike.
-/

namespace Firenook.NativeState

open List NativeState Directory World
open Function (Injective)

section Reuse

variable {primitives : Primitives} {honest : Prop} {world next : World} {start : Start}
  {location : Location}

/-! ## What imports stand for -/

variable {directory : Directory} {reading : Reading}

def fingerprint (primitives : Primitives) (seen : List SeedFile) : Text :=
  primitives.sha256 (hashedSeed seen)

/-- The import was made under the settings of the identity, from a seed with the file names and
contents of the identity's fingerprint, and includes every component of that seed. -/
structure Import.Holds (primitives : Primitives) (record : Import) (identity : Identity)
    (seen : List SeedFile) : Prop where
  fingerprinted : identity.seedSha256 = fingerprint primitives seen
  format : record.format = identity.format
  project : record.project = identity.project
  defaultBucket : record.defaultBucket = identity.defaultBucket
  buckets : record.buckets = identity.buckets
  reads : ∀ read ∈ record.reads, read.2 = observed seen read.1
  whole : ∃ file manifest, observed seen metadataPath = some (.file file) ∧
    primitives.parseManifest file.bytes = some manifest ∧
    record.components = manifest.components.map Prod.fst

/-- The file that a fingerprint of the start has open. -/
def Start.opened (start : Start) : Option SeedPath :=
  match start.stage with
  | .fingerprinting reading | .fingerprintingAgain reading =>
    reading.opened.map fun opened => opened.file.path
  | _ => none

/-- No edit changes the file that a fingerprint has open, or mixes with what an import reads,
or puts a file back to what the fingerprint of a start saw after the import of that start has
read something else there. -/
def KeepsEdits (world : World) : Event → Prop
  | .edit location seed =>
    ∀ start, world.owner = some start → start.config.resumeState = true →
      start.importSeed = some location →
        (∀ path ∈ start.opened,
          (seed.bind fun seed => seed.entry path) = world.entry location path) ∧
        ∀ read ∈ start.reads, read.2 ≠ observed start.seen read.1 →
          (seed.bind fun seed => seed.entry read.1) ≠ observed start.seen read.1
  | .importRead path entry =>
    ∀ start, world.owner = some start → start.config.resumeState = true →
      ∀ location, start.importSeed = some location → entry = world.entry location path
  | _ => True

theorem keepsEdits_importRead {path : SeedPath} {entry : Option Entry}
    (stands : (world.owner.all fun start => start.importSeed.all fun location =>
      entry = world.entry location path) = true) :
    KeepsEdits world (.importRead path entry) := by
  intro start isOwner _ location importSeed
  rw [isOwner, Option.all_some, importSeed, Option.all_some] at stands
  exact of_decide_eq_true stands

/-! ## The invariant -/

def Backed (primitives : Primitives) (imports : List Import) (identity : Identity)
    (seen : List SeedFile) : Prop :=
  ∃ record ∈ imports, record.Holds primitives identity seen

def Checked (config : Config) : Prop :=
  config.resumeState = true → ∀ component, config.services.started component = true

structure Early (world : World) (start : Start) : Prop where
  notReusing : start.reusing = false
  noReads : start.reads = []
  noComponents : start.components = []
  untouched : world.directory = start.found

structure Resuming (start : Start) (location : Location) : Prop where
  resumes : start.config.resumeState = true
  seed : start.config.seed = some location

theorem Resuming.importSeed (resuming : Resuming start location)
    (notReusing : start.reusing = false) : start.importSeed = some location := by
  rw [Start.importSeed, notReusing]
  exact resuming.seed

def Identified (primitives : Primitives) (honest : Prop) (start : Start) (location : Location) :
    Prop :=
  ∃ digest, start.identity = some (start.config.identity location (primitives.sha256 digest)) ∧
    (honest → digest = hashedSeed start.seen)

theorem Identified.identity (identified : Identified primitives honest start location)
    (trusted : honest) : start.identity =
      some (start.config.identity location (fingerprint primitives start.seen)) := by
  obtain ⟨digest, isIdentity, tracked⟩ := identified
  rw [isIdentity, tracked trusted]
  rfl

/-- Under way with an import.  What it read differently from the fingerprint still differs. -/
structure Fresh (primitives : Primitives) (honest : Prop) (seeds : Location → Option Seed)
    (start : Start) (location : Location) : Prop extends Resuming start location where
  notReusing : start.reusing = false
  identified : Identified primitives honest start location
  foundEmpty : start.found = .empty
  persists : honest → ∀ read ∈ start.reads, read.2 ≠ observed start.seen read.1 →
    ((seeds location).bind fun seed => seed.entry read.1) ≠ observed start.seen read.1

structure Unread (start : Start) : Prop where
  noReads : start.reads = []
  noComponents : start.components = []

/-- The components that are imported and those that remain are those of the manifest. -/
def Whole (primitives : Primitives) (start : Start) (remaining : List Component) : Prop :=
  ∃ entry manifest, (metadataPath, entry) ∈ start.reads ∧
    readExportMetadata primitives entry = .ok manifest ∧
    start.components ++ remaining = manifest.components.map Prod.fst

structure Imported (primitives : Primitives) (honest : Prop) (seeds : Location → Option Seed)
    (imports : List Import) (start : Start) (location : Location) : Prop
    extends Fresh primitives honest seeds start location where
  recorded : start.record ∈ imports
  whole : Whole primitives start []

def BackedStart (primitives : Primitives) (honest : Prop) (imports : List Import)
    (start : Start) : Prop :=
  honest → ∃ identity, start.identity = some identity ∧
    Backed primitives imports identity start.seen

/-- The temporary receipt that is renamed next is the start's own. -/
def Written (world : World) (start : Start) (complete : Bool) : Prop :=
  start.stage = .publishing complete .rename →
    world.directory.temporary = some (start.identity.map (Receipt.mk complete))

inductive Sound (primitives : Primitives) (honest : Prop) (world : World) (start : Start) : Prop
  | acquired (atStage : start.stage = .acquired) (early : Early world start)
  | fingerprinting (reading : Reading) (location : Location)
      (atStage : start.stage = .fingerprinting reading) (early : Early world start)
      (resuming : Resuming start location)
      (tracks : honest → reading.Tracks (world.entry location))
  | classifying (location : Location) (atStage : start.stage = .classifying)
      (early : Early world start) (resuming : Resuming start location)
      (identified : Identified primitives honest start location)
  | unmanaged (atStage : start.stage = .preparing ∨ (∃ remaining, start.stage = .importing remaining)
        ∨ start.stage = .prepared ∨ start.stage = .running)
      (unmanaged : start.config.resumeState = false) (notReusing : start.reusing = false)
  | reusing (atStage : start.stage = .preparing ∨ start.stage = .prepared ∨
        start.stage = .completing ∨ start.stage = .running)
      (reusing : start.reusing = true) (unread : Unread start)
      (backed : BackedStart primitives honest world.imports start)
  | publishing (location : Location) (publication : Publication)
      (atStage : start.stage = .publishing false publication)
      (fresh : Fresh primitives honest world.seeds start location) (unread : Unread start)
      (written : Written world start false)
  | preparing (location : Location) (atStage : start.stage = .preparing)
      (fresh : Fresh primitives honest world.seeds start location) (unread : Unread start)
  | importing (location : Location) (remaining : List Component)
      (atStage : start.stage = .importing remaining)
      (fresh : Fresh primitives honest world.seeds start location)
      (whole : Whole primitives start remaining)
  | imported (location : Location)
      (atStage : start.stage = .prepared ∨ start.stage = .completing)
      (imported : Imported primitives honest world.seeds world.imports start location)
  | fingerprintingAgain (location : Location) (reading : Reading)
      (atStage : start.stage = .fingerprintingAgain reading)
      (imported : Imported primitives honest world.seeds world.imports start location)
      (contradicts : honest → ∀ read ∈ start.reads, read.2 ≠ observed start.seen read.1 →
        reading.Contradicts read.1 (observed start.seen read.1))
      (tracks : honest → reading.Tracks (world.entry location))
  | completed (atStage : (∃ publication, start.stage = .publishing true publication) ∨
        start.stage = .running)
      (notReusing : start.reusing = false) (foundEmpty : start.found = .empty)
      (backed : BackedStart primitives honest world.imports start)
      (written : Written world start true)

structure Invariant (primitives : Primitives) (honest : Prop) (world : World) : Prop where
  waiting : ∀ config ∈ world.waiting, Checked config
  receipt : honest → ∀ receipt, world.directory.receipt = some receipt →
    receipt.complete = true → ∃ seen, Backed primitives world.imports receipt.identity seen
  owner : ∀ start, world.owner = some start →
    Checked start.config ∧ Sound primitives honest world start

/-! ## Steps of the start that holds the lock -/

theorem Backed.grow {imports more : List Import} {identity : Identity} {seen : List SeedFile}
    (backed : Backed primitives imports identity seen)
    (grows : ∀ record ∈ imports, record ∈ more) : Backed primitives more identity seen := by
  obtain ⟨record, member, holds⟩ := backed
  exact ⟨record, grows record member, holds⟩

theorem Directory.eq_empty (noReceipt : directory.receipt = none)
    (noTemporary : directory.temporary = none) (noEntries : directory.entries = []) :
    directory = .empty := by
  cases directory
  subst noReceipt noTemporary noEntries
  rfl

theorem Directory.adopt_receipt (legacy current : Text) (directory : Directory) :
    (directory.adopt legacy current).receipt = directory.receipt := by
  unfold adopt
  split_ifs <;> rfl

theorem Directory.validateFiles_receipt {validated : Directory}
    (isValid : directory.validateFiles = .ok validated) :
    validated.receipt = directory.receipt := by
  obtain ⟨_, _, isValid⟩ := bind_eq_ok.mp isValid
  obtain ⟨_, _, isValid⟩ := bind_eq_ok.mp isValid
  cases isValid
  rw [adoptLegacyFiles, adopt_receipt, adopt_receipt]

theorem seed_of_seedPath {config : Config} (resolved : seedPath primitives world config = .ok location) :
    config.seed = some location := by
  unfold seedPath at resolved
  split at resolved
  next => cases resolved
  next found isSeed =>
    split at resolved
    next => cases resolved
    next =>
      obtain ⟨_, _, resolved⟩ := bind_eq_ok.mp resolved
      obtain ⟨_, _, resolved⟩ := bind_eq_ok.mp resolved
      cases resolved
      exact isSeed

theorem Imported.holds (injective : Injective primitives.sha256) (trusted : honest)
    (imported : Imported primitives honest world.seeds world.imports start location)
    (contradicts : honest → ∀ read ∈ start.reads, read.2 ≠ observed start.seen read.1 →
      reading.Contradicts read.1 (observed start.seen read.1))
    (tracks : honest → reading.Tracks (world.entry location))
    (finished : reading.finished = true)
    (agrees : start.identity.map Identity.seedSha256 = some (primitives.sha256 reading.digest)) :
    start.record.Holds primitives
      (start.config.identity location (fingerprint primitives start.seen)) start.seen := by
  obtain ⟨visited, closed⟩ := Reading.finished_iff.mp finished
  rw [imported.identified.identity trusted, (tracks trusted).closed closed] at agrees
  have sameSeen : start.seen = reading.seen :=
    hashedSeed_injective (injective (Option.some.inj agrees))
  have reads : ∀ read ∈ start.reads, read.2 = observed start.seen read.1 := by
    intro read member
    by_contra differs
    have contradiction := contradicts trusted read member differs
    rw [sameSeen] at contradiction
    exact contradiction.observed_ne visited rfl
  refine ⟨rfl, rfl, rfl, rfl, rfl, reads, ?_⟩
  obtain ⟨entry, manifest, member, isManifest, components⟩ := imported.whole
  rw [append_nil] at components
  have isObserved : entry = observed start.seen metadataPath := reads _ member
  unfold readExportMetadata at isManifest
  split at isManifest
  next file =>
    split at isManifest
    next _ isParsed =>
      cases isManifest
      exact ⟨file, manifest, isObserved.symm, isParsed, components⟩
    next => cases isManifest
  next => cases isManifest

theorem BackedStart.grow {imports more : List Import} {other : Start}
    (backed : BackedStart primitives honest imports start)
    (grows : ∀ record ∈ imports, record ∈ more) (identity : other.identity = start.identity)
    (seen : other.seen = start.seen) : BackedStart primitives honest more other := by
  intro trusted
  obtain ⟨found, isFound, backed⟩ := backed trusted
  exact ⟨found, identity.trans isFound, seen ▸ backed.grow grows⟩

theorem Fresh.proceed (fresh : Fresh primitives honest world.seeds start location) (stage : Stage)
    (components : List Component) :
    Fresh primitives honest world.seeds
      { start with stage := stage, components := components } location :=
  ⟨⟨fresh.resumes, fresh.seed⟩, fresh.notReusing, fresh.identified, fresh.foundEmpty,
    fresh.persists⟩

theorem Imported.proceed
    (imported : Imported primitives honest world.seeds world.imports start location)
    (stage : Stage) :
    Imported primitives honest world.seeds world.imports { start with stage := stage } location :=
  ⟨imported.toFresh.proceed stage start.components, imported.recorded, imported.whole⟩

theorem visit_of_visitSeed {visited : Reading} (seed : start.config.seed = some location)
    (isVisited : visitSeed world start reading = .ok visited) :
    ∃ contents, world.seeds location = some contents ∧ reading.visit contents = .ok visited := by
  unfold visitSeed at isVisited
  rw [seed] at isVisited
  split at isVisited
  next => cases isVisited
  next contents isSeed => exact ⟨contents, isSeed, isVisited⟩

theorem entry_eq_of_seeds {contents : Seed} (isSeed : world.seeds location = some contents) :
    world.entry location = contents.entry := by
  funext path
  rw [World.entry, isSeed]
  rfl

theorem Reading.Tracks.visitSeed {visited : Reading}
    (tracks : reading.Tracks (world.entry location)) (seed : start.config.seed = some location)
    (isVisited : visitSeed world start reading = .ok visited) :
    visited.Tracks (world.entry location) := by
  obtain ⟨contents, isSeed, isVisited⟩ := visit_of_visitSeed seed isVisited
  rw [entry_eq_of_seeds isSeed] at tracks ⊢
  exact tracks.visit isVisited

theorem Fresh.prepare (fresh : Fresh primitives honest world.seeds start location)
    (remaining : List Component) :
    Fresh primitives honest world.seeds
      { start with
        stage := .importing remaining
        reads := [(metadataPath, world.entry location metadataPath)] } location where
  resumes := fresh.resumes
  seed := fresh.seed
  notReusing := fresh.notReusing
  identified := fresh.identified
  foundEmpty := fresh.foundEmpty
  persists := by
    intro _ read member differs
    obtain rfl := mem_singleton.mp member
    exact differs

section

variable (invariant : Invariant primitives honest world)
include invariant

theorem Invariant.proceed (waiting : next.waiting = world.waiting)
    (receipt : next.directory.receipt = world.directory.receipt)
    (grows : ∀ record ∈ world.imports, record ∈ next.imports)
    (owner : next.owner = some start) (checked : Checked start.config)
    (sound : Sound primitives honest next start) : Invariant primitives honest next where
  waiting := by
    rw [waiting]
    exact invariant.waiting
  receipt trusted found isFound complete := by
    rw [receipt] at isFound
    obtain ⟨seen, backed⟩ := invariant.receipt trusted found isFound complete
    exact ⟨seen, backed.grow grows⟩
  owner other isOwner := by
    obtain rfl : start = other := Option.some.inj (owner.symm.trans isOwner)
    exact ⟨checked, sound⟩

theorem Invariant.onward (checked : Checked start.config)
    (sound : Sound primitives honest { world with owner := some start } start) :
    Invariant primitives honest { world with owner := some start } :=
  invariant.proceed rfl rfl (fun _ => id) rfl checked sound

section

variable (injective : honest → Injective primitives.sha256)
  (identified : Identified primitives honest start location)
include injective identified

theorem backedStart_of_receipt {receipt : Receipt}
    (isReceipt : world.directory.receipt = some receipt) (complete : receipt.complete = true)
    (same : some receipt.identity = start.identity) :
    BackedStart primitives honest world.imports start := by
  intro trusted
  obtain ⟨seen, record, member, holds⟩ := invariant.receipt trusted receipt isReceipt complete
  refine ⟨receipt.identity, same.symm, record, member, ?_⟩
  have hashes := holds.fingerprinted
  rw [Option.some.inj (same.trans (identified.identity trusted))] at hashes
  obtain rfl : start.seen = seen := hashedSeed_injective (injective trusted hashes)
  exact holds

theorem Invariant.classify (checked : Checked start.config) (early : Early world start)
    (resuming : Resuming start location) (classified : classify world start = .ok next) :
    Invariant primitives honest next := by
  unfold NativeState.classify at classified
  split at classified
  next receipt isReceipt =>
    split_ifs at classified with mismatch
    rw [not_or, Bool.not_eq_false, not_not] at mismatch
    obtain ⟨directory, isValid, classified⟩ := bind_eq_ok.mp classified
    cases classified
    refine invariant.proceed rfl (validateFiles_receipt isValid) (fun _ => id) rfl checked
      (.reusing (.inl rfl) rfl ⟨early.noReads, early.noComponents⟩ ?_)
    exact (backedStart_of_receipt invariant injective identified isReceipt mismatch.1
      mismatch.2).grow (fun _ => id) rfl rfl
  next noReceipt =>
    split_ifs at classified with holdsState
    cases classified
    rw [not_or, Option.not_isSome_iff_eq_none, not_not] at holdsState
    have foundEmpty : start.found = .empty := by
      rw [← early.untouched]
      exact eq_empty noReceipt holdsState.1 holdsState.2
    refine invariant.onward checked
      (.publishing location .create rfl
        ⟨⟨resuming.resumes, resuming.seed⟩, early.notReusing, identified, foundEmpty, ?_⟩
        ⟨early.noReads, early.noComponents⟩ nofun)
    intro _ read member
    rw [early.noReads] at member
    cases member

end

section

variable (checked : Checked start.config)
include checked

theorem Invariant.publish_incomplete {publication : Publication}
    (fresh : Fresh primitives honest world.seeds start location) (unread : Unread start)
    (atStage : start.stage = .publishing false publication)
    (written : Written world start false)
    (published : publish world start false publication = .ok next) :
    Invariant primitives honest next := by
  cases publication with
  | create =>
    rw [publish] at published
    split_ifs at published
    cases published
    exact invariant.proceed rfl rfl (fun _ => id) rfl checked
      (.publishing location .write rfl (fresh.proceed _ _) ⟨unread.noReads, unread.noComponents⟩ nofun)
  | write =>
    cases published
    exact invariant.proceed rfl rfl (fun _ => id) rfl checked
      (.publishing location .rename rfl (fresh.proceed _ _)
        ⟨unread.noReads, unread.noComponents⟩ fun _ => rfl)
  | rename =>
    cases published
    refine ⟨invariant.waiting, ?_, ?_⟩
    · intro _ receipt isReceipt complete
      -- what is renamed is not complete
      obtain ⟨_, isIdentity, _⟩ := fresh.identified
      rw [written atStage, isIdentity] at isReceipt
      cases isReceipt
      cases complete
    · rintro _ ⟨⟩
      exact ⟨checked, .publishing location .sync rfl (fresh.proceed _ _)
        ⟨unread.noReads, unread.noComponents⟩ nofun⟩
  | sync =>
    cases published
    exact invariant.onward checked
      (.preparing location rfl (fresh.proceed _ _) ⟨unread.noReads, unread.noComponents⟩)

theorem Invariant.publish_complete {publication : Publication}
    (notReusing : start.reusing = false) (foundEmpty : start.found = .empty)
    (backed : BackedStart primitives honest world.imports start)
    (atStage : start.stage = .publishing true publication)
    (written : Written world start true)
    (published : publish world start true publication = .ok next) :
    Invariant primitives honest next := by
  cases publication with
  | create =>
    rw [publish] at published
    split_ifs at published
    cases published
    exact invariant.proceed rfl rfl (fun _ => id) rfl checked
      (.completed (.inl ⟨.write, rfl⟩) notReusing foundEmpty backed nofun)
  | write =>
    cases published
    exact invariant.proceed rfl rfl (fun _ => id) rfl checked
      (.completed (.inl ⟨.rename, rfl⟩) notReusing foundEmpty backed fun _ => rfl)
  | rename =>
    cases published
    refine ⟨invariant.waiting, ?_, ?_⟩
    · intro trusted receipt isReceipt _
      obtain ⟨identity, isIdentity, backed⟩ := backed trusted
      rw [written atStage, isIdentity] at isReceipt
      cases isReceipt
      exact ⟨start.seen, backed⟩
    · rintro _ ⟨⟩
      exact ⟨checked, .completed (.inl ⟨.sync, rfl⟩) notReusing foundEmpty backed nofun⟩
  | sync =>
    cases published
    exact invariant.onward checked (.completed (.inr rfl) notReusing foundEmpty backed nofun)

variable (advanced : advance primitives world start = .ok next)
include advanced

theorem Invariant.advance_early (atStage : start.stage = .acquired) (early : Early world start) :
    Invariant primitives honest next := by
  unfold advance at advanced
  rw [atStage] at advanced
  simp only at advanced
  split_ifs at advanced with resumes managed
  · obtain ⟨location, resolved, advanced⟩ := bind_eq_ok.mp advanced
    cases advanced
    exact invariant.onward checked
      (.fingerprinting .start location rfl
        ⟨early.notReusing, early.noReads, early.noComponents, early.untouched⟩
        ⟨resumes, seed_of_seedPath resolved⟩ fun _ => Reading.tracks_start _)
  · cases advanced
    exact invariant.onward checked
      (.unmanaged (.inl rfl) (Bool.eq_false_of_not_eq_true resumes) early.notReusing)

theorem Invariant.advance_fingerprinting (atStage : start.stage = .fingerprinting reading)
    (early : Early world start) (resuming : Resuming start location)
    (tracks : honest → reading.Tracks (world.entry location)) :
    Invariant primitives honest next := by
  unfold advance at advanced
  rw [atStage] at advanced
  simp only at advanced
  split_ifs at advanced with finished
  · cases advanced
    refine invariant.onward checked
      (.classifying location rfl
        ⟨early.notReusing, early.noReads, early.noComponents, early.untouched⟩
        ⟨resuming.resumes, resuming.seed⟩ ⟨reading.digest, ?_, ?_⟩)
    · rw [resuming.seed]
      rfl
    · exact fun trusted => (tracks trusted).closed (Reading.finished_iff.mp finished).2
  · obtain ⟨visited, isVisited, advanced⟩ := bind_eq_ok.mp advanced
    cases advanced
    exact invariant.onward checked
      (.fingerprinting visited location rfl
        ⟨early.notReusing, early.noReads, early.noComponents, early.untouched⟩
        ⟨resuming.resumes, resuming.seed⟩
        fun trusted => (tracks trusted).visitSeed resuming.seed isVisited)

theorem Invariant.advance_unmanaged
    (atStage : start.stage = .preparing ∨ (∃ remaining, start.stage = .importing remaining) ∨
      start.stage = .prepared ∨ start.stage = .running)
    (unmanaged : start.config.resumeState = false) (notReusing : start.reusing = false) :
    Invariant primitives honest next := by
  unfold advance at advanced
  rcases atStage with atStage | ⟨remaining, atStage⟩ | atStage | atStage <;> rw [atStage] at advanced
  · simp only at advanced
    split at advanced
    · cases advanced
      exact invariant.onward checked (.unmanaged (.inr (.inr (.inl rfl))) unmanaged notReusing)
    · obtain ⟨manifest, _, advanced⟩ := bind_eq_ok.mp advanced
      cases advanced
      exact invariant.onward checked (.unmanaged (.inr (.inl ⟨_, rfl⟩)) unmanaged notReusing)
  · cases remaining with
    | nil =>
      cases advanced
      exact invariant.proceed rfl rfl (fun _ => mem_cons_of_mem _) rfl checked
        (.unmanaged (.inr (.inr (.inl rfl))) unmanaged notReusing)
    | cons component remaining =>
      cases advanced
      exact invariant.onward checked (.unmanaged (.inr (.inl ⟨_, rfl⟩)) unmanaged notReusing)
  · cases advanced
    exact invariant.onward checked
      (.unmanaged (.inr (.inr (.inr (by rw [unmanaged]; rfl)))) unmanaged notReusing)
  · cases advanced
    exact invariant

theorem Invariant.advance_reusing
    (atStage : start.stage = .preparing ∨ start.stage = .prepared ∨ start.stage = .completing ∨
      start.stage = .running) (reusing : start.reusing = true) (unread : Unread start)
    (backed : BackedStart primitives honest world.imports start) :
    Invariant primitives honest next := by
  unfold advance at advanced
  rcases atStage with atStage | atStage | atStage | atStage <;> rw [atStage] at advanced
  · rw [Start.importSeed, if_pos reusing] at advanced
    cases advanced
    exact invariant.onward checked
      (.reusing (.inr (.inl rfl)) reusing ⟨unread.noReads, unread.noComponents⟩ backed)
  · cases advanced
    refine invariant.onward checked
      (.reusing ?_ reusing ⟨unread.noReads, unread.noComponents⟩ backed)
    cases start.config.resumeState with
    | true => exact .inr (.inr (.inl rfl))
    | false => exact .inr (.inr (.inr rfl))
  · obtain ⟨directory, isValid, advanced⟩ := bind_eq_ok.mp advanced
    cases advanced
    exact invariant.proceed rfl (validateFiles_receipt isValid) (fun _ => id) rfl checked
      (.reusing (.inr (.inr (.inr (by rw [reusing]; rfl)))) reusing
        ⟨unread.noReads, unread.noComponents⟩ backed)
  · cases advanced
    exact invariant

theorem Invariant.advance_importing {remaining : List Component}
    (atStage : start.stage = .importing remaining)
    (fresh : Fresh primitives honest world.seeds start location)
    (whole : Whole primitives start remaining) : Invariant primitives honest next := by
  unfold advance at advanced
  rw [atStage] at advanced
  cases remaining with
  | nil =>
    cases advanced
    exact invariant.proceed rfl rfl (fun _ => mem_cons_of_mem _) rfl checked
      (.imported location (.inl rfl) ⟨fresh.proceed _ _, mem_cons_self, whole⟩)
  | cons component remaining =>
    cases advanced
    refine invariant.onward checked (.importing location remaining rfl (fresh.proceed _ _) ?_)
    obtain ⟨entry, manifest, member, isManifest, components⟩ := whole
    exact ⟨entry, manifest, member, isManifest, by rw [← components]; simp⟩

theorem Invariant.advance_preparing (atStage : start.stage = .preparing)
    (fresh : Fresh primitives honest world.seeds start location) (unread : Unread start) :
    Invariant primitives honest next := by
  unfold advance at advanced
  rw [atStage, fresh.importSeed fresh.notReusing] at advanced
  obtain ⟨manifest, isManifest, advanced⟩ := bind_eq_ok.mp advanced
  cases advanced
  refine invariant.onward checked (.importing location _ rfl (fresh.prepare _) ?_)
  refine ⟨_, manifest, mem_singleton_self _, isManifest, ?_⟩
  rw [unread.noComponents]
  exact filter_eq_self.mpr fun component _ => checked fresh.resumes component

theorem Invariant.advance_imported (atStage : start.stage = .prepared ∨ start.stage = .completing)
    (imported : Imported primitives honest world.seeds world.imports start location) :
    Invariant primitives honest next := by
  unfold advance at advanced
  rcases atStage with atStage | atStage <;> rw [atStage] at advanced
  · cases advanced
    exact invariant.onward checked
      (.imported location (.inr (by rw [imported.resumes]; rfl)) (imported.proceed _))
  · obtain ⟨directory, isValid, advanced⟩ := bind_eq_ok.mp advanced
    cases advanced
    exact invariant.proceed rfl (validateFiles_receipt isValid) (fun _ => id) rfl checked
      (.fingerprintingAgain location .start (by rw [imported.notReusing]; rfl)
        (imported.proceed _) (fun _ read _ _ => Reading.contradicts_start read.1 _)
        fun _ => Reading.tracks_start _)

theorem Invariant.advance_fingerprintingAgain
    (injective : honest → Injective primitives.sha256)
    (atStage : start.stage = .fingerprintingAgain reading)
    (imported : Imported primitives honest world.seeds world.imports start location)
    (contradicts : honest → ∀ read ∈ start.reads, read.2 ≠ observed start.seen read.1 →
      reading.Contradicts read.1 (observed start.seen read.1))
    (tracks : honest → reading.Tracks (world.entry location)) :
    Invariant primitives honest next := by
  unfold advance at advanced
  rw [atStage] at advanced
  simp only at advanced
  split_ifs at advanced with finished agrees
  · cases advanced
    refine invariant.onward checked
      (.completed (.inl ⟨.create, rfl⟩) imported.notReusing imported.foundEmpty ?_ nofun)
    intro trusted
    exact ⟨_, imported.identified.identity trusted, start.record, imported.recorded,
      imported.holds (injective trusted) trusted contradicts tracks finished agrees⟩
  · obtain ⟨visited, isVisited, advanced⟩ := bind_eq_ok.mp advanced
    cases advanced
    obtain ⟨contents, isSeed, isContentVisited⟩ := visit_of_visitSeed imported.seed isVisited
    refine invariant.onward checked
      (.fingerprintingAgain location visited rfl (imported.proceed _) ?_
        fun trusted => (tracks trusted).visitSeed imported.seed isVisited)
    intro trusted read member differs
    have persists := imported.persists trusted read member differs
    rw [isSeed] at persists
    exact (contradicts trusted read member differs).visit persists isContentVisited

end

theorem Invariant.advance (injective : honest → Injective primitives.sha256)
    (owner : world.owner = some start)
    (advanced : advance primitives world start = .ok next) : Invariant primitives honest next := by
  obtain ⟨checked, sound⟩ := invariant.owner start owner
  cases sound with
  | acquired atStage early => exact invariant.advance_early checked advanced atStage early
  | fingerprinting reading location atStage early resuming tracks =>
    exact invariant.advance_fingerprinting checked advanced atStage early resuming tracks
  | classifying location atStage early resuming identified =>
    unfold NativeState.advance at advanced
    rw [atStage] at advanced
    exact invariant.classify injective identified checked early resuming advanced
  | unmanaged atStage unmanaged notReusing =>
    exact invariant.advance_unmanaged checked advanced atStage unmanaged notReusing
  | reusing atStage reusing unread backed =>
    exact invariant.advance_reusing checked advanced atStage reusing unread backed
  | publishing location publication atStage fresh unread written =>
    unfold NativeState.advance at advanced
    rw [atStage] at advanced
    exact invariant.publish_incomplete checked fresh unread atStage written advanced
  | preparing location atStage fresh unread =>
    exact invariant.advance_preparing checked advanced atStage fresh unread
  | importing location remaining atStage fresh whole =>
    exact invariant.advance_importing checked advanced atStage fresh whole
  | imported location atStage imported =>
    exact invariant.advance_imported checked advanced atStage imported
  | fingerprintingAgain location reading atStage imported contradicts tracks =>
    exact invariant.advance_fingerprintingAgain checked advanced injective atStage imported
      contradicts tracks
  | completed atStage notReusing foundEmpty backed written =>
    unfold NativeState.advance at advanced
    rcases atStage with ⟨publication, atStage⟩ | atStage <;> rw [atStage] at advanced
    · exact invariant.publish_complete checked notReusing foundEmpty backed atStage written advanced
    · cases advanced
      exact invariant

end

/-! ## Steps around it -/

/-- What happens around a start: the directory stays as it is, apart from what running services
write, and seeds keep the file that is open and what differed from the fingerprint. -/
structure Around (primitives : Primitives) (honest : Prop) (world next : World) (start : Start) :
    Prop where
  directory : next.directory = world.directory ∨ start.stage.servicesRun = true
  temporary : next.directory.temporary = world.directory.temporary
  imports : next.imports = world.imports
  fresh : ∀ location, Fresh primitives honest world.seeds start location →
    Fresh primitives honest next.seeds start location
  opened : honest → ∀ location, Resuming start location → start.reusing = false →
    ∀ path ∈ start.opened, next.entry location path = world.entry location path

theorem around_of_same (directory : next.directory = world.directory)
    (imports : next.imports = world.imports) (seeds : next.seeds = world.seeds) :
    Around primitives honest world next start where
  directory := .inl directory
  temporary := by rw [directory]
  imports := imports
  fresh location fresh := by
    rw [seeds]
    exact fresh
  opened _ location _ _ path _ := by rw [World.entry, World.entry, seeds]

section

variable (moved : Around primitives honest world next start)
include moved

theorem Early.around (early : Early world start)
    (noServices : start.stage.servicesRun = false) : Early next start where
  notReusing := early.notReusing
  noReads := early.noReads
  noComponents := early.noComponents
  untouched := by
    rcases moved.directory with same | running
    · exact same.trans early.untouched
    · rw [noServices] at running
      cases running

theorem Written.around {complete : Bool} (written : Written world start complete) :
    Written next start complete := by
  intro atStage
  rw [moved.temporary]
  exact written atStage

theorem Imported.around
    (imported : Imported primitives honest world.seeds world.imports start location) :
    Imported primitives honest next.seeds next.imports start location :=
  ⟨moved.fresh location imported.toFresh, moved.imports ▸ imported.recorded, imported.whole⟩

theorem Reading.Tracks.around (tracks : honest → reading.Tracks (world.entry location))
    (isOpened : start.opened = reading.opened.map fun opened => opened.file.path)
    (resuming : Resuming start location) (notReusing : start.reusing = false) (trusted : honest) :
    reading.Tracks (next.entry location) := by
  refine ⟨(tracks trusted).closed, ?_, (tracks trusted).fed⟩
  intro opened isOpen
  rw [moved.opened trusted location resuming notReusing opened.file.path
    (by rw [isOpened, isOpen]; rfl)]
  exact (tracks trusted).stands opened isOpen

theorem Sound.around (sound : Sound primitives honest world start) :
    Sound primitives honest next start := by
  cases sound with
  | acquired atStage early =>
    exact .acquired atStage (early.around moved (by rw [atStage]; rfl))
  | fingerprinting reading location atStage early resuming tracks =>
    exact .fingerprinting reading location atStage
      (early.around moved (by rw [atStage]; rfl)) resuming
      (Reading.Tracks.around moved tracks (by rw [Start.opened, atStage]) resuming early.notReusing)
  | classifying location atStage early resuming identified =>
    exact .classifying location atStage
      (early.around moved (by rw [atStage]; rfl)) resuming identified
  | unmanaged atStage unmanaged notReusing => exact .unmanaged atStage unmanaged notReusing
  | reusing atStage reusing unread backed =>
    exact .reusing atStage reusing unread (moved.imports ▸ backed)
  | publishing location publication atStage fresh unread written =>
    exact .publishing location publication atStage (moved.fresh location fresh) unread
      (written.around moved)
  | preparing location atStage fresh unread =>
    exact .preparing location atStage (moved.fresh location fresh) unread
  | importing location remaining atStage fresh whole =>
    exact .importing location remaining atStage (moved.fresh location fresh) whole
  | imported location atStage imported =>
    exact .imported location atStage (imported.around moved)
  | fingerprintingAgain location reading atStage imported contradicts tracks =>
    exact .fingerprintingAgain location reading atStage (imported.around moved) contradicts
      (Reading.Tracks.around moved tracks (by rw [Start.opened, atStage]) imported.toResuming
        imported.notReusing)
  | completed atStage notReusing foundEmpty backed written =>
    exact .completed atStage notReusing foundEmpty (moved.imports ▸ backed) (written.around moved)

end

theorem checked_of_checkConfig {config : Config}
    (passed : checkConfig primitives world config = .ok ()) : Checked config := by
  intro resumes component
  rw [checkConfig] at passed
  split_ifs at passed with services
  rw [Bool.not_eq_true, Bool.not_eq_false', Bool.and_eq_true, Bool.and_eq_true] at services
  cases component with
  | firestore => exact services.1.1
  | auth => exact services.1.2
  | storage => exact services.2

section

variable (invariant : Invariant primitives honest world)
include invariant

theorem Invariant.around (waiting : ∀ config ∈ next.waiting, Checked config)
    (receipt : next.directory.receipt = world.directory.receipt)
    (imports : next.imports = world.imports) (owner : next.owner = world.owner)
    (around : ∀ start, world.owner = some start → Around primitives honest world next start) :
    Invariant primitives honest next where
  waiting := waiting
  receipt := by
    rw [receipt, imports]
    exact invariant.receipt
  owner start isOwner := by
    rw [owner] at isOwner
    obtain ⟨checked, sound⟩ := invariant.owner start isOwner
    exact ⟨checked, sound.around (around start isOwner)⟩

theorem Invariant.release (waiting : next.waiting = world.waiting)
    (receipt : next.directory.receipt = world.directory.receipt)
    (imports : next.imports = world.imports) (owner : next.owner = none) :
    Invariant primitives honest next where
  waiting := by
    rw [waiting]
    exact invariant.waiting
  receipt := by
    rw [receipt, imports]
    exact invariant.receipt
  owner start isOwner := by
    rw [owner] at isOwner
    cases isOwner

theorem Invariant.importRead (owner : world.owner = some start) {path : SeedPath}
    {entry : Option Entry} (keeps : honest → KeepsEdits world (.importRead path entry)) :
    Invariant primitives honest (importRead world start path entry) := by
  obtain ⟨checked, sound⟩ := invariant.owner start owner
  unfold NativeState.importRead
  split
  next remaining location atStage importSeed =>
    refine invariant.onward checked ?_
    cases sound with
    | importing seedLocation _ isStage fresh whole =>
      rw [atStage] at isStage
      cases isStage
      refine .importing seedLocation remaining atStage
        ⟨⟨fresh.resumes, fresh.seed⟩, fresh.notReusing, fresh.identified, fresh.foundEmpty, ?_⟩ ?_
      · intro trusted read member differs
        rcases mem_append.mp member with member | member
        · exact fresh.persists trusted read member differs
        · obtain rfl := mem_singleton.mp member
          have whole := keeps trusted start owner fresh.resumes _
            (fresh.importSeed fresh.notReusing)
          rw [whole] at differs
          exact differs
      · obtain ⟨entry, manifest, member, rest⟩ := whole
        exact ⟨entry, manifest, mem_append_left _ member, rest⟩
    | unmanaged _ unmanaged notReusing =>
      exact .unmanaged (.inr (.inl ⟨remaining, atStage⟩)) unmanaged notReusing
    | acquired isStage | fingerprinting _ _ isStage | classifying _ isStage =>
      cases atStage.symm.trans isStage
    | reusing isStage =>
      rcases isStage with isStage | isStage | isStage | isStage <;> cases atStage.symm.trans isStage
    | publishing _ _ isStage | preparing _ isStage => cases atStage.symm.trans isStage
    | imported _ isStage => rcases isStage with isStage | isStage <;> cases atStage.symm.trans isStage
    | fingerprintingAgain _ _ isStage => cases atStage.symm.trans isStage
    | completed isStage =>
      rcases isStage with ⟨_, isStage⟩ | isStage <;> cases atStage.symm.trans isStage
  next => exact invariant

theorem Invariant.services (running : world.owner.any (fun start => start.stage.servicesRun) = true)
    (receipt : directory.receipt = world.directory.receipt)
    (temporary : directory.temporary = world.directory.temporary) :
    Invariant primitives honest { world with directory := directory } := by
  refine invariant.around invariant.waiting receipt rfl rfl ?_
  intro start isOwner
  rw [isOwner] at running
  exact ⟨.inr running, temporary, rfl, fun _ => id, fun _ _ _ _ _ _ => rfl⟩

theorem Invariant.edit {edited : Location}
    {seed : Option Seed} (keeps : honest → KeepsEdits world (.edit edited seed)) :
    Invariant primitives honest
      { world with seeds := Function.update world.seeds edited seed } := by
  refine invariant.around invariant.waiting rfl rfl rfl ?_
  intro start isOwner
  refine ⟨.inl rfl, rfl, rfl, fun location fresh => ?_, fun trusted location resuming notReusing =>
    ?_⟩
  · refine ⟨⟨fresh.resumes, fresh.seed⟩, fresh.notReusing, fresh.identified, fresh.foundEmpty, ?_⟩
    intro trusted read member differs
    change ((Function.update world.seeds edited seed location).bind _) ≠ _
    by_cases here : location = edited
    · subst here
      rw [Function.update_self]
      exact (keeps trusted start isOwner fresh.resumes (fresh.importSeed fresh.notReusing)).2 read
        member differs
    · rw [Function.update_of_ne here]
      exact fresh.persists trusted read member differs
  · intro path isOpened
    change ((Function.update world.seeds edited seed location).bind _) = _
    by_cases here : location = edited
    · subst here
      rw [Function.update_self]
      exact (keeps trusted start isOwner resuming.resumes (resuming.importSeed notReusing)).1 path
        isOpened
    · rw [Function.update_of_ne here]
      rfl

end

theorem Invariant.step (injective : honest → Injective primitives.sha256) {event : Event}
    (keeps : honest → KeepsEdits world event) (invariant : Invariant primitives honest world) :
    Invariant primitives honest (world.step primitives event) := by
  cases event with
  | check config =>
    rw [World.step]
    cases passed : checkConfig primitives world config with
    | ok _ =>
      refine invariant.around ?_ rfl rfl rfl fun start _ => around_of_same rfl rfl rfl
      exact forall_mem_cons.mpr ⟨checked_of_checkConfig passed, invariant.waiting⟩
    | error refusal =>
      exact invariant.around invariant.waiting rfl rfl rfl fun start _ =>
        around_of_same rfl rfl rfl
  | lock config =>
    have waiting : ∀ other ∈ world.waiting.erase config, Checked other := fun other member =>
      invariant.waiting other (mem_of_mem_erase member)
    rw [World.step]
    dsimp only
    split_ifs with isWaiting
    · exact invariant.around waiting rfl rfl rfl fun start _ =>
        around_of_same rfl rfl rfl
    · refine ⟨waiting, invariant.receipt, ?_⟩
      rintro _ ⟨⟩
      exact ⟨invariant.waiting config isWaiting, .acquired rfl ⟨rfl, rfl, rfl, rfl⟩⟩
    · exact invariant
  | abandon config =>
    exact invariant.around
      (fun other member => invariant.waiting other (mem_of_mem_erase member)) rfl rfl rfl
      fun start _ => around_of_same rfl rfl rfl
  | advance =>
    rw [World.step]
    split
    next => exact invariant
    next start owner =>
      split
      next advanced => exact invariant.advance injective owner advanced
      next => exact invariant.release rfl rfl rfl rfl
  | importRead path entry =>
    rw [World.step]
    split
    next => exact invariant
    next start owner => exact invariant.importRead owner keeps
  | write name kind | remove name =>
    rw [World.step]
    split_ifs with allowed
    · exact invariant.services allowed.1 rfl rfl
    · exact invariant
  | stop => exact invariant.release rfl rfl rfl rfl
  | edit location seed => exact invariant.edit keeps

theorem invariant_initial (seeds : Location → Option Seed) :
    Invariant primitives honest (.initial seeds) :=
  ⟨fun _ => nofun, fun _ _ => nofun, fun _ => nofun⟩

/-! ## Results -/

/-- A start that reuses state stands in a directory into which an earlier start imported a seed
with the file names and contents that this start fingerprinted, whole and under the same
settings. -/
def ReusesImported (primitives : Primitives) (world : World) : Prop :=
  ∀ start, world.owner = some start → start.reusing = true →
    ∃ identity record, start.identity = some identity ∧ record ∈ world.imports ∧
      record.Holds primitives identity start.seen

/-- A resuming start that has read anything of its seed for an import found the directory
empty. -/
def ImportsIntoEmpty (world : World) : Prop :=
  ∀ start, world.owner = some start → start.config.resumeState = true → start.reads ≠ [] →
    start.found = .empty

theorem Invariant.reusesImported (invariant : Invariant primitives True world) :
    ReusesImported primitives world := by
  intro start isOwner reuses
  obtain ⟨_, sound⟩ := invariant.owner start isOwner
  cases sound with
  | reusing _ _ _ backed =>
    obtain ⟨identity, isIdentity, record, member, holds⟩ := backed trivial
    exact ⟨identity, record, isIdentity, member, holds⟩
  | acquired _ early | fingerprinting _ _ _ early | classifying _ _ early =>
    cases early.notReusing.symm.trans reuses
  | unmanaged _ _ notReusing => cases notReusing.symm.trans reuses
  | publishing _ _ _ fresh | preparing _ _ fresh | importing _ _ _ fresh =>
    cases fresh.notReusing.symm.trans reuses
  | imported _ _ imported | fingerprintingAgain _ _ _ imported =>
    cases imported.notReusing.symm.trans reuses
  | completed _ notReusing => cases notReusing.symm.trans reuses

theorem Invariant.importsIntoEmpty (invariant : Invariant primitives honest world) :
    ImportsIntoEmpty world := by
  intro start isOwner resumes hasRead
  obtain ⟨_, sound⟩ := invariant.owner start isOwner
  cases sound with
  | acquired _ early | fingerprinting _ _ _ early | classifying _ _ early =>
    exact absurd early.noReads hasRead
  | unmanaged _ unmanaged => cases unmanaged.symm.trans resumes
  | reusing _ _ unread => exact absurd unread.noReads hasRead
  | publishing _ _ _ fresh | preparing _ _ fresh | importing _ _ _ fresh => exact fresh.foundEmpty
  | imported _ _ imported | fingerprintingAgain _ _ _ imported => exact imported.foundEmpty
  | completed _ _ foundEmpty => exact foundEmpty

/-- In every run a resuming start imports only into a directory it found empty, and in every
run that keeps its edits a start reuses only what was imported whole from the seed it saw. -/
theorem native_reuse_is_fail_closed (primitives : Primitives)
    (injective : Injective primitives.sha256) (seeds : Location → Option Seed)
    (events : List Event) :
    ImportsIntoEmpty (Runs.run (World.step primitives) (.initial seeds) events) ∧
    (Runs.AllSteps (World.step primitives) KeepsEdits (.initial seeds) events →
      ReusesImported primitives (Runs.run (World.step primitives) (.initial seeds) events)) := by
  constructor
  · have invariant : Invariant primitives False
        (Runs.run (World.step primitives) (.initial seeds) events) :=
      Runs.invariant_run_unconditional (Invariant primitives False)
        (fun _ _ holds => holds.step False.elim False.elim) (invariant_initial seeds) events
    exact invariant.importsIntoEmpty
  · intro keeps
    have invariant : Invariant primitives True
        (Runs.run (World.step primitives) (.initial seeds) events) :=
      Runs.invariant_run (Invariant primitives True)
        (fun _ _ keeps holds => holds.step (fun _ => injective) fun _ => keeps)
        (invariant_initial seeds) keeps
    exact invariant.reusesImported

/-- Some import of the world read what the start that reuses its state saw. -/
def World.readsAgree (world : World) : Bool :=
  world.owner.all fun start => !start.reusing || world.imports.any fun record =>
    record.reads.all fun read => read.2 = observed start.seen read.1

theorem readsAgree_of_reusesImported (reuses : ReusesImported primitives world) :
    world.readsAgree = true := by
  rw [readsAgree, Option.all_eq_true]
  intro start isOwner
  cases reusing : start.reusing with
  | false => rfl
  | true =>
    obtain ⟨_, record, _, member, holds⟩ := reuses start isOwner reusing
    simp only [Bool.not_true, Bool.false_or, any_eq_true, all_eq_true, decide_eq_true_eq]
    exact ⟨record, member, holds.reads⟩

end Reuse

namespace Sample

def primitives : Primitives where
  sha256 bytes := bytes.map fun byte => Char.ofNat byte.toNat
  parseManifest _ := some ⟨none, some ⟨false, ["users".toList]⟩, none⟩

theorem sha256_injective : Injective primitives.sha256 := by
  apply map_injective_iff.mpr
  intro left right same
  have valid : ∀ byte : UInt8, byte.toNat.isValidChar := fun byte =>
    .inl (byte.toNat_lt.trans (by decide))
  have codes := congrArg Char.toNat same
  rw [Char.toNat_ofNat, Char.toNat_ofNat, if_pos (valid left), if_pos (valid right)] at codes
  exact UInt8.toNat_inj.mp codes

def metadata : SeedFile := ⟨metadataPath, [], by decide, by decide, by decide, by decide⟩

def users (version : UInt8) : SeedFile :=
  ⟨["users".toList], [version], by simp, by decide, by decide, by simp⟩

def seed (version : UInt8) : Seed where
  files := [metadata, users version]
  specials := []
  flat := by
    change ∀ upper ∈ [metadataPath, ["users".toList]], ∀ lower ∈ [metadataPath, ["users".toList]], _
    decide

def location : Location := ["seed".toList]

def config : Config where
  project := "demo".toList
  services := ⟨true, true, true⟩
  stateDir := ["state".toList]
  resumeState := true
  firestoreInMemory := false
  storageRules := .openDefault
  defaultBucket := "demo-bucket".toList
  seed := some location
  exportOnExit := none

def seeds (place : Location) : Option Seed := if place = location then some (seed 1) else none

def serviceWrites : List Event :=
  (requiredDirectories.map fun name => .write name .directory) ++
    requiredFiles.map fun name => .write name .file

variable (before : List Event) (imported : UInt8) (after : List Event)

/-- A start imports the seed; `before` and `after` happen around what its import reads. -/
def importing : List Event :=
  [.check config, .lock config] ++ (replicate 14 .advance ++ (before ++
    (.importRead ["users".toList] (some (.file (users imported))) :: (after ++ (serviceWrites ++
      (replicate 15 .advance ++ [.stop]))))))

def resuming : List Event := [.check config, .lock config] ++ replicate 9 .advance

def finished : World :=
  Runs.run (step primitives) (.initial seeds) (importing before imported after ++ resuming)

end Sample

open Sample

theorem native_reuse_is_fail_closed_sample :
    ((finished [] 1 []).owner.any fun start => start.reusing) = true ∧
      ReusesImported primitives (finished [] 1 []) := by
  refine ⟨by decide +kernel, ?_⟩
  apply (native_reuse_is_fail_closed primitives sha256_injective seeds
    (importing [] 1 [] ++ resuming)).2
  repeat' constructor
  exact keepsEdits_importRead (by decide +kernel)

/-- The users are edited before the import reads them and put back before the second
fingerprint: the next start reuses what was not imported from the seed it sees. -/
theorem restored_seed_is_reused :
    ¬ReusesImported primitives (finished
      [.edit location (some (seed 2))] 2
      [.edit location (some (seed 1))]) := by
  intro reuses
  have agree := readsAgree_of_reusesImported reuses
  have differ : (finished [.edit location (some (seed 2))] 2
      [.edit location (some (seed 1))]).readsAgree = false := by
    decide +kernel
  cases differ.symm.trans agree

end Firenook.NativeState
