import Firenook.SeedReadings

/-!
# Native state

A suite start takes the lock of its state directory and decides whether the state there may
be reused.  A resuming start reuses state only under a receipt that was completed for the same
project, buckets, format and seed; without a receipt it imports the seed, and only into a
directory that holds nothing but the lock.  The receipt is published twice, before the import
as incomplete and after it as complete, each time by renaming a temporary file.

The machine takes one such step at a time.  Between any two of them seeds are edited, other
starts try the lock, the running services write their files, or the process that holds the
lock dies.
-/

namespace Firenook.NativeState

/-! ## Configurations -/

abbrev Location := List Text

inductive Component
  | firestore
  | auth
  | storage
  deriving DecidableEq

structure ManifestPath where
  absolute : Bool
  components : SeedPath
  deriving DecidableEq

/-- `ExportMetadata`, in the order in which components are imported. -/
structure Manifest where
  firestore : Option ManifestPath
  auth : Option ManifestPath
  storage : Option ManifestPath
  deriving DecidableEq

def Manifest.components (manifest : Manifest) : List (Component × ManifestPath) :=
  (manifest.firestore.map (Component.firestore, ·)).toList ++
    ((manifest.auth.map (Component.auth, ·)).toList ++
      (manifest.storage.map (Component.storage, ·)).toList)

inductive StorageRules
  | single
  | openDefault
  | perBucket (buckets : List Text)
  deriving DecidableEq

structure Services where
  firestore : Bool
  auth : Bool
  storage : Bool
  deriving DecidableEq

def Services.started (services : Services) : Component → Bool
  | .firestore => services.firestore
  | .auth => services.auth
  | .storage => services.storage

/-- The part of `SuiteConfig` that decides about native state; `seed` is its `import`. -/
structure Config where
  project : Text
  services : Services
  stateDir : Location
  resumeState : Bool
  firestoreInMemory : Bool
  storageRules : StorageRules
  defaultBucket : Text
  seed : Option Location
  exportOnExit : Option Location
  deriving DecidableEq

def Config.buckets (config : Config) : List Text :=
  let buckets := match config.storageRules with
    | .single | .openDefault => [config.defaultBucket]
    | .perBucket buckets => buckets
  (buckets.insertionSort fun left right => (Text.cmp left right).isLE).destutter (· ≠ ·)

/-! ## Receipts -/

/-- Raised on incompatible changes of the native formats. -/
def currentFormat : Nat := 2

structure Identity where
  format : Nat
  project : Text
  defaultBucket : Text
  buckets : List Text
  seedPath : Location
  seedSha256 : Text
  deriving DecidableEq

structure Receipt where
  complete : Bool
  identity : Identity
  deriving DecidableEq

def Config.identity (config : Config) (seed : Location) (seedSha256 : Text) : Identity where
  format := currentFormat
  project := config.project
  defaultBucket := config.defaultBucket
  buckets := config.buckets
  seedPath := seed
  seedSha256 := seedSha256

/-- The state directory, apart from its lock.  The temporary receipt has no contents until
they are written. -/
structure Directory where
  receipt : Option Receipt
  temporary : Option (Option Receipt)
  entries : List (Text × Seed.Kind)
  deriving DecidableEq

namespace Directory

def empty : Directory := ⟨none, none, []⟩

variable (directory : Directory) (name : Text)

def kind : Option Seed.Kind := directory.entries.lookup name

def put (kind : Seed.Kind) : Directory :=
  { directory with
    entries := (name, kind) :: directory.entries.filter fun entry => entry.1 ≠ name }

def remove : Directory :=
  { directory with entries := directory.entries.filter fun entry => entry.1 ≠ name }

def adopt (legacy current : Text) (directory : Directory) : Directory :=
  if directory.kind legacy = some .file ∧ directory.kind current = none then
    (directory.remove legacy).put current .file
  else directory

def adoptLegacyFiles : Directory :=
  ((directory.adopt "firestore/fireside.redb".toList "firestore/firenook.redb".toList).adopt
    "firestore/fireside.wal".toList "firestore/firenook.wal".toList)

def requireDirectory : Except Refusal Unit :=
  match directory.kind name with
  | some .directory => .ok ()
  | some _ => .error (.missingDirectory name)
  | none => .error .io

def requireFile : Except Refusal Unit :=
  match directory.kind name with
  | some .file => .ok ()
  | some _ => .error (.missingFile name)
  | none => .error .io

def requiredDirectories : List Text :=
  ["firestore".toList, "storage".toList, "storage/objects".toList]

def requiredFiles : List Text :=
  ["firestore/firenook.redb".toList, "firestore/firenook.wal".toList, "auth-state.json".toList,
    "storage/metadata.json".toList, "storage/metadata.redb".toList]

def validateFiles : Except Refusal Directory := do
  requiredDirectories.forM directory.requireDirectory
  let adopted := directory.adoptLegacyFiles
  requiredFiles.forM adopted.requireFile
  .ok adopted

end Directory

/-! ## Starts -/

inductive Publication
  | create
  | write
  | rename
  | sync
  deriving DecidableEq

inductive Stage
  | acquired
  | fingerprinting (reading : Reading)
  | classifying
  | publishing (complete : Bool) (publication : Publication)
  | preparing
  | importing (remaining : List Component)
  | prepared
  | completing
  | fingerprintingAgain (reading : Reading)
  | running

def Stage.servicesRun : Stage → Bool
  | .acquired | .fingerprinting _ | .classifying | .publishing false _ => false
  | _ => true

/-- What an import did: the settings it was made under, what it read of the seed, in order,
and the components it imported. -/
structure Import where
  format : Nat
  project : Text
  defaultBucket : Text
  buckets : List Text
  reads : List (SeedPath × Option Entry)
  components : List Component

/-- A start that holds the lock.  No step reads what it found on taking the lock, what it saw
for its fingerprint and what its import read and imported; they record its history. -/
structure Start where
  config : Config
  stage : Stage
  identity : Option Identity
  reusing : Bool
  found : Directory
  seen : List SeedFile
  reads : List (SeedPath × Option Entry)
  components : List Component

def Start.begin (config : Config) (directory : Directory) : Start where
  config := config
  stage := .acquired
  identity := none
  reusing := false
  found := directory
  seen := []
  reads := []
  components := []

def Start.record (start : Start) : Import where
  format := currentFormat
  project := start.config.project
  defaultBucket := start.config.defaultBucket
  buckets := start.config.buckets
  reads := start.reads
  components := start.components

/-- `startup.import`: reused state is not imported into. -/
def Start.importSeed (start : Start) : Option Location :=
  if start.reusing then none else start.config.seed

/-- The world around one state directory.  Imports are recorded when they are finished. -/
structure World where
  directory : Directory
  seeds : Location → Option Seed
  waiting : List Config
  owner : Option Start
  imports : List Import
  refusals : List Refusal

def World.entry (world : World) (location : Location) (path : SeedPath) : Option Entry :=
  (world.seeds location).bind fun seed => seed.entry path

def World.initial (seeds : Location → Option Seed) : World where
  directory := .empty
  seeds := seeds
  waiting := []
  owner := none
  imports := []
  refusals := []

/-- SHA-256 in hexadecimal digits and the JSON reader of seed manifests. -/
structure Primitives where
  sha256 : List UInt8 → Text
  parseManifest : List UInt8 → Option Manifest

section Machine

variable (primitives : Primitives)

def metadataPath : SeedPath := ["firebase-export-metadata.json".toList]

def readExportMetadata (entry : Option Entry) : Except Refusal Manifest :=
  match entry with
  | some (.file file) =>
    match primitives.parseManifest file.bytes with
    | some manifest => .ok manifest
    | none => .error .io
  | _ => .error .io

def checkManifestPath (seed : Seed) (path : ManifestPath) : Except Refusal Unit :=
  if path.absolute ∨ "..".toList ∈ path.components then .error .manifestOutside
  else if seed.specials.any fun special => special <+: path.components then
    .error .manifestAlias
  else if seed.paths.any fun present => path.components <+: present then .ok ()
  else .error .io

variable (world : World)

def seedPath (config : Config) : Except Refusal Location :=
  match config.seed with
  | none => .error .requiresImport
  | some location =>
    match world.seeds location with
    | none => .error .io
    | some seed => do
      let manifest ← readExportMetadata primitives (seed.entry metadataPath)
      manifest.components.forM fun component => checkManifestPath seed component.2
      .ok location

def rejectOverlap (left right : Location) : Except Refusal Unit :=
  if left <+: right ∨ right <+: left then .error .overlap else .ok ()

def validateExportDestination (config : Config) (destination : Location) : Except Refusal Unit := do
  let seed ← seedPath primitives world config
  rejectOverlap destination seed
  rejectOverlap destination config.stateDir

def checkConfig (config : Config) : Except Refusal Unit :=
  if config.resumeState then
    if !(config.services.firestore && config.services.auth && config.services.storage) then
      .error .requiresServices
    else if config.firestoreInMemory then .error .requiresDisk
    else do
      let seed ← seedPath primitives world config
      rejectOverlap config.stateDir seed
      match config.exportOnExit with
      | none => .ok ()
      | some destination => validateExportDestination primitives world config destination
  else .ok ()

def visitSeed (start : Start) (reading : Reading) : Except Refusal Reading :=
  match start.config.seed.bind world.seeds with
  | none => .error .io
  | some seed => reading.visit seed

def World.proceed (start : Start) : World := { world with owner := some start }

def classify (start : Start) : Except Refusal World :=
  match world.directory.receipt with
  | some receipt =>
    if receipt.complete = false ∨ some receipt.identity ≠ start.identity then .error .mismatch
    else do
      let directory ← world.directory.validateFiles
      .ok ({ world with directory := directory }.proceed
        { start with stage := .preparing, reusing := true })
  | none =>
    if world.directory.temporary.isSome ∨ world.directory.entries ≠ [] then .error .nonempty
    else .ok (world.proceed { start with stage := .publishing false .create })

def publish (start : Start) (complete : Bool) : Publication → Except Refusal World
  | .create =>
    if world.directory.temporary.isSome then .error .io
    else .ok ({ world with directory := { world.directory with temporary := some none } }.proceed
      { start with stage := .publishing complete .write })
  | .write =>
    let receipt := start.identity.map (Receipt.mk complete)
    .ok ({ world with directory := { world.directory with temporary := some receipt } }.proceed
      { start with stage := .publishing complete .rename })
  | .rename =>
    .ok ({ world with directory :=
        { world.directory with receipt := world.directory.temporary.join, temporary := none } }.proceed
      { start with stage := .publishing complete .sync })
  | .sync => .ok (world.proceed { start with stage := if complete then .running else .preparing })

def advance (start : Start) : Except Refusal World :=
  match start.stage with
  | .acquired =>
    if start.config.resumeState then do
      let _ ← seedPath primitives world start.config
      .ok (world.proceed { start with stage := .fingerprinting .start })
    else if world.directory.receipt.isSome then .error .managed
    else .ok (world.proceed { start with stage := .preparing })
  | .fingerprinting reading =>
    if reading.finished then
      .ok (world.proceed { start with
        stage := .classifying
        identity := start.config.seed.map fun seed =>
          start.config.identity seed (primitives.sha256 reading.digest)
        seen := reading.seen })
    else do
      let reading ← visitSeed world start reading
      .ok (world.proceed { start with stage := .fingerprinting reading })
  | .classifying => classify world start
  | .publishing complete publication => publish world start complete publication
  | .preparing =>
    match start.importSeed with
    | none => .ok (world.proceed { start with stage := .prepared })
    | some location => do
      let entry := world.entry location metadataPath
      let manifest ← readExportMetadata primitives entry
      -- components whose service is not started are skipped
      let components := (manifest.components.map Prod.fst).filter start.config.services.started
      .ok (world.proceed { start with
        stage := .importing components
        reads := [(metadataPath, entry)] })
  | .importing (component :: remaining) =>
    .ok (world.proceed { start with
      stage := .importing remaining
      components := start.components ++ [component] })
  | .importing [] =>
    .ok ({ world with imports := start.record :: world.imports }.proceed
      { start with stage := .prepared })
  | .prepared =>
    .ok (world.proceed
      { start with stage := if start.config.resumeState then .completing else .running })
  | .completing => do
    let directory ← world.directory.validateFiles
    .ok ({ world with directory := directory }.proceed
      { start with stage := if start.reusing then .running else .fingerprintingAgain .start })
  | .fingerprintingAgain reading =>
    if reading.finished then
      if start.identity.map Identity.seedSha256 = some (primitives.sha256 reading.digest) then
        .ok (world.proceed { start with stage := .publishing true .create })
      else .error .seedChanged
    else do
      let reading ← visitSeed world start reading
      .ok (world.proceed { start with stage := .fingerprintingAgain reading })
  | .running => .ok world

def reservedNames : List Text :=
  [".firenook-suite.lock".toList, "native-state.json".toList, "native-state.json.tmp".toList]

inductive Event
  /-- A start passes its first checks. -/
  | check (config : Config)
  /-- A start that passed them tries the lock. -/
  | lock (config : Config)
  /-- A start that waits for the lock is killed. -/
  | abandon (config : Config)
  /-- The start that holds the lock takes its next step. -/
  | advance
  /-- Its import reads something of the seed, perhaps mixed with what an edit is writing. -/
  | importRead (path : SeedPath) (entry : Option Entry)
  /-- Its services write and remove files. -/
  | write (name : Text) (kind : Seed.Kind)
  | remove (name : Text)
  /-- It is killed, fails or ends; its lock is released. -/
  | stop
  /-- Somebody edits a seed. -/
  | edit (location : Location) (seed : Option Seed)

def importRead (start : Start) (path : SeedPath) (entry : Option Entry) : World :=
  match start.stage, start.importSeed with
  | .importing _, some _ => world.proceed { start with reads := start.reads ++ [(path, entry)] }
  | _, _ => world

def World.step : Event → World
  | .check config =>
    match checkConfig primitives world config with
    | .ok () => { world with waiting := config :: world.waiting }
    | .error refusal => { world with refusals := refusal :: world.refusals }
  | .lock config =>
    if config ∈ world.waiting then
      let world := { world with waiting := world.waiting.erase config }
      if world.owner.isSome then { world with refusals := .locked :: world.refusals }
      else world.proceed (.begin config world.directory)
    else world
  | .abandon config => { world with waiting := world.waiting.erase config }
  | .advance =>
    match world.owner with
    | none => world
    | some start =>
      match advance primitives world start with
      | .ok next => next
      | .error refusal =>
        { world with owner := none, refusals := refusal :: world.refusals }
  | .importRead path entry =>
    match world.owner with
    | none => world
    | some start => importRead world start path entry
  | .write name kind =>
    if world.owner.any (fun start => start.stage.servicesRun) ∧ name ∉ reservedNames then
      { world with directory := world.directory.put name kind }
    else world
  | .remove name =>
    if world.owner.any (fun start => start.stage.servicesRun) ∧ name ∉ reservedNames then
      { world with directory := world.directory.remove name }
    else world
  | .stop => { world with owner := none }
  | .edit location seed =>
    { world with seeds := Function.update world.seeds location seed }

end Machine

end Firenook.NativeState
