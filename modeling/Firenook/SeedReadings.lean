import Firenook.ByteReaders

/-!
# Reading a seed

A seed is a directory of files that others may edit at any moment.  Its fingerprint lists one
directory and opens one file at a time and reads that piece by piece, so that what it has seen
may never have stood in the seed at once.  As long as nobody edits the file that is open, the
bytes it hashes determine the names and the contents it has seen; and a file that differs from
some expectation for as long as a reading takes is not seen as expected.
-/

namespace Firenook.NativeState

open List

/-! ## Seeds -/

abbrev SeedPath := List Text

def pathText (path : SeedPath) : Text := ['/'].intercalate path

/-- A regular file: lengths are 64-bit numbers, and no component holds a separator. -/
structure SeedFile where
  path : SeedPath
  bytes : List UInt8
  named : path ≠ []
  separated : ∀ component ∈ path, '/' ∉ component
  shortName : (pathText path).byteLength < 2 ^ 64
  shortBytes : bytes.length < 2 ^ 64
  deriving DecidableEq

inductive Entry
  | file (file : SeedFile)
  | special
  deriving DecidableEq

/-- The regular files of a seed, and its symbolic links and special files. -/
structure Seed where
  files : List SeedFile
  specials : List SeedPath
  flat : ∀ upper ∈ files.map SeedFile.path ++ specials,
    ∀ lower ∈ files.map SeedFile.path ++ specials, upper <+: lower → upper = lower

variable {seed : Seed} {path : SeedPath}

namespace Seed

def paths (seed : Seed) : List SeedPath := seed.files.map SeedFile.path ++ seed.specials

def entry (seed : Seed) (path : SeedPath) : Option Entry :=
  match seed.files.find? fun file => file.path = path with
  | some file => some (.file file)
  | none => if path ∈ seed.specials then some .special else none

theorem mem_paths_of_entry {entry : Entry}
    (found : seed.entry path = some entry) : path ∈ seed.paths := by
  unfold Seed.entry at found
  split at found
  next file isFile =>
    have atPath := find?_some isFile
    rw [decide_eq_true_eq] at atPath
    rw [← atPath]
    exact mem_append_left _ (mem_map_of_mem (mem_of_find?_eq_some isFile))
  next =>
    split_ifs at found with isSpecial
    exact mem_append_right _ isSpecial

theorem path_of_entry {file : SeedFile}
    (found : seed.entry path = some (.file file)) : file.path = path := by
  unfold Seed.entry at found
  split at found
  next _ isFile =>
    cases found
    simpa using find?_some isFile
  next =>
    split_ifs at found
    cases found

theorem eq_of_isPrefix {upper lower : SeedPath} {above below : Entry}
    (upperFound : seed.entry upper = some above) (lowerFound : seed.entry lower = some below)
    (inside : upper <+: lower) : upper = lower :=
  seed.flat upper (mem_paths_of_entry upperFound) lower (mem_paths_of_entry lowerFound) inside

/-- The component below the directory through which the path goes. -/
def childName (directory path : SeedPath) : Option Text :=
  if directory <+: path then path[directory.length]? else none

inductive Kind
  | file
  | directory
  | special
  deriving DecidableEq

def kind (seed : Seed) (path : SeedPath) : Kind :=
  match seed.entry path with
  | some (.file _) => .file
  | some .special => .special
  | none => .directory

def readDir (seed : Seed) (directory : SeedPath) : List (Kind × SeedPath) :=
  let names := (seed.paths.filterMap (childName directory)).dedup
  (names.insertionSort fun left right => (Text.cmp left right).isLE).map fun name =>
    (seed.kind (directory ++ [name]), directory ++ [name])

theorem exists_mem_readDir {directory path : SeedPath} {entry : Entry}
    (found : seed.entry path = some entry) (inside : directory <+: path)
    (below : directory ≠ path) : ∃ child ∈ seed.readDir directory, child.2 <+: path := by
  obtain ⟨rest, rfl⟩ := inside
  cases rest with
  | nil => simp at below
  | cons name rest =>
    refine ⟨(seed.kind (directory ++ [name]), directory ++ [name]), ?_, ⟨rest, by simp⟩⟩
    refine mem_map.mpr ⟨name, ?_, rfl⟩
    rw [mem_insertionSort, mem_dedup, mem_filterMap]
    exact ⟨_, mem_paths_of_entry found, by simp [childName]⟩

end Seed

/-! ## Fingerprints -/

inductive Refusal
  | requiresDisk
  | requiresServices
  | requiresImport
  | manifestOutside
  | manifestAlias
  | overlap
  | locked
  | managed
  | mismatch
  | nonempty
  | missingDirectory (name : Text)
  | missingFile (name : Text)
  | seedChanged
  | seedSpecial (path : Text)
  | io
  deriving DecidableEq

/-- What `hash_directory` feeds to the digest before the contents of a file. -/
def hashedHeader (file : SeedFile) : List UInt8 :=
  littleEndian 8 (pathText file.path).byteLength ++
    ((pathText file.path).bytes ++ littleEndian 8 file.bytes.length)

/-- A file that is being read: as it was when it was opened, and how far it has been read. -/
structure Opened where
  file : SeedFile
  offset : Nat

/-- The state of `hash_directory`: what is still to be visited, in order, the files that were
opened, the one that is open, and the bytes that the digest was fed. -/
structure Reading where
  pending : List (Seed.Kind × SeedPath)
  seen : List SeedFile
  opened : Option Opened
  digest : List UInt8

namespace Reading

def start : Reading := ⟨[(.directory, [])], [], none, []⟩

def finished (reading : Reading) : Bool := reading.pending.isEmpty && reading.opened.isNone

theorem finished_iff {reading : Reading} :
    reading.finished = true ↔ reading.pending = [] ∧ reading.opened = none := by
  rw [finished, Bool.and_eq_true, List.isEmpty_iff, Option.isNone_iff_eq_none]

def bufferLength : Nat := 64 * 1024

/-- One `read` of the open file, as it is then; one that was removed keeps its contents. -/
def readChunk (seed : Seed) (reading : Reading) (opened : Opened) : Reading :=
  let bytes := match seed.entry opened.file.path with
    | some (.file file) => file.bytes
    | _ => opened.file.bytes
  match (bytes.drop opened.offset).take bufferLength with
  | [] => { reading with opened := none }
  | chunk => { reading with
      opened := some ⟨opened.file, opened.offset + chunk.length⟩
      digest := reading.digest ++ chunk }

/-- One turn of the loops of `hash_directory`, on the seed as it is then. -/
def visit (seed : Seed) (reading : Reading) : Except Refusal Reading :=
  match reading.opened with
  | some opened => .ok (reading.readChunk seed opened)
  | none =>
    match reading.pending with
    | [] => .ok reading
    | (.directory, path) :: pending =>
      match seed.entry path with
      | none => .ok { reading with pending := seed.readDir path ++ pending }
      | some _ => .error .io
    | (.file, path) :: pending =>
      match seed.entry path with
      | some (.file file) => .ok { reading with
          pending := pending
          seen := reading.seen ++ [file]
          opened := some ⟨file, 0⟩
          digest := reading.digest ++ hashedHeader file }
      | _ => .error .io
    | (.special, path) :: _ => .error (.seedSpecial (pathText path))

theorem readChunk_pending (seed : Seed) (reading : Reading) (opened : Opened) :
    (reading.readChunk seed opened).pending = reading.pending := by
  unfold readChunk
  dsimp only
  split <;> rfl

theorem readChunk_seen (seed : Seed) (reading : Reading) (opened : Opened) :
    (reading.readChunk seed opened).seen = reading.seen := by
  unfold readChunk
  dsimp only
  split <;> rfl

end Reading

def observed (seen : List SeedFile) (path : SeedPath) : Option Entry :=
  (seen.find? fun file => file.path = path).map .file

/-- The reading does not show the path as expected, and will not as long as the seed does
not. -/
structure Reading.Contradicts (reading : Reading) (path : SeedPath) (expected : Option Entry) :
    Prop where
  notSeen : ∀ file ∈ reading.seen, file.path = path → some (.file file) ≠ expected
  notAbsent : expected = none →
    (∃ next ∈ reading.pending, next.2 <+: path) ∨ ∃ file ∈ reading.seen, file.path = path

namespace Reading

theorem contradicts_start (path : SeedPath) (expected : Option Entry) :
    start.Contradicts path expected :=
  ⟨fun _ => nofun, fun _ => .inl ⟨_, mem_singleton_self _, nil_prefix⟩⟩

theorem Contradicts.readChunk {reading : Reading} {expected : Option Entry}
    (contradicts : reading.Contradicts path expected) (opened : Opened) :
    (reading.readChunk seed opened).Contradicts path expected := by
  constructor
  · rw [readChunk_seen]
    exact contradicts.notSeen
  · rw [readChunk_seen, readChunk_pending]
    exact contradicts.notAbsent

theorem Contradicts.visit {reading next : Reading}
    {expected : Option Entry} (contradicts : reading.Contradicts path expected)
    (differs : seed.entry path ≠ expected) (visited : reading.visit seed = .ok next) :
    next.Contradicts path expected := by
  unfold Reading.visit at visited
  split at visited
  next opened _ =>
    cases visited
    exact contradicts.readChunk opened
  next =>
    split at visited
    next =>
      cases visited
      exact contradicts
    next directory pending isPending =>
      split at visited
      next isDirectory =>
        cases visited
        refine ⟨contradicts.notSeen, fun absent => ?_⟩
        rcases contradicts.notAbsent absent with ⟨waiting, member, covers⟩ | seen
        · rw [isPending, mem_cons] at member
          rcases member with rfl | member
          · -- the directory itself led to the path: one of its entries does now
            obtain ⟨entry, found⟩ := Option.ne_none_iff_exists'.mp (absent ▸ differs)
            have below : directory ≠ path := by
              rintro rfl
              rw [isDirectory] at found
              cases found
            obtain ⟨child, listed, leads⟩ := Seed.exists_mem_readDir found covers below
            exact .inl ⟨child, mem_append_left _ listed, leads⟩
          · exact .inl ⟨waiting, mem_append_right _ member, covers⟩
        · exact .inr seen
      next => cases visited
    next place pending isPending =>
      split at visited
      next file isFile =>
        cases visited
        have atPlace := Seed.path_of_entry isFile
        constructor
        · intro other member atPath
          rcases mem_append.mp member with member | member
          · exact contradicts.notSeen other member atPath
          · obtain rfl := mem_singleton.mp member
            rw [← isFile, ← atPlace, atPath]
            exact differs
        · intro absent
          rcases contradicts.notAbsent absent with
            ⟨waiting, member, covers⟩ | ⟨other, member, atPath⟩
          · rw [isPending, mem_cons] at member
            rcases member with rfl | member
            · obtain ⟨entry, found⟩ := Option.ne_none_iff_exists'.mp (absent ▸ differs)
              have same := Seed.eq_of_isPrefix isFile found covers
              exact .inr ⟨file, mem_append_right _ (mem_singleton_self _), atPlace.trans same⟩
            · exact .inl ⟨waiting, member, covers⟩
          · exact .inr ⟨other, mem_append_left _ member, atPath⟩
      next => cases visited
    next => cases visited

theorem Contradicts.observed_ne {reading : Reading} {expected : Option Entry}
    (contradicts : reading.Contradicts path expected) (finished : reading.pending = []) :
    observed reading.seen path ≠ expected := by
  unfold observed
  cases found : reading.seen.find? fun file => file.path = path with
  | none =>
    intro absent
    rcases contradicts.notAbsent absent.symm with ⟨_, member, _⟩ | ⟨file, member, atPath⟩
    · rw [finished] at member
      cases member
    · have missing := find?_eq_none.mp found file member
      simp [atPath] at missing
  | some file =>
    exact contradicts.notSeen file (mem_of_find?_eq_some found) (by simpa using find?_some found)

end Reading

/-! ## Hashed bytes -/

def hashedBytes (file : SeedFile) : List UInt8 := hashedHeader file ++ file.bytes

def hashedSeed (seen : List SeedFile) : List UInt8 := seen.flatMap hashedBytes

theorem pathText_injective {left right : SeedFile}
    (same : pathText left.path = pathText right.path) : left.path = right.path := by
  have leftSplit : (pathText left.path).splitOn '/' = left.path :=
    splitOn_intercalate '/' left.separated left.named
  have rightSplit : (pathText right.path).splitOn '/' = right.path :=
    splitOn_intercalate '/' right.separated right.named
  rw [← leftSplit, ← rightSplit, same]

theorem append_inj_of_measured {left right leftRest rightRest : List UInt8}
    (leftShort : left.length < 2 ^ 64) (rightShort : right.length < 2 ^ 64)
    (same : littleEndian 8 left.length ++ (left ++ leftRest) =
      littleEndian 8 right.length ++ (right ++ rightRest)) :
    left = right ∧ leftRest = rightRest := by
  obtain ⟨words, bodies⟩ := append_inj same (by simp)
  have lengths := congrArg fromLittleEndian words
  rw [fromLittleEndian_littleEndian (by simpa using leftShort),
    fromLittleEndian_littleEndian (by simpa using rightShort)] at lengths
  exact append_inj bodies lengths

theorem hashedBytes_append_inj {left right : SeedFile} {leftRest rightRest : List UInt8}
    (same : hashedBytes left ++ leftRest = hashedBytes right ++ rightRest) :
    left = right ∧ leftRest = rightRest := by
  simp only [hashedBytes, hashedHeader, append_assoc] at same
  obtain ⟨names, rest⟩ := append_inj_of_measured left.shortName right.shortName same
  obtain ⟨bytes, rest⟩ := append_inj_of_measured left.shortBytes right.shortBytes rest
  have paths := pathText_injective (Text.bytes_injective names)
  refine ⟨?_, rest⟩
  cases left
  subst paths bytes
  rfl

theorem hashedBytes_ne_nil (file : SeedFile) : hashedBytes file ≠ [] := by
  intro empty
  have := congrArg length empty
  simp [hashedBytes, hashedHeader] at this

theorem hashedSeed_injective : Function.Injective hashedSeed := by
  intro left
  induction left with
  | nil =>
    intro right same
    cases right with
    | nil => rfl
    | cons file right =>
      exact absurd (append_eq_nil_iff.mp same.symm).1 (hashedBytes_ne_nil file)
  | cons file left ih =>
    intro right same
    cases right with
    | nil =>
      exact absurd (append_eq_nil_iff.mp same).1 (hashedBytes_ne_nil file)
    | cons other right =>
      obtain ⟨rfl, rest⟩ := hashedBytes_append_inj same
      rw [ih rest]

namespace Reading

/-- The digest was fed the files that were opened, each as it was then, and the one that is
open is still the same. -/
structure Tracks (entry : SeedPath → Option Entry) (reading : Reading) : Prop where
  closed : reading.opened = none → reading.digest = hashedSeed reading.seen
  stands : ∀ opened, reading.opened = some opened →
    entry opened.file.path = some (.file opened.file)
  fed : ∀ opened, reading.opened = some opened → ∃ earlier,
    reading.seen = earlier ++ [opened.file] ∧ reading.digest =
      hashedSeed earlier ++ (hashedHeader opened.file ++ opened.file.bytes.take opened.offset)

theorem tracks_start (entry : SeedPath → Option Entry) : start.Tracks entry :=
  ⟨fun _ => rfl, fun _ => nofun, fun _ => nofun⟩

theorem Tracks.of_closed {entry : SeedPath → Option Entry} {reading : Reading}
    (closed : reading.opened = none) (fed : reading.digest = hashedSeed reading.seen) :
    reading.Tracks entry := by
  refine ⟨fun _ => fed, ?_, ?_⟩ <;> intro opened isOpened <;> cases closed.symm.trans isOpened

theorem Tracks.readChunk {reading : Reading} {opened : Opened}
    (tracks : reading.Tracks seed.entry) (isOpened : reading.opened = some opened) :
    (reading.readChunk seed opened).Tracks seed.entry := by
  obtain ⟨earlier, seen, fed⟩ := tracks.fed opened isOpened
  have stands := tracks.stands opened isOpened
  unfold Reading.readChunk
  rw [stands]
  dsimp only
  split
  next ended =>
    refine .of_closed rfl ?_
    have wholly : opened.file.bytes.length ≤ opened.offset := by
      by_contra more
      have := congrArg length ended
      simp [bufferLength] at this
      omega
    change reading.digest = hashedSeed reading.seen
    rw [fed, seen, take_of_length_le wholly]
    simp [hashedSeed, hashedBytes]
  next chunk _ =>
    refine ⟨nofun, ?_, ?_⟩
    · rintro _ ⟨⟩
      exact stands
    · rintro _ ⟨⟩
      refine ⟨earlier, seen, ?_⟩
      change reading.digest ++ _ = _
      rw [fed, append_assoc, append_assoc, ← take_add, append_cancel_left_eq,
        append_cancel_left_eq, take_eq_take_iff, length_take, length_drop]
      dsimp only
      omega

theorem Tracks.visit {reading next : Reading} (tracks : reading.Tracks seed.entry)
    (visited : reading.visit seed = .ok next) : next.Tracks seed.entry := by
  unfold Reading.visit at visited
  split at visited
  next opened isOpened =>
    cases visited
    exact tracks.readChunk isOpened
  next isClosed =>
    have fed := tracks.closed isClosed
    split at visited
    next =>
      cases visited
      exact tracks
    next =>
      split at visited
      next =>
        cases visited
        exact .of_closed isClosed fed
      next => cases visited
    next =>
      split at visited
      next file isFile =>
        cases visited
        refine ⟨nofun, ?_, ?_⟩
        · rintro _ ⟨⟩
          rw [Seed.path_of_entry isFile]
          exact isFile
        · rintro _ ⟨⟩
          refine ⟨reading.seen, rfl, ?_⟩
          change reading.digest ++ _ = _
          rw [fed, take_zero, append_nil]
      next => cases visited
    next => cases visited

end Reading

end Firenook.NativeState
