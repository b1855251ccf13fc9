import Firenook.DocumentEncoding

/-!
# Field access on stored documents

A stored document carries a directory of its top-level fields in front of its
plain encoding; older stores hold the plain encoding alone.  A field lookup jumps
through the directory or walks the map entries in key order, and decodes only the
value it finds.  On both layouts the lookup agrees with the decoded document.
-/

namespace Firenook

open Decoder Std OrderedEntries Text StateT
open List (flatMap_cons length_append append_assoc length_cons forall_mem_cons foldl_cons)

variable {target : Text} {entries : List (Text × Value)} {fuel offset : Nat} {document : Document}

inductive EncodeError
  | outOfMemory
  | directory (error : DecodeError)
  deriving DecidableEq

/-- `encode_to_vec`: a vector holds fewer than `2 ^ 63` bytes. -/
def encodeToVec (encoding : List UInt8) : Except EncodeError (List UInt8) :=
  if encoding.length < 2 ^ 63 then .ok encoding else .error .outOfMemory

def directoryMarker : UInt8 := 0xFF

def consumed (total : Nat) : Decoder Nat := do
  let unread ← get
  pure (total - unread.length)

abbrev DirectoryEntry := Text × Nat × Nat

def readKey : Decoder (List UInt8) := do
  let keyLength ← decodeU64
  peekConsume keyLength

variable (bytes : List UInt8)

def keyOfBytes : Decoder Text :=
  match fromUtf8 bytes with
  | some key => pure key
  | none => throw (.other "field key is not UTF-8".toList)

def directoryEntry (total fuel : Nat) : Decoder DirectoryEntry := do
  let keyBytes ← readKey
  let key ← keyOfBytes keyBytes
  let start ← consumed total
  skipValue fuel
  let stop ← consumed total
  if start ≥ 2 ^ 32 then throw (.other "document exceeds 4 GiB".toList)
  else if stop - start ≥ 2 ^ 32 then throw (.other "field exceeds 4 GiB".toList)
  else pure (key, start, stop - start)

/-- Byte ranges of every top-level field value inside a plain document. -/
def fieldDirectory (body : List UInt8) : Except DecodeError (List DirectoryEntry) := do
  let (directory, _) ← run (do
    let entries ← decodeU64
    replicate (directoryEntry body.length body.length) entries) body
  pure directory

def encodeDirectoryEntry (entry : DirectoryEntry) : List UInt8 :=
  encodeText entry.1 ++ (encodeVarint entry.2.1 ++ encodeVarint entry.2.2)

def encodeDirectory (directory : List DirectoryEntry) : List UInt8 :=
  encodeVarint directory.length ++ directory.flatMap encodeDirectoryEntry

def encodeStoredDocument (document : Document) : Except EncodeError (List UInt8) := do
  let body ← encodeToVec (encodeDocument document)
  match fieldDirectory body with
  | .error error => throw (.directory error)
  | .ok directory => do
    let directory ← encodeToVec (encodeDirectory directory)
    encodeToVec (directoryMarker :: (directory ++ body))

def skipDirectory : Decoder Unit := do
  let entries ← decodeU64
  let _ ← replicate (do
    skipBytes
    let _ ← decodeU32
    let _ ← decodeU32
    pure ()) entries
  pure ()

def documentBody : Except DecodeError (List UInt8) :=
  if bytes.head? ≠ some directoryMarker then pure bytes
  else do
    let (_, body) ← run skipDirectory bytes.tail
    pure body

def decodeStoredDocument : Except DecodeError Document := do
  let body ← documentBody bytes
  let (document, unread) ← run (decodeDocument body.length) body
  if unread.isEmpty then pure document
  else throw (.other "trailing bytes after encoded document".toList)

/-- One step of the directory walk; the last match wins. -/
def lookupEntry (target : Text) (found : Option (Nat × Nat)) : Decoder (Option (Nat × Nat)) := do
  let key ← readKey
  let offset ← decodeU32
  let length ← decodeU32
  pure (if key = target.bytes then some (offset, length) else found)

def lookupEntries (target : Text) : Nat → Option (Nat × Nat) → Decoder (Option (Nat × Nat))
  | 0, found => pure found
  | entries + 1, found => do
    let found ← lookupEntry target found
    lookupEntries target entries found

/-- The encoded bytes of a top-level field, found through the directory. -/
def directoryLookup (target : Text) : Except DecodeError (Option (List UInt8)) := do
  let (found, body) ← run (do
    let entries ← decodeU64
    lookupEntries target entries none) bytes.tail
  match found with
  | none => pure none
  | some (offset, length) =>
    let start := bytes.length - body.length + offset
    if start ≥ 2 ^ 64 then throw (.other "directory offset overflows".toList)
    else if start + length ≥ 2 ^ 64 then throw (.other "directory length overflows".toList)
    else if offset + length ≤ body.length then pure (some ((body.drop offset).take length))
    else throw (.unexpectedEnd length)

/-- The inner loop of `find_in_map`: walks to the entry with the wanted key. -/
def seekEntry (fuel : Nat) (target : Text) : Nat → Decoder Bool
  | 0 => pure false
  | entries + 1 => do
    let key ← readKey
    match compare key target.bytes with
    | .lt => do
      skipValue fuel
      seekEntry fuel target entries
    | .eq => pure true
    | .gt => pure false

def decodeFound (fuel : Nat) : Decoder (Option Value) := do
  let value ← decodeValue fuel
  pure (some value.1)

/-- Walks map entries for `target`, descending through nested maps for the
remaining segments. -/
def findInMap (fuel : Nat) : List Text → Nat → Text → Decoder (Option Value)
  | [], entries, target => do
    if ← seekEntry fuel target entries then decodeFound fuel else pure none
  | next :: rest, entries, target => do
    if ← seekEntry fuel target entries then do
      let variant ← decodeU32
      if variant = variantMap then do
        let entries ← decodeU64
        findInMap fuel rest entries next
      else pure none
    else pure none

def findInValue (fuel : Nat) : List Text → Decoder (Option Value)
  | [] => decodeFound fuel
  | next :: rest => do
    let variant ← decodeU32
    if variant = variantMap then do
      let entries ← decodeU64
      findInMap fuel rest entries next
    else pure none

theorem findInMap_eq (fuel : Nat) (rest : List Text) (entries : Nat) (target : Text) :
    findInMap fuel rest entries target = (do
      if ← seekEntry fuel target entries then findInValue fuel rest else pure none) := by
  cases rest <;> rfl

def findField : List Text → Except DecodeError (Option Value)
  | [] => pure none
  | first :: rest =>
    if bytes.head? = some directoryMarker then do
      match ← directoryLookup bytes first with
      | none => pure none
      | some value => do
        let (found, _) ← run (findInValue value.length rest) value
        pure found
    else do
      let (found, _) ← run (do
        let entries ← decodeU64
        findInMap bytes.length rest entries first) bytes
      pure found

/-- `EncodedDocument::field`: an invalid encoding behaves as a missing field. -/
def encodedField (segments : List Text) : Option Value :=
  match findField bytes segments with
  | .ok found => found
  | .error _ => none

/-! ## Walking the entries of a map -/

theorem reads_readKey {key : Text} (bounded : (encodeText key).length < 2 ^ 64) :
    Reads readKey (encodeText key) key.bytes := by
  have := length_encodeText key
  exact (reads_decodeU64 (show key.byteLength < 2 ^ 64 by omega)).bind (reads_peekConsume rfl)

theorem OrderedEntries.get?_eq_none_of_lt {β : Type} {key : Text}
    {entries : List (Text × β)} (below : ∀ entry ∈ entries, Text.cmp key entry.1 = .lt)
    (past : Text.cmp target key = .lt) :
    get? Text.cmp target entries = none := by
  induction entries with
  | nil => rfl
  | cons entry entries ih =>
    have less := TransCmp.lt_trans past (below entry List.mem_cons_self)
    rw [get?, if_neg (by simp [less])]
    exact ih (List.forall_mem_cons.mp below).2

theorem run_seekEntry (target : Text) (ascending : Ascending cmp entries)
    (enough : (entries.flatMap encodeEntry).length ≤ fuel)
    (bounded : (entries.flatMap encodeEntry).length < 2 ^ 64) (rest : List UInt8) :
    ∃ unread, (seekEntry fuel target entries.length).run (entries.flatMap encodeEntry ++ rest) =
        .ok ((get? cmp target entries).isSome, unread) ∧
      ∀ value, get? cmp target entries = some value →
        ∃ after, unread = encodeValue value ++ after := by
  induction entries with
  | nil => exact ⟨_, rfl, by simp [get?]⟩
  | cons entry entries ih =>
    obtain ⟨key, value⟩ := entry
    obtain ⟨below, ascending⟩ := List.pairwise_cons.mp ascending
    simp only [flatMap_cons, encodeEntry, length_append] at enough bounded
    have readsKey : Reads readKey (encodeText key) key.bytes := reads_readKey (by omega)
    simp only [flatMap_cons, encodeEntry, append_assoc, length_cons, seekEntry,
      readsKey.run_bind]
    have swapped : Text.cmp target key = (compare key.bytes target.bytes).swap :=
      OrientedCmp.eq_swap
    cases order : compare key.bytes target.bytes with
    | lt =>
      have skips : Reads (skipValue fuel) (encodeValue value) () :=
        reads_skipValue value (by omega) (by omega)
      rw [get?, if_neg (by rw [swapped, order]; decide)]
      simp only [skips.run_bind]
      exact ih ascending (by omega) (by omega)
    | eq =>
      rw [get?, if_pos (by rw [swapped, order]; rfl)]
      exact ⟨_, rfl, fun found same => ⟨_, by cases same; rfl⟩⟩
    | gt =>
      rw [get?, if_neg (by rw [swapped, order]; decide),
        get?_eq_none_of_lt below (by rw [swapped, order]; rfl)]
      exact ⟨_, rfl, by simp⟩

theorem returns_findInMap {segments : List Text} (ascending : Ascending cmp entries)
    (enough : (entries.flatMap encodeEntry).length ≤ fuel)
    (bounded : (entries.flatMap encodeEntry).length < 2 ^ 64)
    (inside : ∀ value, get? cmp target entries = some value →
      Returns (findInValue fuel segments) (encodeValue value) (value.nested segments)) :
    Returns (findInMap fuel segments entries.length target) (entries.flatMap encodeEntry)
      ((get? cmp target entries).bind (·.nested segments)) := by
  intro rest
  obtain ⟨unread, sought, found⟩ := run_seekEntry target ascending enough bounded rest
  rw [findInMap_eq, run_bind, sought]
  cases member : get? cmp target entries with
  | none => exact ⟨unread, rfl⟩
  | some value =>
    obtain ⟨after, rfl⟩ := found value member
    exact inside value member after

theorem length_encodeValue_le_of_get?
    {value : Value} (found : get? cmp target entries = some value) :
    (encodeValue value).length ≤ (entries.flatMap encodeEntry).length := by
  obtain ⟨stored, member, _⟩ := get?_mem found
  have length := length_le_flatMap encodeEntry member
  simp only [encodeEntry, length_append] at length
  omega

theorem returns_findInValue (segments : List Text) {value : Value}
    (ordered : value.ordered = true) (enough : (encodeValue value).length ≤ fuel)
    (bounded : (encodeValue value).length < 2 ^ 64) :
    Returns (findInValue fuel segments) (encodeValue value) (value.nested segments) := by
  induction segments generalizing value with
  | nil =>
    exact ((reads_decodeValue value ordered enough bounded).map fun value =>
      some value.1).returns
  | cons segment segments ih =>
    cases value with
    | map entries =>
      have count := length_le_length_flatMap_encodeEntry entries
      simp only [encodeValue, encodeEntries_eq_flatMap, length_append] at enough bounded ⊢
      apply (reads_decodeU32 (by decide)).bind_returns
      apply (reads_decodeU64 (by omega)).bind_returns
      apply returns_findInMap (Value.ordered_map_iff.mp ordered).1 (by omega) (by omega)
      intro value member
      have length := length_encodeValue_le_of_get? member
      exact ih (Value.ordered_of_get? ordered member) (by omega) (by omega)
    | null =>
      rw [encodeValue, ← List.append_nil (encodeVarint variantNull)]
      exact (reads_decodeU32 (by decide)).bind_returns (returns_pure none [])
    | _ =>
      exact (reads_decodeU32 (by decide)).bind_returns (returns_pure none _)

/-! ## The plain layout -/

def encodeTimes (document : Document) : List UInt8 :=
  encodeTimestamp document.createTime ++ encodeTimestamp document.updateTime

section

variable (document : Document)

theorem encodeDocument_eq : encodeDocument document = encodeVarint document.fields.entries.length ++
      (document.fields.entries.flatMap encodeEntry ++ encodeTimes document) := by
  rw [encodeDocument, encodeFields, encodeEntries_eq_flatMap, append_assoc, encodeTimes]

theorem head?_encodeDocument : (encodeDocument document).head? ≠ some directoryMarker := by
  intro marked
  rw [encodeDocument_eq, List.head?_append_of_ne_nil _ (encodeVarint_ne_nil _)] at marked
  exact absurd (head?_encodeVarint marked) (by decide)

theorem length_flatMap_encodeEntry_le :
    (document.fields.entries.flatMap encodeEntry).length ≤ (encodeDocument document).length := by
  simp only [encodeDocument_eq, length_append]
  omega

theorem findField_plain (segments : List Text)
    (bounded : (encodeDocument document).length < 2 ^ 64) :
    findField (encodeDocument document) segments = .ok (nestedValue document.fields segments) := by
  cases segments with
  | nil => rfl
  | cons first rest =>
    have size := length_flatMap_encodeEntry_le document
    have count := length_le_length_flatMap_encodeEntry document.fields.entries
    have ordered := document.fields.ordered
    have walk : Returns
        (findInMap (encodeDocument document).length rest document.fields.entries.length first)
        (document.fields.entries.flatMap encodeEntry)
        (nestedValue document.fields (first :: rest)) := by
      apply returns_findInMap (Value.ordered_map_iff.mp ordered).1 size (by omega)
      intro value member
      have length := length_encodeValue_le_of_get? member
      exact returns_findInValue rest (Value.ordered_of_get? ordered member) (by omega) (by omega)
    have counted : Reads decodeU64 (encodeVarint document.fields.entries.length) _ :=
      reads_decodeU64 (by omega)
    have returns : Returns (do
        let entries ← decodeU64
        findInMap (encodeDocument document).length rest entries first) _ _ :=
      counted.bind_returns walk
    obtain ⟨unread, found⟩ := returns (encodeTimes document)
    rw [append_assoc, ← encodeDocument_eq] at found
    rw [findField, if_neg (head?_encodeDocument document), found]
    rfl

end

/-! ## The directory -/

def directoryOf : Nat → List (Text × Value) → List DirectoryEntry
  | _, [] => []
  | offset, entry :: entries =>
    (entry.1, offset + (encodeText entry.1).length, (encodeValue entry.2).length) ::
      directoryOf (offset + (encodeEntry entry).length) entries

/-- Offsets and lengths fit the 32-bit fields of the directory. -/
def DirectoryFits (directory : List DirectoryEntry) : Prop :=
  ∀ entry ∈ directory, entry.2.1 < 2 ^ 32 ∧ entry.2.2 < 2 ^ 32

theorem run_consumed_bind {α : Type} (total : Nat) (next : Nat → Decoder α) (unread : List UInt8) :
    (consumed total >>= next).run unread = (next (total - unread.length)).run unread :=
  rfl

theorem run_directoryEntry {total : Nat} {entry : Text × Value}
    {rest : List UInt8} {result : DirectoryEntry × List UInt8}
    (position : total = offset + (encodeEntry entry).length + rest.length)
    (bounded : total < 2 ^ 64) (enough : total ≤ fuel) :
    (directoryEntry total fuel).run (encodeEntry entry ++ rest) = .ok result ↔
      (offset + (encodeText entry.1).length < 2 ^ 32 ∧ (encodeValue entry.2).length < 2 ^ 32) ∧
        result = ((entry.1, offset + (encodeText entry.1).length, (encodeValue entry.2).length), rest) := by
  simp only [encodeEntry, length_append] at position
  have readsKey : Reads readKey (encodeText entry.1) entry.1.bytes := reads_readKey (by omega)
  have skips : Reads (skipValue fuel) (encodeValue entry.2) () :=
    reads_skipValue entry.2 (by omega) (by omega)
  rw [directoryEntry, encodeEntry, append_assoc, readsKey.run_bind, keyOfBytes,
    fromUtf8_bytes]
  simp only [pure_bind, run_consumed_bind, skips.run_bind]
  have start : total - (encodeValue entry.2 ++ rest).length = offset + (encodeText entry.1).length := by
    rw [length_append]
    omega
  have stop : total - rest.length - (offset + (encodeText entry.1).length) =
      (encodeValue entry.2).length := by
    omega
  rw [start, stop]
  split_ifs with offsetOverflows lengthOverflows
  · exact ⟨by rintro ⟨⟩, by omega⟩
  · exact ⟨by rintro ⟨⟩, by omega⟩
  · constructor
    · rintro ⟨⟩
      exact ⟨⟨by omega, by omega⟩, rfl⟩
    · rintro ⟨_, rfl⟩
      rfl

theorem run_directoryEntries {total : Nat}
    {rest : List UInt8} {result : List DirectoryEntry × List UInt8}
    (position : total = offset + (entries.flatMap encodeEntry).length + rest.length)
    (bounded : total < 2 ^ 64) (enough : total ≤ fuel) :
    (replicate (directoryEntry total fuel) entries.length).run
        (entries.flatMap encodeEntry ++ rest) = .ok result ↔
      DirectoryFits (directoryOf offset entries) ∧ result = (directoryOf offset entries, rest) := by
  induction entries generalizing offset result with
  | nil =>
    constructor
    · rintro ⟨⟩
      exact ⟨nofun, rfl⟩
    · rintro ⟨_, rfl⟩
      rfl
  | cons entry entries ih =>
    simp only [flatMap_cons, length_append] at position
    have headAt : total = offset + (encodeEntry entry).length +
        (entries.flatMap encodeEntry ++ rest).length := by
      rw [length_append]
      omega
    have tailAt : total = offset + (encodeEntry entry).length +
        (entries.flatMap encodeEntry).length + rest.length := by
      omega
    simp only [flatMap_cons, append_assoc, length_cons, replicate,
      run_bind_eq_ok, run_directoryEntry headAt bounded enough, Prod.mk.injEq]
    constructor
    · rintro ⟨_, _, ⟨fits, rfl, rfl⟩, directory, unread, tail, ⟨⟩⟩
      obtain ⟨tailFits, same⟩ := (ih tailAt).mp tail
      cases same
      exact ⟨forall_mem_cons.mpr ⟨fits, tailFits⟩, rfl⟩
    · rintro ⟨fits, rfl⟩
      obtain ⟨headFits, tailFits⟩ := forall_mem_cons.mp fits
      exact ⟨_, _, ⟨headFits, rfl, rfl⟩, _, _, (ih tailAt).mpr ⟨tailFits, rfl⟩, rfl⟩

def Document.directory (document : Document) : List DirectoryEntry :=
  directoryOf (encodeVarint document.fields.entries.length).length document.fields.entries

variable {directory : List DirectoryEntry}

theorem fieldDirectory_encodeDocument (bounded : (encodeDocument document).length < 2 ^ 64) :
    fieldDirectory (encodeDocument document) = .ok directory ↔
      DirectoryFits document.directory ∧ directory = document.directory := by
  have count := length_le_length_flatMap_encodeEntry document.fields.entries
  have size := length_flatMap_encodeEntry_le document
  have counted : Reads decodeU64 (encodeVarint document.fields.entries.length) _ :=
    reads_decodeU64 (by omega)
  have position : (encodeDocument document).length =
      (encodeVarint document.fields.entries.length).length +
        (document.fields.entries.flatMap encodeEntry).length + (encodeTimes document).length := by
    simp only [encodeDocument_eq, length_append, Nat.add_assoc]
  let entry := directoryEntry (encodeDocument document).length (encodeDocument document).length
  have run : run (do let entries ← decodeU64; replicate entry entries) (encodeDocument document) =
      run (replicate entry document.fields.entries.length)
        (document.fields.entries.flatMap encodeEntry ++ encodeTimes document) := by
    conv_lhs => arg 2; rw [encodeDocument_eq]
    exact counted.run_bind _ _
  rw [fieldDirectory, run]
  cases built : StateT.run (replicate entry document.fields.entries.length)
      (document.fields.entries.flatMap encodeEntry ++ encodeTimes document) with
  | error error =>
    refine ⟨nofun, ?_⟩
    rintro ⟨fits, rfl⟩
    rw [(run_directoryEntries position bounded le_rfl).mpr ⟨fits, rfl⟩] at built
    cases built
  | ok result =>
    obtain ⟨fits, rfl⟩ := (run_directoryEntries position bounded le_rfl).mp built
    exact ⟨by rintro ⟨⟩; exact ⟨fits, rfl⟩, by rintro ⟨_, rfl⟩; rfl⟩

theorem encodeToVec_eq_ok {encoding bytes : List UInt8} :
    encodeToVec encoding = .ok bytes ↔ encoding.length < 2 ^ 63 ∧ bytes = encoding := by
  rw [encodeToVec]
  split_ifs with small
  · rw [Except.ok.injEq, eq_comm]
    exact ⟨fun same => ⟨small, same⟩, fun both => both.2⟩
  · exact ⟨nofun, fun both => absurd both.1 small⟩

theorem encodeStoredDocument_eq_ok {stored : List UInt8} :
    encodeStoredDocument document = .ok stored ↔
      DirectoryFits document.directory ∧ stored.length < 2 ^ 63 ∧
        stored = directoryMarker ::
          (encodeDirectory document.directory ++ encodeDocument document) := by
  rw [encodeStoredDocument, bind_eq_ok]
  simp only [encodeToVec_eq_ok]
  constructor
  · rintro ⟨body, ⟨bodyFits, rfl⟩, encoded⟩
    cases built : fieldDirectory (encodeDocument document) with
    | error error =>
      rw [built] at encoded
      cases encoded
    | ok directory =>
      obtain ⟨fits, rfl⟩ := (fieldDirectory_encodeDocument (by omega)).mp built
      rw [built] at encoded
      obtain ⟨bytes, directoryOk, encoded⟩ := bind_eq_ok.mp encoded
      obtain ⟨_, rfl⟩ := encodeToVec_eq_ok.mp directoryOk
      obtain ⟨small, rfl⟩ := encodeToVec_eq_ok.mp encoded
      exact ⟨fits, small, rfl⟩
  · rintro ⟨fits, small, rfl⟩
    simp only [length_cons, length_append] at small
    refine ⟨_, ⟨by omega, rfl⟩, ?_⟩
    rw [(fieldDirectory_encodeDocument (by omega)).mpr ⟨fits, rfl⟩]
    apply bind_eq_ok.mpr
    refine ⟨_, encodeToVec_eq_ok.mpr ⟨by omega, rfl⟩, encodeToVec_eq_ok.mpr ⟨?_, rfl⟩⟩
    simpa only [length_cons, length_append] using small

theorem length_encodeVarint_le (number : Nat) : (encodeVarint number).length ≤ 9 := by
  unfold encodeVarint
  split_ifs <;> simp

theorem mem_directoryOf {entry : DirectoryEntry} (member : entry ∈ directoryOf offset entries) :
    entry.2.1 + entry.2.2 ≤ offset + (entries.flatMap encodeEntry).length := by
  induction entries generalizing offset with
  | nil => cases member
  | cons first entries ih =>
    rw [flatMap_cons, length_append, encodeEntry, length_append]
    rcases List.mem_cons.mp member with rfl | member
    · dsimp only
      omega
    · have bound := ih member
      rw [encodeEntry, length_append] at bound
      omega

theorem length_flatMap_directoryOf_le (offset : Nat) (entries : List (Text × Value)) :
    ((directoryOf offset entries).flatMap encodeDirectoryEntry).length ≤
      19 * (entries.flatMap encodeEntry).length := by
  induction entries generalizing offset with
  | nil => simp [directoryOf]
  | cons first entries ih =>
    have rest := ih (offset + (encodeEntry first).length)
    have value := length_encodeValue_pos first.2
    have start := length_encodeVarint_le (offset + (encodeText first.1).length)
    have length := length_encodeVarint_le (encodeValue first.2).length
    simp only [directoryOf, flatMap_cons, encodeDirectoryEntry, encodeEntry,
      length_append] at rest ⊢
    omega

theorem exists_encodeStoredDocument (small : (encodeDocument document).length < 2 ^ 32) :
    ∃ stored, encodeStoredDocument document = .ok stored := by
  have size := congrArg List.length (encodeDocument_eq document)
  simp only [length_append] at size
  refine ⟨_, encodeStoredDocument_eq_ok.mpr ⟨?_, ?_, rfl⟩⟩
  · intro entry member
    have bound := mem_directoryOf member
    omega
  · have count := length_encodeVarint_le document.directory.length
    have entries := length_flatMap_directoryOf_le
      (encodeVarint document.fields.entries.length).length document.fields.entries
    simp only [encodeDirectory, Document.directory, length_cons, length_append] at count ⊢
    omega

/-! ## The directory layout -/

theorem length_encodeText_le_directory {entry : DirectoryEntry} (member : entry ∈ directory) :
    (encodeText entry.1).length ≤ (directory.flatMap encodeDirectoryEntry).length := by
  have length := length_le_flatMap encodeDirectoryEntry member
  simp only [encodeDirectoryEntry, length_append] at length
  omega

theorem length_le_length_flatMap_encodeDirectoryEntry (directory : List DirectoryEntry) :
    directory.length ≤ (directory.flatMap encodeDirectoryEntry).length := by
  apply length_le_flatMap_length
  intro entry _
  have := length_encodeVarint_pos entry.2.1
  simp only [encodeDirectoryEntry, length_append]
  omega

theorem reads_skipDirectory (fits : DirectoryFits directory)
    (bounded : (encodeDirectory directory).length < 2 ^ 64) :
    Reads skipDirectory (encodeDirectory directory) () := by
  have count := length_le_length_flatMap_encodeDirectoryEntry directory
  simp only [encodeDirectory, length_append] at bounded ⊢
  refine (reads_decodeU64 (by omega)).bind (@Reads.drop _ _ _ (directory.map fun _ => ()) ?_)
  apply reads_replicate
  intro entry member
  have textLength := length_encodeText_le_directory member
  have keyLength := length_encodeText entry.1
  have skips : Reads skipBytes (encodeText entry.1) () :=
    reads_skipBytes (show entry.1.byteLength < 2 ^ 64 by omega)
  exact skips.bind ((reads_decodeU32 (fits entry member).1).bind
    (reads_decodeU32 (fits entry member).2).drop)

/-- What the directory walk finds: the last entry with the wanted key. -/
def lookupIn (directory : List DirectoryEntry) (target : Text) (found : Option (Nat × Nat)) :
    Option (Nat × Nat) :=
  directory.foldl (fun found entry => if entry.1 = target then some entry.2 else found) found

theorem reads_lookupEntries (fits : DirectoryFits directory)
    (bounded : (directory.flatMap encodeDirectoryEntry).length < 2 ^ 64) (target : Text)
    (found : Option (Nat × Nat)) :
    Reads (lookupEntries target directory.length found) (directory.flatMap encodeDirectoryEntry)
      (lookupIn directory target found) := by
  induction directory generalizing found with
  | nil => exact reads_pure found
  | cons entry directory ih =>
    obtain ⟨⟨offsetFits, lengthFits⟩, fits⟩ := forall_mem_cons.mp fits
    simp only [flatMap_cons, length_append, encodeDirectoryEntry] at bounded
    have readsEntry : Reads (lookupEntry target found) (encodeDirectoryEntry entry)
        (if entry.1 = target then some entry.2 else found) := by
      have readsKey : Reads readKey (encodeText entry.1) entry.1.bytes := reads_readKey (by omega)
      rw [← if_congr bytes_inj rfl rfl]
      exact readsKey.bind ((reads_decodeU32 offsetFits).bind
        ((reads_decodeU32 lengthFits).map fun length =>
          if entry.1.bytes = target.bytes then some (entry.2.1, length) else found))
    exact readsEntry.bind (ih fits (by omega) _)

theorem lookupIn_of_forall_ne
    (absent : ∀ entry ∈ entries, entry.1 ≠ target) (offset : Nat) (found : Option (Nat × Nat)) :
    lookupIn (directoryOf offset entries) target found = found := by
  induction entries generalizing offset with
  | nil => rfl
  | cons entry entries ih =>
    obtain ⟨headAbsent, absent⟩ := forall_mem_cons.mp absent
    rw [directoryOf, lookupIn, foldl_cons, if_neg headAbsent]
    exact ih absent _

theorem lookupIn_directoryOf (ascending : Ascending cmp entries) (target : Text) (offset : Nat) :
    match get? cmp target entries with
    | none => lookupIn (directoryOf offset entries) target none = none
    | some value => ∃ before after,
        entries.flatMap encodeEntry = before ++ (encodeValue value ++ after) ∧
        lookupIn (directoryOf offset entries) target none =
          some (offset + before.length, (encodeValue value).length) := by
  induction entries generalizing offset with
  | nil => rfl
  | cons entry entries ih =>
    obtain ⟨below, ascending⟩ := List.pairwise_cons.mp ascending
    by_cases same : entry.1 = target
    · subst same
      have later : ∀ other ∈ entries, other.1 ≠ entry.1 := by
        intro other member equal
        have less := below other member
        rw [equal, show Text.cmp entry.1 entry.1 = .eq from ReflCmp.compare_self] at less
        cases less
      rw [get?, if_pos ReflCmp.compare_self]
      refine ⟨encodeText entry.1, entries.flatMap encodeEntry, ?_, ?_⟩
      · rw [flatMap_cons, encodeEntry, append_assoc]
      · rw [directoryOf, lookupIn, foldl_cons, if_pos rfl]
        exact lookupIn_of_forall_ne later _ _
    · have differs : Text.cmp target entry.1 ≠ .eq := fun equal =>
        same (LawfulEqCmp.eq_of_compare equal).symm
      rw [get?, if_neg differs, directoryOf, lookupIn, foldl_cons, if_neg same]
      have rest := ih ascending (offset + (encodeEntry entry).length)
      rw [lookupIn] at rest
      cases found : get? cmp target entries with
      | none =>
        rw [found] at rest
        exact rest
      | some value =>
        rw [found] at rest
        obtain ⟨before, after, split, looked⟩ := rest
        refine ⟨encodeEntry entry ++ before, after, ?_, ?_⟩
        · rw [flatMap_cons, split, append_assoc]
        · rw [looked, length_append, Nat.add_assoc]

section

variable (document : Document)

theorem directoryLookup_stored (target : Text) (fits : DirectoryFits document.directory)
    (bounded : (encodeDirectory document.directory).length +
      (encodeDocument document).length < 2 ^ 63) : directoryLookup (directoryMarker ::
        (encodeDirectory document.directory ++ encodeDocument document)) target =
      .ok ((get? cmp target document.fields.entries).map encodeValue) := by
  have count := length_le_length_flatMap_encodeDirectoryEntry document.directory
  have size : (encodeDirectory document.directory).length =
      (encodeVarint document.directory.length).length +
        (document.directory.flatMap encodeDirectoryEntry).length := by
    rw [encodeDirectory, length_append]
  have counted : Reads decodeU64 (encodeVarint document.directory.length) _ :=
    reads_decodeU64 (by omega)
  have walk : Reads (do
      let entries ← decodeU64
      lookupEntries target entries none) (encodeDirectory document.directory)
      (lookupIn document.directory target none) :=
    counted.bind (reads_lookupEntries fits (by omega) target none)
  have ascending := (Value.ordered_map_iff.mp document.fields.ordered).1
  have looked := lookupIn_directoryOf ascending target
    (encodeVarint document.fields.entries.length).length
  rw [directoryLookup, List.tail_cons, walk]
  rw [← Document.directory] at looked
  cases found : get? cmp target document.fields.entries with
  | none =>
    rw [found] at looked
    simp only [looked]
    rfl
  | some value =>
    rw [found] at looked
    obtain ⟨before, after, split, looked⟩ := looked
    have layout : encodeDocument document =
        (encodeVarint document.fields.entries.length ++ before) ++
          (encodeValue value ++ (after ++ encodeTimes document)) := by
      simp only [encodeDocument_eq, split, append_assoc]
    have total := congrArg List.length layout
    simp only [length_append] at total
    have slice : ((encodeDocument document).drop
        ((encodeVarint document.fields.entries.length).length + before.length)).take
          (encodeValue value).length = encodeValue value := by
      rw [layout, ← length_append, List.drop_left, List.take_left]
    simp only [looked, length_cons, length_append]
    change (if _ then _ else _) = _
    dsimp only
    rw [if_neg (by omega), if_neg (by omega), if_pos (by omega), slice]
    rfl

theorem findField_stored (segments : List Text) (fits : DirectoryFits document.directory)
    (bounded : (encodeDirectory document.directory).length +
      (encodeDocument document).length < 2 ^ 63) : findField (directoryMarker ::
        (encodeDirectory document.directory ++ encodeDocument document)) segments =
      .ok (nestedValue document.fields segments) := by
  cases segments with
  | nil => rfl
  | cons first rest =>
    rw [findField, directoryLookup_stored document first fits bounded, nestedValue]
    cases found : get? cmp first document.fields.entries with
    | none => rfl
    | some value =>
      have length := length_encodeValue_le_of_get? found
      have size := length_flatMap_encodeEntry_le document
      obtain ⟨unread, returned⟩ := returns_findInValue rest
        (Value.ordered_of_get? document.fields.ordered found) le_rfl (by omega) []
      rw [List.append_nil] at returned
      change (run (findInValue (encodeValue value).length rest) (encodeValue value)
        >>= _) = _
      rw [returned]
      rfl

theorem documentBody_plain :
    documentBody (encodeDocument document) = .ok (encodeDocument document) := by
  rw [documentBody, if_pos (head?_encodeDocument document)]
  rfl

theorem documentBody_stored (fits : DirectoryFits document.directory)
    (bounded : (encodeDirectory document.directory).length < 2 ^ 64) :
    documentBody (directoryMarker ::
        (encodeDirectory document.directory ++ encodeDocument document)) =
      .ok (encodeDocument document) := by
  rw [documentBody, List.tail_cons, reads_skipDirectory fits bounded]
  rfl

end

theorem decodeStoredDocument_of_body {bytes : List UInt8}
    (body : documentBody bytes = .ok (encodeDocument document))
    (bounded : (encodeDocument document).length < 2 ^ 64) :
    decodeStoredDocument bytes = .ok document := by
  have reads := reads_decodeDocument le_rfl bounded []
  rw [List.append_nil] at reads
  rw [decodeStoredDocument, body]
  change (run (decodeDocument (encodeDocument document).length) (encodeDocument document)
    >>= _) = _
  rw [reads]
  rfl

def Encodes (document : Document) (bytes : List UInt8) : Prop :=
  decodeStoredDocument bytes = .ok document ∧
    ∀ segments, encodedField bytes segments = nestedValue document.fields segments

theorem encodes_of_encodeStoredDocument {stored : List UInt8}
    (encoded : encodeStoredDocument document = .ok stored) : Encodes document stored := by
  obtain ⟨fits, small, rfl⟩ := encodeStoredDocument_eq_ok.mp encoded
  simp only [length_cons, length_append] at small
  refine ⟨decodeStoredDocument_of_body
    (documentBody_stored document fits (by omega)) (by omega), fun segments => ?_⟩
  rw [encodedField, findField_stored document segments fits (by omega)]

/-- Reading a field of a stored document gives what the decoded document has there,
and decoding gives the document back, in the directory layout and in the plain
one. -/
theorem encodedField_eq_nestedValue (document : Document) (stored : List UInt8)
    (encoded : encodeStoredDocument document = .ok stored ∨
      encodeToVec (encodeDocument document) = .ok stored) :
    decodeStoredDocument stored = .ok document ∧
      ∀ segments, encodedField stored segments = nestedValue document.fields segments := by
  rcases encoded with encoded | encoded
  · exact encodes_of_encodeStoredDocument encoded
  · obtain ⟨small, rfl⟩ := encodeToVec_eq_ok.mp encoded
    refine ⟨decodeStoredDocument_of_body (documentBody_plain document) (by omega),
      fun segments => ?_⟩
    rw [encodedField, findField_plain document segments (by omega)]

def Sample.nestedDocument : Document where
  fields := ⟨[("a".toList, .map [("b".toList, .integer 1)])], by decide⟩
  createTime := .epoch
  updateTime := .epoch

theorem encodedField_eq_nestedValue_sample :
    ∃ stored, encodeStoredDocument Sample.nestedDocument = .ok stored ∧
      decodeStoredDocument stored = .ok Sample.nestedDocument ∧
      encodedField stored ["a".toList, "b".toList] = some (.integer 1) := by
  refine ⟨_, rfl, ?_⟩
  have result := encodedField_eq_nestedValue Sample.nestedDocument _ (.inl rfl)
  exact ⟨result.1, (result.2 _).trans rfl⟩

end Firenook
