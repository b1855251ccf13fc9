import Firenook.DiskTables

/-!
# The write-ahead journal

Every commit is appended to the journal as a frame: a magic word, the length and the
checksum of the payload, and the encoded record.  A process that dies while it
appends leaves a frame cut short, which the reader drops.  The checksum is a
parameter; nothing depends on which function it is.
-/

namespace Firenook

open Decoder List

/-! ## Records -/

variable {fuel : Nat}

def encodeKey (key : DocumentKey) : List UInt8 :=
  encodeText key.database.projectId ++ (encodeText key.database.databaseId ++ encodeText key.path)

def encodeOptionDocument : Option Document → List UInt8
  | none => [0]
  | some document => 1 :: encodeDocument document

def encodeMutation (mutation : PersistedMutation) : List UInt8 :=
  encodeKey mutation.key ++ encodeOptionDocument mutation.document

def encodeRecord (record : WalRecord) : List UInt8 :=
  encodeVarint record.revision ++ (encodeTimestamp record.commitTime ++
    (encodeVarint record.mutations.length ++ record.mutations.flatMap encodeMutation))

/-- The derived decoder takes any three strings; keys in the journal were written from
validated ones. -/
def keyOfParts (projectId databaseId path : Text) : Decoder DocumentKey :=
  match DatabaseName.new projectId databaseId with
  | .error error => throw (.other error.message)
  | .ok database =>
    match DocumentKey.new database path with
    | .error error => throw (.other error.message)
    | .ok key => pure key

def decodeKey : Decoder DocumentKey := do
  let projectId ← decodeText
  let databaseId ← decodeText
  let path ← decodeText
  keyOfParts projectId databaseId path

def decodeOptionDocument (fuel : Nat) : Decoder (Option Document) := do
  let variant ← readWord 1
  if variant = 0 then pure none
  else if variant = 1 then do
    let document ← decodeDocument fuel
    pure (some document)
  else throw (.other "unexpected variant".toList)

def decodeMutation (fuel : Nat) : Decoder PersistedMutation := do
  let key ← decodeKey
  let document ← decodeOptionDocument fuel
  pure ⟨key, document⟩

def decodeRecord (fuel : Nat) : Decoder WalRecord := do
  let revision ← decodeU64
  let commitTime ← decodeTimestamp
  let count ← decodeU64
  let mutations ← replicate (decodeMutation fuel) count
  pure ⟨revision, commitTime, mutations⟩

/-! ## Frames -/

def frameMagic : List UInt8 := [0x46, 0x53, 0x57, 0x41, 0x4C, 0x30, 0x30, 0x31]

def frameHeaderLen : Nat := 16

def maxWalRecordBytes : Nat := 64 * 1024 * 1024

def castagnoliByte (crc : UInt32) (byte : UInt8) : UInt32 :=
  (range 8).foldl (fun crc _ =>
    if crc &&& 1 = 1 then (crc >>> 1) ^^^ 0x82F63B78 else crc >>> 1) (crc ^^^ byte.toUInt32)

def castagnoli (bytes : List UInt8) : UInt32 := bytes.foldl castagnoliByte 0xFFFFFFFF ^^^ 0xFFFFFFFF

example : castagnoli (Text.bytes "123456789".toList) = 0xE3069283 := by decide +kernel

variable (crc32c : List UInt8 → UInt32)

def frame (payload : List UInt8) : List UInt8 :=
  frameMagic ++ (littleEndian 4 payload.length ++
    (littleEndian 4 (crc32c payload).toNat ++ payload))

def appendRecord (journal : List UInt8) (record : WalRecord) : Except DiskError (List UInt8) :=
  let payload := encodeRecord record
  if payload.length > maxWalRecordBytes then
    throw (.recordTooLarge payload.length maxWalRecordBytes)
  else pure (journal ++ frame crc32c payload)

/-- The records of a journal and the length of the frames they came from.  Every frame
takes bytes, so the length of the file bounds the rounds. -/
def readRecordsFrom : Nat → List UInt8 → Except DiskError (List WalRecord × Nat)
  | 0, _ => pure ([], 0)
  | rounds + 1, bytes =>
    -- a header cut short ends the journal, and so does the end of the file
    if bytes.length < frameHeaderLen then pure ([], 0)
    else if bytes.take 8 ≠ frameMagic then
      throw (.corrupt "invalid journal frame magic".toList)
    else
      let length := fromLittleEndian ((bytes.drop 8).take 4)
      let expectedCrc := fromLittleEndian ((bytes.drop 12).take 4)
      let rest := bytes.drop frameHeaderLen
      if length > maxWalRecordBytes then
        throw (.corrupt ("journal frame length ".toList ++ (toString length).toList ++
          " exceeds ".toList ++ (toString maxWalRecordBytes).toList))
      else if rest.length < length then pure ([], 0)
      else if (crc32c (rest.take length)).toNat ≠ expectedCrc then
        throw (.corrupt "journal frame checksum mismatch".toList)
      else do
        let record ← decodeWhole (decodeRecord length) (rest.take length)
        let (records, validLen) ← readRecordsFrom rounds (rest.drop length)
        pure (record :: records, frameHeaderLen + length + validLen)

def readRecords (journal : List UInt8) : Except DiskError (List WalRecord × Nat) :=
  readRecordsFrom crc32c (journal.length + 1) journal

/-! ## Reading records back -/

theorem reads_keyOfParts (key : DocumentKey) :
    Reads (keyOfParts key.database.projectId key.database.databaseId key.path) [] key := by
  rw [keyOfParts, DatabaseName.new_ids]
  simp only [DocumentKey.new_path]
  exact reads_pure key

theorem reads_decodeKey {key : DocumentKey} (bounded : (encodeKey key).length < 2 ^ 64) :
    Reads decodeKey (encodeKey key) key := by
  have project := length_encodeText key.database.projectId
  have database := length_encodeText key.database.databaseId
  have path := length_encodeText key.path
  simp only [encodeKey, length_append] at bounded
  have last := (reads_decodeText (show key.path.byteLength < 2 ^ 64 by omega)).bind
    (reads_keyOfParts key)
  rw [append_nil] at last
  exact (reads_decodeText (by omega)).bind ((reads_decodeText (by omega)).bind last)

theorem reads_decodeOptionDocument {document : Option Document}
    (enough : (encodeOptionDocument document).length ≤ fuel)
    (bounded : (encodeOptionDocument document).length < 2 ^ 64) :
    Reads (decodeOptionDocument fuel) (encodeOptionDocument document) document := by
  cases document with
  | none =>
    intro rest
    rfl
  | some document =>
    simp only [encodeOptionDocument, length_cons] at enough bounded
    have first : Reads (readWord 1) [1] 1 := fun rest => rfl
    exact first.bind ((reads_decodeDocument (by omega) (by omega)).map some)

theorem reads_decodeMutation {mutation : PersistedMutation}
    (enough : (encodeMutation mutation).length ≤ fuel)
    (bounded : (encodeMutation mutation).length < 2 ^ 64) :
    Reads (decodeMutation fuel) (encodeMutation mutation) mutation := by
  simp only [encodeMutation, length_append] at enough bounded
  exact (reads_decodeKey (by omega)).bind
    ((reads_decodeOptionDocument (by omega) (by omega)).map fun document =>
      (⟨mutation.key, document⟩ : PersistedMutation))

variable {record : WalRecord}

theorem reads_decodeRecord (revision : record.revision < 2 ^ 64)
    (enough : (encodeRecord record).length ≤ fuel)
    (bounded : (encodeRecord record).length < 2 ^ 64) :
    Reads (decodeRecord fuel) (encodeRecord record) record := by
  simp only [encodeRecord, length_append] at enough bounded
  have count : record.mutations.length ≤ (record.mutations.flatMap encodeMutation).length := by
    apply length_le_flatMap_length
    intro mutation _
    simp only [encodeMutation, encodeOptionDocument]
    cases mutation.document <;> simp
  have mutations : Reads (replicate (decodeMutation fuel) record.mutations.length)
      (record.mutations.flatMap encodeMutation) (record.mutations.map id) := by
    apply reads_replicate
    intro mutation member
    have length := length_le_flatMap encodeMutation member
    exact reads_decodeMutation (by omega) (by omega)
  rw [map_id] at mutations
  exact (reads_decodeU64 revision).bind ((reads_decodeTimestamp record.commitTime).bind
    ((reads_decodeU64 (by omega)).bind (mutations.map fun mutations =>
      (⟨record.revision, record.commitTime, mutations⟩ : WalRecord))))

theorem decodeWhole_of_reads {α : Type} {decoder : Decoder α} {encoding : List UInt8} {value : α}
    (reads : Reads decoder encoding value) : decodeWhole decoder encoding = .ok value := by
  have run := reads []
  rw [append_nil] at run
  rw [decodeWhole, run]
  rfl

/-! ## Reading frames back -/

def Framable (record : WalRecord) : Prop :=
  record.revision < 2 ^ 64 ∧ (encodeRecord record).length ≤ maxWalRecordBytes

def frames (records : List WalRecord) : List UInt8 :=
  records.flatMap fun record => frame crc32c (encodeRecord record)

/-- What an append leaves behind that was cut short: nothing, or a part of a frame. -/
def Torn (bytes : List UInt8) : Prop :=
  bytes = [] ∨ ∃ record missing, Framable record ∧ missing ≠ [] ∧
    frame crc32c (encodeRecord record) = bytes ++ missing

section

variable {crc32c : List UInt8 → UInt32} {bytes : List UInt8} {records : List WalRecord}

def frameHeader (crc32c : List UInt8 → UInt32) (payload : List UInt8) : List UInt8 :=
  frameMagic ++ (littleEndian 4 payload.length ++ littleEndian 4 (crc32c payload).toNat)

variable (payload : List UInt8)

theorem frame_eq : frame crc32c payload = frameHeader crc32c payload ++ payload := by
  simp [frame, frameHeader]

theorem length_frameHeader : (frameHeader crc32c payload).length = frameHeaderLen := by
  simp [frameHeader, frameMagic, frameHeaderLen]

theorem length_frame : (frame crc32c payload).length = frameHeaderLen + payload.length := by
  rw [frame_eq, length_append, length_frameHeader]

def frameLength (bytes : List UInt8) : Nat := fromLittleEndian ((bytes.drop 8).take 4)

def frameChecksum (bytes : List UInt8) : Nat := fromLittleEndian ((bytes.drop 12).take 4)

variable (payload rest : List UInt8)

theorem take_frameHeader : (frameHeader crc32c payload ++ rest).take 8 = frameMagic := by
  rw [frameHeader, append_assoc]
  exact take_left' rfl

theorem drop_frameHeader :
    (frameHeader crc32c payload ++ rest).drop 8 =
      littleEndian 4 payload.length ++ (littleEndian 4 (crc32c payload).toNat ++ rest) := by
  rw [frameHeader, append_assoc]
  exact drop_left' rfl

theorem frameLength_frameHeader {payload : List UInt8}
    (small : payload.length ≤ maxWalRecordBytes) (rest : List UInt8) :
    frameLength (frameHeader crc32c payload ++ rest) = payload.length := by
  rw [frameLength, drop_frameHeader, take_left' (length_littleEndian 4 _)]
  exact fromLittleEndian_littleEndian (by rw [maxWalRecordBytes] at small; omega)

theorem frameChecksum_frameHeader :
    frameChecksum (frameHeader crc32c payload ++ rest) = (crc32c payload).toNat := by
  rw [frameChecksum, show 12 = 8 + 4 from rfl, ← drop_drop, drop_frameHeader,
    drop_left' (length_littleEndian 4 _), take_left' (length_littleEndian 4 _)]
  exact fromLittleEndian_littleEndian (crc32c payload).toNat_lt

theorem readRecordsFrom_succ (complete : frameHeaderLen ≤ bytes.length)
    (magic : bytes.take 8 = frameMagic) (small : frameLength bytes ≤ maxWalRecordBytes)
    (rounds : Nat) :
    readRecordsFrom crc32c (rounds + 1) bytes =
      let rest := bytes.drop frameHeaderLen
      if rest.length < frameLength bytes then pure ([], 0)
      else if (crc32c (rest.take (frameLength bytes))).toNat ≠ frameChecksum bytes then
        throw (.corrupt "journal frame checksum mismatch".toList)
      else (do
        let record ← decodeWhole (decodeRecord (frameLength bytes)) (rest.take (frameLength bytes))
        let (records, validLen) ← readRecordsFrom crc32c rounds (rest.drop (frameLength bytes))
        pure (record :: records, frameHeaderLen + frameLength bytes + validLen)) := by
  rw [readRecordsFrom, if_neg (by omega), if_neg (by simp [magic])]
  exact if_neg (by rw [frameLength] at small; omega)

theorem readRecordsFrom_frame (framable : Framable record) (rounds : Nat) (more : List UInt8) :
    readRecordsFrom crc32c (rounds + 1) (frame crc32c (encodeRecord record) ++ more) =
      (readRecordsFrom crc32c rounds more).map fun outcome =>
        (record :: outcome.1, (frame crc32c (encodeRecord record)).length + outcome.2) := by
  have bounded : (encodeRecord record).length < 2 ^ 64 := by
    have small := framable.2
    rw [maxWalRecordBytes] at small
    omega
  have decodes := decodeWhole_of_reads (reads_decodeRecord framable.1 le_rfl bounded)
  have complete : frameHeaderLen ≤
      (frameHeader crc32c (encodeRecord record) ++ (encodeRecord record ++ more)).length := by
    rw [length_append, length_frameHeader]
    omega
  have body : (frameHeader crc32c (encodeRecord record) ++ (encodeRecord record ++ more)).drop
      frameHeaderLen = encodeRecord record ++ more :=
    drop_left' (length_frameHeader _)
  have length := @frameLength_frameHeader crc32c _ framable.2 (encodeRecord record ++ more)
  rw [length_frame, frame_eq, append_assoc,
    readRecordsFrom_succ complete (take_frameHeader _ _) (length.trans_le framable.2)]
  simp only [length, body, frameChecksum_frameHeader, take_left, drop_left, decodes]
  rw [if_neg (by simp), if_neg (by simp)]
  rfl

theorem readRecordsFrom_append
    (framable : ∀ record ∈ records, Framable record) (rounds : Nat) (tail : List UInt8) :
    readRecordsFrom crc32c (rounds + records.length) (frames crc32c records ++ tail) =
      (readRecordsFrom crc32c rounds tail).map fun outcome =>
        (records ++ outcome.1, (frames crc32c records).length + outcome.2) := by
  induction records with
  | nil =>
    change readRecordsFrom crc32c rounds tail = _
    cases readRecordsFrom crc32c rounds tail with
    | error error => rfl
    | ok outcome => simp [Except.map, frames]
  | cons record records ih =>
    rw [forall_mem_cons] at framable
    have split : frames crc32c (record :: records) ++ tail =
        frame crc32c (encodeRecord record) ++ (frames crc32c records ++ tail) := by
      simp [frames]
    rw [split, length_cons, ← Nat.add_assoc, readRecordsFrom_frame framable.1, ih framable.2]
    cases readRecordsFrom crc32c rounds tail with
    | error error => rfl
    | ok outcome => simp [Except.map, frames, Nat.add_assoc]

theorem length_le_length_frames (records : List WalRecord) :
    records.length ≤ (frames crc32c records).length := by
  apply length_le_flatMap_length
  intro record _
  rw [length_frame, frameHeaderLen]
  omega

theorem readRecords_append (framable : ∀ record ∈ records, Framable record) (tail : List UInt8) :
    ∃ rounds, readRecords crc32c (frames crc32c records ++ tail) =
      (readRecordsFrom crc32c (rounds + 1) tail).map fun outcome =>
        (records ++ outcome.1, (frames crc32c records).length + outcome.2) := by
  have count := @length_le_length_frames crc32c records
  have enough : (frames crc32c records ++ tail).length + 1 =
      ((frames crc32c records ++ tail).length - records.length) + 1 + records.length := by
    rw [length_append]
    omega
  refine ⟨(frames crc32c records ++ tail).length - records.length, ?_⟩
  rw [readRecords, enough, readRecordsFrom_append framable]

/-- Bytes that the reader takes for the end of the journal: a header cut short, or a sound
header with a payload cut short. -/
def EndsEarly (bytes : List UInt8) : Prop :=
  bytes.length < frameHeaderLen ∨
    bytes.take 8 = frameMagic ∧ frameLength bytes ≤ maxWalRecordBytes ∧
      (bytes.drop frameHeaderLen).length < frameLength bytes

instance decidableEndsEarly (bytes : List UInt8) : Decidable (EndsEarly bytes) :=
  inferInstanceAs (Decidable (_ ∨ _ ∧ _ ∧ _))

theorem readRecordsFrom_endsEarly (ends : EndsEarly bytes) (rounds : Nat) :
    readRecordsFrom crc32c rounds bytes = .ok ([], 0) := by
  cases rounds with
  | zero => rfl
  | succ rounds =>
    by_cases short : bytes.length < frameHeaderLen
    · rw [readRecordsFrom, if_pos short]
      rfl
    · obtain ⟨magic, small, cut⟩ := ends.resolve_left short
      rw [readRecordsFrom_succ (by omega) magic small]
      exact if_pos cut

theorem endsEarly_of_torn (torn : Torn crc32c bytes) : EndsEarly bytes := by
  rcases torn with rfl | ⟨record, missing, framable, missingSome, split⟩
  · exact .inl (by decide)
  · have missingLength := length_pos_iff.mpr missingSome
    have length := congrArg length split
    rw [length_frame, length_append] at length
    by_cases short : bytes.length < frameHeaderLen
    · exact .inl short
    · -- the header is complete and the payload is cut short
      obtain ⟨part, rfl⟩ : ∃ part, bytes = frameHeader crc32c (encodeRecord record) ++ part := by
        rw [frame_eq] at split
        rcases append_eq_append_iff.mp split with ⟨part, same, _⟩ | ⟨part, same, _⟩
        · exact ⟨part, same⟩
        · have shorter := congrArg List.length same
          rw [length_frameHeader, length_append] at shorter
          have none : part = [] := length_eq_zero_iff.mp (by omega)
          exact ⟨[], by rw [same, none, append_nil, append_nil]⟩
      rw [length_append, length_frameHeader] at length
      refine .inr ⟨take_frameHeader _ _, ?_, ?_⟩
      · rw [frameLength_frameHeader framable.2]
        exact framable.2
      · rw [frameLength_frameHeader framable.2, drop_left' (length_frameHeader _)]
        omega

/-- The reader finds every complete frame and stops at a torn one. -/
theorem readRecords_frames (framable : ∀ record ∈ records, Framable record) {torn : List UInt8}
    (isTorn : Torn crc32c torn) :
    readRecords crc32c (frames crc32c records ++ torn) =
      .ok (records, (frames crc32c records).length) := by
  obtain ⟨rounds, read⟩ := readRecords_append framable torn
  rw [read, readRecordsFrom_endsEarly (endsEarly_of_torn isTorn)]
  simp [Except.map]

theorem appendRecord_eq_ok {journal next : List UInt8} :
    appendRecord crc32c journal record = .ok next ↔
      (encodeRecord record).length ≤ maxWalRecordBytes ∧
        next = journal ++ frame crc32c (encodeRecord record) := by
  rw [appendRecord]
  split_ifs with large
  · exact ⟨nofun, fun both => absurd both.1 (by omega)⟩
  · constructor
    · intro appended
      cases appended
      exact ⟨by omega, rfl⟩
    · rintro ⟨_, rfl⟩
      rfl

end

end Firenook
