import Firenook.Journal

/-!
# Export logs

The documents of an export are the records of a LevelDB log.  The log is written in blocks;
a record is split into fragments that do not cross the end of a block, and an end of a block
that is too short for a header is filled with zeros.  The checksum is a parameter.
-/

namespace Firenook.ExportLog

open List

def blockBytes : Nat := 32 * 1024

def headerBytes : Nat := 7

inductive FragmentKind
  | full
  | first
  | middle
  | last

def FragmentKind.code : FragmentKind → UInt8
  | .full => 1
  | .first => 2
  | .middle => 3
  | .last => 4

def FragmentKind.tryFrom : UInt8 → Option FragmentKind
  | 1 => some .full
  | 2 => some .first
  | 3 => some .middle
  | 4 => some .last
  | _ => none

structure PhysicalFragment where
  kind : FragmentKind
  payload : List UInt8

inductive LogError
  | truncatedHeader (offset : Nat)
  | truncatedPayload (offset : Nat)
  | invalidFragmentType (value : UInt8) (offset : Nat)
  | checksumMismatch (offset expected actual : Nat)
  | invalidSequence (message : Text)
  | incompleteRecord
  | recordTooLarge (maximum : Nat)

variable (crc32c : List UInt8 → UInt32)

def maskedCrc (kind : FragmentKind) (payload : List UInt8) : UInt32 :=
  let crc := crc32c (kind.code :: payload)
  (crc >>> 15 ||| crc <<< 17) + 0xa282ead8

/-! ## Writing -/

/-- The header and the payload; a fragment fits a block, so 16 bits hold its length. -/
def PhysicalFragment.bytes (fragment : PhysicalFragment) : List UInt8 :=
  littleEndian 4 (maskedCrc crc32c fragment.kind fragment.payload).toNat ++
    (littleEndian 2 fragment.payload.length ++ fragment.kind.code :: fragment.payload)

/-- The zeros in front of the next header.  The position in the block is what has been written,
modulo the size of a block. -/
def padding (offset : Nat) : Nat :=
  if blockBytes - offset % blockBytes < headerBytes then blockBytes - offset % blockBytes else 0

def capacity (offset : Nat) : Nat :=
  blockBytes - (offset + padding offset) % blockBytes - headerBytes

/-- A fragment as it is written after so many bytes. -/
def PhysicalFragment.framed (offset : Nat) (fragment : PhysicalFragment) : List UInt8 :=
  replicate (padding offset) 0 ++ fragment.bytes crc32c

def fragmentKind : Bool → Bool → FragmentKind
  | true, true => .full
  | true, false => .first
  | false, false => .middle
  | false, true => .last

theorem length_bytes (fragment : PhysicalFragment) :
    (fragment.bytes crc32c).length = headerBytes + fragment.payload.length := by
  simp [PhysicalFragment.bytes, headerBytes]
  omega

theorem length_framed (offset : Nat) (fragment : PhysicalFragment) :
    (fragment.framed crc32c offset).length =
      padding offset + headerBytes + fragment.payload.length := by
  rw [PhysicalFragment.framed, length_append, length_replicate, length_bytes, Nat.add_assoc]

theorem padding_cases (offset : Nat) :
    padding offset = 0 ∧ offset % blockBytes + headerBytes ≤ blockBytes ∨
      padding offset < headerBytes ∧ padding offset = blockBytes - offset % blockBytes := by
  rw [padding]
  split_ifs with short
  · exact .inr ⟨short, rfl⟩
  · simp only [blockBytes, headerBytes, true_and] at short ⊢
    omega

theorem capacity_of_full (offset : Nat) :
    0 < capacity (offset + (padding offset + headerBytes + capacity offset)) := by
  have first := padding_cases offset
  have second := padding_cases (offset + (padding offset + headerBytes + capacity offset))
  simp only [capacity, blockBytes, headerBytes] at *
  omega

/-- The loop of `write_record`. -/
def writeRecord (offset : Nat) (first : Bool) (record : List UInt8) : List UInt8 :=
  if record.length ≤ capacity offset then
    PhysicalFragment.framed crc32c offset ⟨fragmentKind first true, record⟩
  else
    PhysicalFragment.framed crc32c offset
        ⟨fragmentKind first false, record.take (capacity offset)⟩ ++
      writeRecord (offset + (padding offset + headerBytes + capacity offset)) false
        (record.drop (capacity offset))
termination_by record.length + (1 - capacity offset)
decreasing_by
  have progress := capacity_of_full offset
  rw [length_drop]
  omega

def writeRecords : Nat → List (List UInt8) → List UInt8
  | _, [] => []
  | offset, record :: records =>
    let bytes := writeRecord crc32c offset true record
    bytes ++ writeRecords (offset + bytes.length) records

/-! ## Reading -/

/-- The fragment in front of the rest of a block, which may be filler only. -/
def fragmentAt (offset : Nat) : List UInt8 → Except LogError (Option PhysicalFragment)
  | c₀ :: c₁ :: c₂ :: c₃ :: l₀ :: l₁ :: code :: body =>
    let checksum := fromLittleEndian [c₀, c₁, c₂, c₃]
    let length := fromLittleEndian [l₀, l₁]
    if checksum = 0 ∧ length = 0 ∧ code = 0 then
      if body.any (· ≠ 0) then .error (.invalidFragmentType 0 offset) else .ok none
    else if body.length < length then .error (.truncatedPayload offset)
    else
      match FragmentKind.tryFrom code with
      | none => .error (.invalidFragmentType code offset)
      | some kind =>
        let actual := maskedCrc crc32c kind (body.take length)
        if actual.toNat ≠ checksum then .error (.checksumMismatch offset checksum actual.toNat)
        else .ok (some ⟨kind, body.take length⟩)
  | rest => if rest.any (· ≠ 0) then .error (.truncatedHeader offset) else .ok none

/-- What has not been read, how much was read, and the record that is being assembled. -/
structure LogReader where
  input : List UInt8
  offset : Nat
  assembly : Option (List UInt8)

namespace LogReader

def new (input : List UInt8) : LogReader := ⟨input, 0, none⟩

/-- What is left of the block that the reader is in. -/
def block (reader : LogReader) : List UInt8 :=
  reader.input.take (blockBytes - reader.offset % blockBytes)

def advance (reader : LogReader) (bytes : Nat) : LogReader :=
  { reader with input := reader.input.drop bytes, offset := reader.offset + bytes }

theorem length_advance {reader : LogReader} (left : reader.input ≠ []) {bytes : Nat}
    (positive : 0 < bytes) : (reader.advance bytes).input.length < reader.input.length := by
  have length := length_pos_iff.mpr left
  rw [advance, length_drop]
  omega

theorem length_block_pos {reader : LogReader} (left : reader.input ≠ []) :
    0 < reader.block.length := by
  have length := length_pos_iff.mpr left
  rw [block, length_take, blockBytes]
  omega

def nextFragment (reader : LogReader) :
    Except LogError (Option (PhysicalFragment × LogReader)) :=
  if left : reader.input = [] then .ok none
  else
    match fragmentAt crc32c reader.offset reader.block with
    | .error error => .error error
    | .ok none => (reader.advance reader.block.length).nextFragment
    | .ok (some fragment) =>
      .ok (some (fragment, reader.advance (headerBytes + fragment.payload.length)))
termination_by reader.input.length
decreasing_by exact length_advance left (length_block_pos left)

theorem length_nextFragment {reader next : LogReader} {fragment : PhysicalFragment}
    (found : reader.nextFragment crc32c = .ok (some (fragment, next))) :
    next.input.length < reader.input.length := by
  revert found
  fun_induction nextFragment crc32c reader with
  | case1 => rintro ⟨⟩
  | case2 => rintro ⟨⟩
  | case3 reader left filler ih =>
    exact fun found => (ih found).trans (length_advance left (length_block_pos left))
  | case4 reader left fragment parsed =>
    rintro ⟨⟩
    exact length_advance left (by simp [headerBytes])

variable (maximum : Nat)

def checkRecordSize (record : List UInt8) (complete : Bool) :
    Except LogError (List UInt8 × Bool) :=
  if record.length > maximum then .error (.recordTooLarge maximum) else .ok (record, complete)

/-- What a fragment adds to the record that is being assembled, and whether it completes it. -/
def appendFragment (fragment : PhysicalFragment) :
    Option (List UInt8) → Except LogError (List UInt8 × Bool)
  | none =>
    match fragment.kind with
    | .full => checkRecordSize maximum fragment.payload true
    | .first => checkRecordSize maximum fragment.payload false
    | .middle => .error (.invalidSequence "MIDDLE without FIRST".toList)
    | .last => .error (.invalidSequence "LAST without FIRST".toList)
  | some current =>
    match fragment.kind with
    | .full => .error (.invalidSequence "FULL fragment interrupted an assembled record".toList)
    | .first => .error (.invalidSequence "FIRST fragment interrupted an assembled record".toList)
    | .middle => checkRecordSize maximum (current ++ fragment.payload) false
    | .last => checkRecordSize maximum (current ++ fragment.payload) true

def nextRecord (reader : LogReader) : Except LogError (Option (List UInt8 × LogReader)) :=
  match found : reader.nextFragment crc32c with
  | .error error => .error error
  | .ok none => if reader.assembly.isSome then .error .incompleteRecord else .ok none
  | .ok (some (fragment, next)) =>
    match appendFragment maximum fragment reader.assembly with
    | .error error => .error error
    | .ok (record, true) => .ok (some (record, { next with assembly := none }))
    | .ok (record, false) => nextRecord { next with assembly := some record }
termination_by reader.input.length
decreasing_by exact length_nextFragment crc32c found

/-! ## Round trip -/

variable {crc32c} {maximum} {offset : Nat} {more : List UInt8} {fragment : PhysicalFragment}
  {assembly : Option (List UInt8)}

theorem fragmentAt_filler {count : Nat} (short : count < headerBytes) :
    fragmentAt crc32c offset (replicate count 0) = .ok none := by
  change count < 7 at short
  interval_cases count <;> rfl

theorem tryFrom_code (kind : FragmentKind) : FragmentKind.tryFrom kind.code = some kind := by
  cases kind <;> rfl

theorem code_ne_zero (kind : FragmentKind) : kind.code ≠ 0 := by
  cases kind <;> decide

theorem fragmentAt_bytes (short : fragment.payload.length < 2 ^ 16) :
    fragmentAt crc32c offset (fragment.bytes crc32c ++ more) = .ok (some fragment) := by
  have checksum := fromLittleEndian_littleEndian
    (show (maskedCrc crc32c fragment.kind fragment.payload).toNat < 256 ^ 4 from
      UInt32.toNat_lt _)
  have length := fromLittleEndian_littleEndian (show fragment.payload.length < 256 ^ 2 from short)
  simp only [littleEndian] at checksum length
  simp [PhysicalFragment.bytes, littleEndian, fragmentAt, checksum, length, code_ne_zero,
    tryFrom_code]

theorem nextFragment_bytes
    (fits : offset % blockBytes + headerBytes + fragment.payload.length ≤ blockBytes) :
    nextFragment crc32c ⟨fragment.bytes crc32c ++ more, offset, assembly⟩ =
      .ok (some (fragment, ⟨more, offset + (headerBytes + fragment.payload.length), assembly⟩)) := by
  have length := length_bytes crc32c fragment
  have nonempty : fragment.bytes crc32c ++ more ≠ [] := by
    simp [← length_pos_iff, length, headerBytes]
  have short : fragment.payload.length < 2 ^ 16 := by
    simp only [blockBytes] at fits
    omega
  have split : blockBytes - offset % blockBytes = (fragment.bytes crc32c).length +
      (blockBytes - (offset % blockBytes + headerBytes + fragment.payload.length)) := by omega
  rw [nextFragment, dif_neg nonempty]
  simp only [block, split, take_length_add_append, fragmentAt_bytes short, advance, ← length,
    drop_left]

theorem nextFragment_framed (fits : fragment.payload.length ≤ capacity offset) :
    nextFragment crc32c ⟨fragment.framed crc32c offset ++ more, offset, assembly⟩ =
      .ok (some (fragment, ⟨more, offset +
        (padding offset + headerBytes + fragment.payload.length), assembly⟩)) := by
  have room : (offset + padding offset) % blockBytes + headerBytes + fragment.payload.length ≤
      blockBytes := by
    have cases := padding_cases offset
    simp only [capacity, blockBytes, headerBytes] at *
    omega
  have unpadded : nextFragment crc32c
      ⟨fragment.bytes crc32c ++ more, offset + padding offset, assembly⟩ = _ :=
    nextFragment_bytes room
  rw [PhysicalFragment.framed, append_assoc]
  rw [Nat.add_assoc offset, ← Nat.add_assoc (padding offset)] at unpadded
  rcases padding_cases offset with ⟨none, -⟩ | ⟨short, full⟩
  · simpa [none] using unpadded
  · have nonempty : replicate (padding offset) 0 ++ (fragment.bytes crc32c ++ more) ≠ [] := by
      have := Nat.mod_lt offset (show 0 < blockBytes by decide)
      simp
      omega
    rw [nextFragment, dif_neg nonempty]
    simp only [block, ← full, take_left' length_replicate, fragmentAt_filler short, advance,
      length_replicate, drop_left' length_replicate]
    exact unpadded

variable {reader next : LogReader} {record : List UInt8}

theorem nextRecord_of_fragment {complete : Bool}
    (found : reader.nextFragment crc32c = .ok (some (fragment, next)))
    (joined : appendFragment maximum fragment reader.assembly = .ok (record, complete)) :
    reader.nextRecord crc32c maximum =
      if complete then .ok (some (record, { next with assembly := none }))
      else nextRecord crc32c maximum { next with assembly := some record } := by
  rw [nextRecord]
  split <;> rename_i result
  · cases found.symm.trans result
  · cases found.symm.trans result
  · cases found.symm.trans result
    rw [joined]
    cases complete <;> rfl

theorem appendFragment_fragmentKind {first : Bool} (last : Bool) {assembled : List UInt8}
    (payload : List UInt8) (start : first = true → assembled = [])
    (small : assembled.length + payload.length ≤ maximum) :
    appendFragment maximum ⟨fragmentKind first last, payload⟩
      (if first then none else some assembled) = .ok (assembled ++ payload, last) := by
  cases first with
  | true =>
    obtain rfl := start rfl
    cases last <;> simpa [appendFragment, fragmentKind, checkRecordSize] using small
  | false => cases last <;> simpa [appendFragment, fragmentKind, checkRecordSize] using small

/-- The fragments of a record, from the first or after some of them, are put together. -/
theorem nextRecord_writeRecord {first : Bool} {record : List UInt8} (assembled : List UInt8)
    (start : first = true → assembled = [])
    (small : assembled.length + record.length ≤ maximum) :
    nextRecord crc32c maximum ⟨writeRecord crc32c offset first record ++ more, offset,
        if first then none else some assembled⟩ =
      .ok (some (assembled ++ record,
        ⟨more, offset + (writeRecord crc32c offset first record).length, none⟩)) := by
  fun_induction writeRecord crc32c offset first record generalizing assembled with
  | case1 offset first record whole =>
    rw [length_framed]
    exact nextRecord_of_fragment (nextFragment_framed whole)
      (appendFragment_fragmentKind true record start small)
  | case2 offset first record longer ih =>
    have taken : (record.take (capacity offset)).length = capacity offset :=
      length_take_of_le (by omega)
    have rest := ih (assembled ++ record.take (capacity offset)) nofun (by
      rw [length_append, length_drop, taken]
      omega)
    rw [append_assoc, take_append_drop, Nat.add_assoc offset] at rest
    rw [append_assoc, length_append, length_framed, taken, ← rest]
    refine (nextRecord_of_fragment (nextFragment_framed taken.le)
      (appendFragment_fragmentKind false _ start (by omega))).trans ?_
    rw [taken]
    rfl

/-- The reader returns exactly the records, and then finds the end of the log. -/
def Yields (crc32c : List UInt8 → UInt32) (maximum : Nat) :
    LogReader → List (List UInt8) → Prop
  | reader, [] => reader.nextRecord crc32c maximum = .ok none
  | reader, record :: records => ∃ next,
      reader.nextRecord crc32c maximum = .ok (some (record, next)) ∧
        next.Yields crc32c maximum records

theorem yields_writeRecords {records : List (List UInt8)}
    (small : ∀ record ∈ records, record.length ≤ maximum) :
    Yields crc32c maximum ⟨writeRecords crc32c offset records, offset, none⟩ records := by
  induction records generalizing offset with
  | nil =>
    rw [Yields, nextRecord]
    split <;> rename_i result
    all_goals simp_all [nextFragment, writeRecords]
  | cons record records ih =>
    rw [forall_mem_cons] at small
    exact ⟨_, nextRecord_writeRecord [] (fun _ => rfl) (by simpa using small.1), ih small.2⟩

/-! ## Logs that are cut short -/

theorem length_nextRecord
    (returned : reader.nextRecord crc32c maximum = .ok (some (record, next))) :
    next.input.length < reader.input.length := by
  revert returned
  fun_induction nextRecord crc32c maximum reader with
  | case5 reader fragment rest found record joined =>
    have shorter := length_nextFragment crc32c found
    rintro ⟨⟩
    exact shorter
  | case6 reader fragment rest found assembled joined ih =>
    have shorter := length_nextFragment crc32c found
    exact fun returned => (ih returned).trans shorter
  | _ => rintro ⟨⟩

/-- The records before the end of a log or the first error in it. -/
def records (crc32c : List UInt8 → UInt32) (maximum : Nat) (reader : LogReader) :
    List (List UInt8) :=
  match returned : reader.nextRecord crc32c maximum with
  | .ok (some (record, next)) => record :: next.records crc32c maximum
  | _ => []
termination_by reader.input.length
decreasing_by exact length_nextRecord returned

def extend (reader : LogReader) (more : List UInt8) : LogReader :=
  { reader with input := reader.input ++ more }

theorem advance_extend {bytes : Nat} (within : bytes ≤ reader.block.length) :
    (reader.extend more).advance bytes = (reader.advance bytes).extend more := by
  have short := within.trans (length_take_le' _ _)
  simp only [advance, extend, drop_append_of_le_length short]

theorem fragmentAt_append {bytes : List UInt8}
    (parsed : fragmentAt crc32c offset bytes = .ok (some fragment)) :
    fragmentAt crc32c offset (bytes ++ more) = .ok (some fragment) ∧
      headerBytes + fragment.payload.length ≤ bytes.length := by
  revert parsed
  fun_cases fragmentAt crc32c offset bytes with
  | case6 c₀ c₁ c₂ c₃ l₀ l₁ code body checksum length marked long kind known actual same =>
    rintro ⟨⟩
    have whole : (body ++ more).take length = body.take length :=
      take_append_of_le_length (Nat.le_of_not_lt long)
    constructor
    · simp only [cons_append, fragmentAt, length_append, known]
      rw [if_neg marked, if_neg (by omega), whole, if_neg same]
    · simp [headerBytes]
      omega
  | _ => rintro ⟨⟩

theorem nextFragment_extend (found : reader.nextFragment crc32c = .ok (some (fragment, next))) :
    (reader.extend more).nextFragment crc32c = .ok (some (fragment, next.extend more)) := by
  revert found
  fun_induction nextFragment crc32c reader with
  | case3 reader left filler ih =>
    intro found
    -- Behind a block that is filler to its end the log goes on only if the block is whole.
    by_cases inside : blockBytes - reader.offset % blockBytes ≤ reader.input.length
    · have same : (reader.extend more).block = reader.block := take_append_of_le_length inside
      rw [nextFragment, dif_neg (by simp [extend, left]), same, extend, filler]
      exact (congrArg _ (advance_extend le_rfl)).trans (ih found)
    · have nothing : (reader.advance reader.block.length).input = [] := by
        rw [advance, block, take_of_length_le (by omega), drop_length]
      rw [nextFragment, dif_pos nothing] at found
      cases found
  | case4 reader left fragment parsed =>
    rintro ⟨⟩
    obtain ⟨again, long⟩ := fragmentAt_append parsed
    rw [block] at again
    rw [nextFragment, dif_neg (by simp [extend, left]), block, ← advance_extend long, extend,
      take_append, again]
  | _ => rintro ⟨⟩

theorem nextRecord_extend
    (returned : reader.nextRecord crc32c maximum = .ok (some (record, next))) :
    (reader.extend more).nextRecord crc32c maximum = .ok (some (record, next.extend more)) := by
  revert returned
  fun_induction nextRecord crc32c maximum reader with
  | case5 reader fragment rest found record joined =>
    rintro ⟨⟩
    exact nextRecord_of_fragment (nextFragment_extend found) joined
  | case6 reader fragment rest found assembled joined ih =>
    exact fun returned =>
      (nextRecord_of_fragment (nextFragment_extend found) joined).trans (ih returned)
  | _ => rintro ⟨⟩

theorem records_extend (crc32c : List UInt8 → UInt32) (maximum : Nat) (reader : LogReader)
    (more : List UInt8) :
    reader.records crc32c maximum <+: (reader.extend more).records crc32c maximum := by
  fun_induction records crc32c maximum reader with
  | case1 reader record next returned ih =>
    conv_rhs => rw [records]
    split <;> rename_i again
    · cases (nextRecord_extend returned).symm.trans again
      exact (prefix_cons_inj record).mpr ih
    · exact absurd (nextRecord_extend returned) (again _ _)
  | case2 => exact nil_prefix

end LogReader

/-- Whatever records are written to a log, a reader that takes records of their sizes returns
them in order and then ends. -/
theorem written_records_read_back (crc32c : List UInt8 → UInt32) (maximum : Nat)
    (records : List (List UInt8)) (small : ∀ record ∈ records, record.length ≤ maximum) :
    (LogReader.new (writeRecords crc32c 0 records)).Yields crc32c maximum records :=
  LogReader.yields_writeRecords small

/-- A record that takes three blocks, after an empty one. -/
theorem written_records_read_back_sample :
    (LogReader.new (writeRecords castagnoli 0 [[], replicate 70000 7])).Yields castagnoli 70000
      [[], replicate 70000 7] :=
  written_records_read_back castagnoli 70000 [[], replicate 70000 7]
    (forall_mem_cons.mpr ⟨Nat.zero_le _, forall_mem_singleton.mpr length_replicate.le⟩)

/-- Wherever a log of any origin is cut, it still gives the first of its records and no others. -/
theorem cut_log_gives_first_records (crc32c : List UInt8 → UInt32) (maximum : Nat)
    (log : List UInt8) (bytes : Nat) :
    (LogReader.new (log.take bytes)).records crc32c maximum <+:
      (LogReader.new log).records crc32c maximum := by
  have whole := (LogReader.new (log.take bytes)).records_extend crc32c maximum (log.drop bytes)
  rwa [LogReader.extend, LogReader.new, take_append_drop] at whole

end Firenook.ExportLog
