import Firenook.ByteReaders
import Firenook.StoreWrites

/-!
# The stored encoding of values and documents

The derived bincode layout of values and documents, its decoder, and the walker
that skips a value without building it.  Both readers recurse through nested
values; the recursion is bounded by a fuel that every caller sets to the number
of bytes at hand, and each nested value takes at least one byte, so it never runs
out on an encoding.
-/

namespace Firenook

open Decoder List OrderedEntries

@[match_pattern] def variantNull : Nat := 0
@[match_pattern] def variantBoolean : Nat := 1
@[match_pattern] def variantInteger : Nat := 2
@[match_pattern] def variantDouble : Nat := 3
@[match_pattern] def variantTimestamp : Nat := 4
@[match_pattern] def variantString : Nat := 5
@[match_pattern] def variantBytes : Nat := 6
@[match_pattern] def variantReference : Nat := 7
@[match_pattern] def variantGeoPoint : Nat := 8
@[match_pattern] def variantArray : Nat := 9
@[match_pattern] def variantMap : Nat := 10
@[match_pattern] def variantVector : Nat := 11

/-! ## Encoding -/

def encodeF64 (number : Binary64) : List UInt8 := littleEndian 8 number.bits.toNat

def encodeTimestamp (time : Timestamp) : List UInt8 :=
  encodeI64 time.seconds ++ encodeVarint time.nanos

mutual

def encodeValue : Value → List UInt8
  | .null => encodeVarint variantNull
  | .boolean value => encodeVarint variantBoolean ++ encodeBool value
  | .integer value => encodeVarint variantInteger ++ encodeI64 value.toInt
  | .double value => encodeVarint variantDouble ++ encodeF64 value
  | .timestamp value => encodeVarint variantTimestamp ++ encodeTimestamp value
  | .string value => encodeVarint variantString ++ encodeText value
  | .bytes value => encodeVarint variantBytes ++ encodeBytes value
  | .reference value => encodeVarint variantReference ++ encodeText value
  | .geoPoint latitude longitude =>
    encodeVarint variantGeoPoint ++ (encodeF64 latitude ++ encodeF64 longitude)
  | .array values =>
    encodeVarint variantArray ++ (encodeVarint values.length ++ encodeValues values)
  | .map entries =>
    encodeVarint variantMap ++ (encodeVarint entries.length ++ encodeEntries entries)
  | .vector values =>
    encodeVarint variantVector ++ (encodeVarint values.length ++ values.flatMap encodeF64)

def encodeValues : List Value → List UInt8
  | [] => []
  | value :: values => encodeValue value ++ encodeValues values

def encodeEntries : List (Text × Value) → List UInt8
  | [] => []
  | (name, value) :: entries => encodeText name ++ encodeValue value ++ encodeEntries entries

end

def encodeEntry (entry : Text × Value) : List UInt8 := encodeText entry.1 ++ encodeValue entry.2

theorem encodeValues_eq_flatMap (values : List Value) :
    encodeValues values = values.flatMap encodeValue := by
  induction values with
  | nil => rfl
  | cons value values ih => simp [encodeValues, ih]

variable (entries : List (Text × Value))

theorem encodeEntries_eq_flatMap : encodeEntries entries = entries.flatMap encodeEntry := by
  induction entries with
  | nil => rfl
  | cons entry entries ih => simp [encodeEntries, encodeEntry, ih]

def encodeFields (fields : Fields) : List UInt8 :=
  encodeVarint fields.entries.length ++ encodeEntries fields.entries

def encodeDocument (document : Document) : List UInt8 :=
  encodeFields document.fields ++
    (encodeTimestamp document.createTime ++ encodeTimestamp document.updateTime)

/-! ## Decoding -/

def decodeF64 : Decoder Binary64 := do
  let bits ← readWord 8
  pure ⟨UInt64.ofNat bits⟩

/-- Stored timestamps are normalized; nothing else is accepted. -/
def timestampOfParts (seconds : Int) (nanos : Nat) : Decoder Timestamp :=
  if bounds : (-2 ^ 63 ≤ seconds ∧ seconds < 2 ^ 63) ∧ nanos < 1000000000 then
    pure ⟨seconds, nanos, bounds.1, bounds.2⟩
  else throw (.other "timestamp is not normalized".toList)

def decodeTimestamp : Decoder Timestamp := do
  let seconds ← decodeI64
  let nanos ← decodeU32
  timestampOfParts seconds nanos

def OrderedValue.array (values : List OrderedValue) : OrderedValue :=
  ⟨.array (values.map Subtype.val), by
    rw [Value.ordered, Value.allOrdered_iff]
    intro value member
    obtain ⟨ordered, _, rfl⟩ := mem_map.mp member
    exact ordered.2⟩

def Fields.insert (fields : Fields) (name : Text) (value : OrderedValue) : Fields :=
  ⟨OrderedEntries.insert Text.cmp name value.1 fields.entries,
    Value.ordered_insert fields.ordered value.2 name⟩

def Fields.ofEntries (entries : List (Text × OrderedValue)) : Fields :=
  entries.foldl (fun fields entry => fields.insert entry.1 entry.2) .empty

def decodeEntry (decodeValue : Decoder OrderedValue) : Decoder (Text × OrderedValue) := do
  let name ← decodeText
  let value ← decodeValue
  pure (name, value)

def decodeFields (decodeValue : Decoder OrderedValue) : Decoder Fields := do
  let length ← decodeU64
  let entries ← replicate (decodeEntry decodeValue) length
  pure (.ofEntries entries)

def decodeVariant (decodeValue : Decoder OrderedValue) : Nat → Decoder OrderedValue
  | variantNull => pure ⟨.null, rfl⟩
  | variantBoolean => do
    let value ← decodeBool
    pure ⟨.boolean value, rfl⟩
  | variantInteger => do
    let value ← decodeI64
    pure ⟨.integer (Int64.ofInt value), rfl⟩
  | variantDouble => do
    let value ← decodeF64
    pure ⟨.double value, rfl⟩
  | variantTimestamp => do
    let value ← decodeTimestamp
    pure ⟨.timestamp value, rfl⟩
  | variantString => do
    let value ← decodeText
    pure ⟨.string value, rfl⟩
  | variantBytes => do
    let value ← decodeBytes
    pure ⟨.bytes value, rfl⟩
  | variantReference => do
    let value ← decodeText
    pure ⟨.reference value, rfl⟩
  | variantGeoPoint => do
    let latitude ← decodeF64
    let longitude ← decodeF64
    pure ⟨.geoPoint latitude longitude, rfl⟩
  | variantArray => do
    let length ← decodeU64
    let values ← replicate decodeValue length
    pure (.array values)
  | variantMap => do
    let fields ← decodeFields decodeValue
    pure ⟨.map fields.entries, fields.ordered⟩
  | variantVector => do
    let length ← decodeU64
    let values ← replicate decodeF64 length
    pure ⟨.vector values, rfl⟩
  | _ => throw (.other "unexpected variant".toList)

def decodeValue : Nat → Decoder OrderedValue
  | 0 => throw (.other "nesting exceeds the input".toList)
  | fuel + 1 => do
    let variant ← decodeU32
    decodeVariant (decodeValue fuel) variant

/-! ## Skipping -/

def skipBytes : Decoder Unit := do
  let length ← decodeU64
  let _ ← peekConsume length
  pure ()

def skipEntry (skipValue : Decoder Unit) : Decoder Unit := do
  skipBytes
  skipValue

def skipVector : Decoder Unit := do
  let length ← decodeU64
  if length * 8 < 2 ^ 64 then do
    let _ ← peekConsume (length * 8)
    pure ()
  else throw (.other "vector length overflows".toList)

def skipVariant (skipValue : Decoder Unit) : Nat → Decoder Unit
  | variantNull => pure ()
  | variantBoolean => do
    let _ ← decodeBool
    pure ()
  | variantInteger => do
    let _ ← decodeI64
    pure ()
  | variantDouble => do
    let _ ← decodeF64
    pure ()
  | variantTimestamp => do
    let _ ← decodeTimestamp
    pure ()
  | variantString => skipBytes
  | variantBytes => skipBytes
  | variantReference => skipBytes
  | variantGeoPoint => do
    let _ ← decodeF64
    let _ ← decodeF64
    pure ()
  | variantArray => do
    let length ← decodeU64
    let _ ← replicate skipValue length
    pure ()
  | variantMap => do
    let length ← decodeU64
    let _ ← replicate (skipEntry skipValue) length
    pure ()
  | variantVector => skipVector
  | _ => throw (.other "unknown Value variant".toList)

def skipValue : Nat → Decoder Unit
  | 0 => throw (.other "nesting exceeds the input".toList)
  | fuel + 1 => do
    let variant ← decodeU32
    skipVariant (skipValue fuel) variant

/-! ## Reading back an encoding -/

theorem reads_decodeF64 (number : Binary64) : Reads decodeF64 (encodeF64 number) number := by
  have word : Reads (readWord 8) (encodeF64 number) number.bits.toNat :=
    reads_readWord 8 number.bits.toNat_lt
  have reads := word.map fun bits => (⟨UInt64.ofNat bits⟩ : Binary64)
  rwa [UInt64.ofNat_toNat] at reads

theorem reads_timestampOfParts (time : Timestamp) :
    Reads (timestampOfParts time.seconds time.nanos) [] time := by
  rw [timestampOfParts, dif_pos ⟨time.secondsBound, time.nanosBound⟩]
  exact reads_pure time

theorem reads_decodeTimestamp (time : Timestamp) :
    Reads decodeTimestamp (encodeTimestamp time) time := by
  have nanosBound : time.nanos < 2 ^ 32 := time.nanosBound.trans (by decide)
  have reads := (reads_decodeU32 nanosBound).bind (reads_timestampOfParts time)
  rw [append_nil] at reads
  exact (reads_decodeI64 time.secondsBound).bind reads

theorem int64_bounds (number : Int64) : -2 ^ 63 ≤ number.toInt ∧ number.toInt < 2 ^ 63 :=
  ⟨number.le_toInt, number.toInt_lt⟩

theorem length_encodeText (text : Text) : text.byteLength ≤ (encodeText text).length := by
  simp [encodeText, encodeBytes, Text.byteLength]

theorem length_encodeBytes (bytes : List UInt8) : bytes.length ≤ (encodeBytes bytes).length := by
  simp [encodeBytes]

theorem length_encodeVarint_of_lt {number : Nat} (small : number < 251) :
    (encodeVarint number).length = 1 := by
  rw [encodeVarint, if_pos small]
  rfl

def Value.variant : Value → Nat
  | .null => variantNull
  | .boolean _ => variantBoolean
  | .integer _ => variantInteger
  | .double _ => variantDouble
  | .timestamp _ => variantTimestamp
  | .string _ => variantString
  | .bytes _ => variantBytes
  | .reference _ => variantReference
  | .geoPoint _ _ => variantGeoPoint
  | .array _ => variantArray
  | .map _ => variantMap
  | .vector _ => variantVector

variable (value : Value)

theorem Value.variant_lt : value.variant < 251 := by
  cases value <;> exact of_decide_eq_true rfl

def encodeBody : List UInt8 := (encodeValue value).drop 1

theorem encodeValue_eq : encodeValue value = encodeVarint value.variant ++ encodeBody value := by
  cases value <;> rfl

/-- A nested reader has one byte of fuel less, and one byte less to read. -/
theorem reads_value {α : Type} {reader : Nat → Decoder α} {readBody : Decoder α → Nat → Decoder α}
    (unfolds : ∀ fuel, reader (fuel + 1) = decodeU32 >>= readBody (reader fuel))
    {value : Value} {result : α} {fuel : Nat} (enough : (encodeValue value).length ≤ fuel)
    (bounded : (encodeValue value).length < 2 ^ 64)
    (reads : ∀ inner, (encodeBody value).length ≤ inner → (encodeBody value).length < 2 ^ 64 →
      Reads (readBody (reader inner) value.variant) (encodeBody value) result) :
    Reads (reader fuel) (encodeValue value) result := by
  have small := value.variant_lt
  rw [encodeValue_eq] at enough bounded ⊢
  rw [length_append, length_encodeVarint_of_lt small] at enough bounded
  cases fuel with
  | zero => omega
  | succ inner =>
    rw [unfolds]
    exact (reads_decodeU32 (by omega)).bind (reads inner (by omega) (by omega))

theorem length_encodeVarint_pos (number : Nat) : 0 < (encodeVarint number).length :=
  length_pos_iff.mpr (encodeVarint_ne_nil number)

theorem length_encodeValue_pos : 0 < (encodeValue value).length := by
  rw [encodeValue_eq, length_append]
  exact Nat.add_pos_left (length_encodeVarint_pos _) _

theorem length_le_flatMap {α : Type} (encode : α → List UInt8) {values : List α} {value : α}
    (member : value ∈ values) : (encode value).length ≤ (values.flatMap encode).length := by
  rw [length_flatMap]
  exact single_le_sum (by simp) _ (mem_map.mpr ⟨value, member, rfl⟩)

theorem length_le_flatMap_length {α : Type} (encode : α → List UInt8) (values : List α)
    (positive : ∀ value ∈ values, 0 < (encode value).length) :
    values.length ≤ (values.flatMap encode).length := by
  induction values with
  | nil => simp
  | cons value values ih =>
    have first := positive value mem_cons_self
    have rest := ih (forall_mem_cons.mp positive).2
    simp only [length_cons, flatMap_cons, length_append]
    omega

theorem length_le_length_flatMap_encodeEntry :
    entries.length ≤ (entries.flatMap encodeEntry).length := by
  apply length_le_flatMap_length
  intro entry _
  rw [encodeEntry, length_append]
  exact Nat.add_pos_right _ (length_encodeValue_pos entry.2)

theorem Fields.ofEntries_entries {entries : List (Text × OrderedValue)}
    (ascending : Ascending Text.cmp (entries.map fun entry => (entry.1, entry.2.1))) :
    (Fields.ofEntries entries).entries = entries.map fun entry => (entry.1, entry.2.1) := by
  have unfolded : ∀ fields : Fields,
      (entries.foldl (fun fields entry => fields.insert entry.1 entry.2) fields).entries =
        (entries.map fun entry => (entry.1, entry.2.1)).foldl
          (fun map entry => OrderedEntries.insert Text.cmp entry.1 entry.2 map)
          fields.entries := by
    intro fields
    induction entries generalizing fields with
    | nil => rfl
    | cons entry entries ih =>
      rw [foldl_cons, ih (pairwise_cons.mp ascending).2]
      rfl
  rw [Fields.ofEntries, unfolded]
  exact foldl_insert (show Ascending Text.cmp ([] ++ _) from ascending)

theorem exists_orderedEntries {entries : List (Text × Value)}
    (ordered : ∀ entry ∈ entries, entry.2.ordered = true) :
    ∃ members : List (Text × OrderedValue),
      entries = members.map fun entry => (entry.1, entry.2.1) := by
  induction entries with
  | nil => exact ⟨[], rfl⟩
  | cons entry entries ih =>
    obtain ⟨members, rfl⟩ := ih (forall_mem_cons.mp ordered).2
    exact ⟨(entry.1, ⟨entry.2, ordered entry mem_cons_self⟩) :: members, rfl⟩

theorem exists_orderedValues {values : List Value}
    (ordered : ∀ value ∈ values, value.ordered = true) :
    ∃ members : List OrderedValue, values = members.map Subtype.val := by
  lift values to List OrderedValue using ordered
  exact ⟨values, rfl⟩

theorem reads_decodeFields {fields : Fields} {decoder : Decoder OrderedValue}
    (bounded : (encodeFields fields).length < 2 ^ 64)
    (reads : ∀ member : OrderedValue, (∃ name, (name, member.1) ∈ fields.entries) →
      Reads decoder (encodeValue member.1) member) :
    Reads (decodeFields decoder) (encodeFields fields) fields := by
  obtain ⟨entries, ordered⟩ := fields
  obtain ⟨ascending, valuesOrdered⟩ := Value.ordered_map_iff.mp ordered
  obtain ⟨members, rfl⟩ := exists_orderedEntries valuesOrdered
  simp only [encodeFields, encodeEntries_eq_flatMap, length_append] at bounded ⊢
  have count := length_le_length_flatMap_encodeEntry (members.map fun entry => (entry.1, entry.2.1))
  rw [length_map] at count ⊢
  have readsEntries : Reads (replicate (decodeEntry decoder) members.length)
      ((members.map fun entry => (entry.1, entry.2.1)).flatMap encodeEntry)
      (members.map id) := by
    rw [flatMap_map]
    apply reads_replicate
    intro entry member
    have entryMember : (entry.1, entry.2.1) ∈
        members.map fun entry => (entry.1, entry.2.1) :=
      mem_map.mpr ⟨entry, member, rfl⟩
    have entryLength := length_le_flatMap encodeEntry entryMember
    have nameLength := length_encodeText entry.1
    simp only [encodeEntry, length_append] at entryLength
    have nameBound : entry.1.byteLength < 2 ^ 64 := by omega
    exact (reads_decodeText nameBound).bind
      ((reads entry.2 ⟨entry.1, entryMember⟩).map fun value => (entry.1, value))
  have rebuilt : Fields.ofEntries members = ⟨_, ordered⟩ :=
    Fields.ext (Fields.ofEntries_entries ascending)
  rw [map_id] at readsEntries
  have result := readsEntries.map Fields.ofEntries
  rw [rebuilt] at result
  exact (reads_decodeU64 (by omega)).bind result

theorem encodeBody_array (values : List Value) :
    encodeBody (.array values) = encodeVarint values.length ++ values.flatMap encodeValue :=
  congrArg _ (encodeValues_eq_flatMap values)

theorem encodeBody_map :
    encodeBody (.map entries) = encodeVarint entries.length ++ entries.flatMap encodeEntry :=
  congrArg _ (encodeEntries_eq_flatMap entries)

theorem reads_decodeValue (ordered : value.ordered = true) {fuel : Nat}
    (enough : (encodeValue value).length ≤ fuel)
    (bounded : (encodeValue value).length < 2 ^ 64) :
    Reads (decodeValue fuel) (encodeValue value) ⟨value, ordered⟩ := by
  induction value using Value.inductOn generalizing fuel with
    refine reads_value (fun _ => rfl) enough bounded fun inner enough bounded => ?_
  | null => exact reads_pure _
  | boolean value =>
    exact (reads_decodeBool value).map fun value => (⟨.boolean value, rfl⟩ : OrderedValue)
  | integer value =>
    have reads := (reads_decodeI64 (int64_bounds value)).map fun value =>
      (⟨.integer (Int64.ofInt value), rfl⟩ : OrderedValue)
    rwa [Int64.ofInt_toInt] at reads
  | double value =>
    exact (reads_decodeF64 value).map fun value => (⟨.double value, rfl⟩ : OrderedValue)
  | timestamp value =>
    exact (reads_decodeTimestamp value).map fun value => (⟨.timestamp value, rfl⟩ : OrderedValue)
  | string value =>
    exact (reads_decodeText ((length_encodeText value).trans_lt bounded)).map fun value =>
      (⟨.string value, rfl⟩ : OrderedValue)
  | bytes value =>
    exact (reads_decodeBytes ((length_encodeBytes value).trans_lt bounded)).map fun value =>
      (⟨.bytes value, rfl⟩ : OrderedValue)
  | reference value =>
    exact (reads_decodeText ((length_encodeText value).trans_lt bounded)).map fun value =>
      (⟨.reference value, rfl⟩ : OrderedValue)
  | geoPoint latitude longitude =>
    exact (reads_decodeF64 latitude).bind ((reads_decodeF64 longitude).map fun longitude =>
      (⟨.geoPoint latitude longitude, rfl⟩ : OrderedValue))
  | array values ih =>
    obtain ⟨members, rfl⟩ := exists_orderedValues (Value.allOrdered_iff.mp ordered)
    have count := length_le_flatMap_length encodeValue (members.map Subtype.val)
      fun value _ => length_encodeValue_pos value
    rw [encodeBody_array] at enough bounded ⊢
    rw [length_append] at enough bounded
    have readsMembers : Reads (replicate (decodeValue inner) members.length)
        ((members.map Subtype.val).flatMap encodeValue) (members.map id) := by
      rw [flatMap_map]
      apply reads_replicate
      intro value member
      have isMember : value.1 ∈ members.map Subtype.val := mem_map.mpr ⟨value, member, rfl⟩
      have length := length_le_flatMap encodeValue isMember
      exact ih value.1 isMember value.2 (by omega) (by omega)
    rw [map_id] at readsMembers
    rw [length_map] at count ⊢
    exact (reads_decodeU64 (by omega)).bind (readsMembers.map OrderedValue.array)
  | map entries ih =>
    have fieldsRead : Reads (decodeFields (decodeValue inner))
        (encodeFields ⟨entries, ordered⟩) ⟨entries, ordered⟩ := by
      apply @reads_decodeFields ⟨entries, ordered⟩ _ bounded
      rintro member ⟨name, isMember⟩
      have length := length_le_flatMap encodeEntry isMember
      rw [encodeBody_map, length_append] at enough bounded
      simp only [encodeEntry, length_append] at length
      have memberEnough : (encodeValue member.1).length ≤ inner := by omega
      have memberBounded : (encodeValue member.1).length < 2 ^ 64 := by omega
      exact ih (name, member.1) isMember member.2 memberEnough memberBounded
    exact fieldsRead.map fun fields => (⟨.map fields.entries, fields.ordered⟩ : OrderedValue)
  | vector values =>
    have count := length_le_flatMap_length encodeF64 values fun _ _ => by simp [encodeF64]
    change (encodeVarint values.length ++ values.flatMap encodeF64).length < 2 ^ 64 at bounded
    rw [length_append] at bounded
    have readsMembers : Reads (replicate decodeF64 values.length) (values.flatMap encodeF64)
        (values.map id) :=
      reads_replicate fun value _ => reads_decodeF64 value
    rw [map_id] at readsMembers
    exact (reads_decodeU64 (by omega)).bind
      (readsMembers.map fun values => (⟨.vector values, rfl⟩ : OrderedValue))

theorem Decoder.Reads.drop {α : Type} {decoder : Decoder α} {encoding : List UInt8} {value : α}
    (reads : Reads decoder encoding value) :
    Reads (do let _ ← decoder; pure ()) encoding () :=
  reads.map fun _ => ()

theorem reads_skipBytes {bytes : List UInt8} (bounded : bytes.length < 2 ^ 64) :
    Reads skipBytes (encodeBytes bytes) () :=
  (reads_decodeU64 bounded).bind (reads_peekConsume rfl).drop

theorem reads_skipVector {values : List Binary64}
    (bounded : (encodeVarint values.length ++ values.flatMap encodeF64).length < 2 ^ 64) :
    Reads skipVector (encodeVarint values.length ++ values.flatMap encodeF64) () := by
  have total : (values.flatMap encodeF64).length = values.length * 8 := by
    simp [encodeF64]
  rw [length_append] at bounded
  apply (reads_decodeU64 (by omega)).bind
  rw [if_pos (by omega)]
  exact (reads_peekConsume total).drop

theorem reads_skipValue {fuel : Nat} (enough : (encodeValue value).length ≤ fuel)
    (bounded : (encodeValue value).length < 2 ^ 64) :
    Reads (skipValue fuel) (encodeValue value) () := by
  induction value using Value.inductOn generalizing fuel with
    refine reads_value (fun _ => rfl) enough bounded fun inner enough bounded => ?_
  | null => exact reads_pure ()
  | boolean value => exact (reads_decodeBool value).drop
  | integer value => exact (reads_decodeI64 (int64_bounds value)).drop
  | double value => exact (reads_decodeF64 value).drop
  | timestamp value => exact (reads_decodeTimestamp value).drop
  | string value | reference value =>
    exact reads_skipBytes ((length_encodeText value).trans_lt bounded)
  | bytes value => exact reads_skipBytes ((length_encodeBytes value).trans_lt bounded)
  | geoPoint latitude longitude =>
    exact (reads_decodeF64 latitude).bind (reads_decodeF64 longitude).drop
  | array values ih =>
    have count := length_le_flatMap_length encodeValue values
      fun value _ => length_encodeValue_pos value
    rw [encodeBody_array] at enough bounded ⊢
    rw [length_append] at enough bounded
    have readsMembers : Reads (replicate (skipValue inner) values.length)
        (values.flatMap encodeValue) (values.map fun _ => ()) := by
      apply reads_replicate
      intro value member
      have length := length_le_flatMap encodeValue member
      exact ih value member (by omega) (by omega)
    exact (reads_decodeU64 (by omega)).bind readsMembers.drop
  | map entries ih =>
    have count := length_le_length_flatMap_encodeEntry entries
    rw [encodeBody_map] at enough bounded ⊢
    rw [length_append] at enough bounded
    have readsMembers : Reads (replicate (skipEntry (skipValue inner)) entries.length)
        (entries.flatMap encodeEntry) (entries.map fun _ => ()) := by
      apply reads_replicate
      intro entry member
      have length := length_le_flatMap encodeEntry member
      have nameLength := length_encodeText entry.1
      simp only [encodeEntry, length_append] at length
      exact (reads_skipBytes (show entry.1.byteLength < 2 ^ 64 by omega)).bind
        (ih entry member (by omega) (by omega))
    exact (reads_decodeU64 (by omega)).bind readsMembers.drop
  | vector values => exact reads_skipVector bounded

/-! ## Documents -/

def decodeDocument (fuel : Nat) : Decoder Document := do
  let fields ← decodeFields (decodeValue fuel)
  let createTime ← decodeTimestamp
  let updateTime ← decodeTimestamp
  pure ⟨fields, createTime, updateTime⟩

theorem reads_decodeDocument {document : Document} {fuel : Nat}
    (enough : (encodeDocument document).length ≤ fuel)
    (bounded : (encodeDocument document).length < 2 ^ 64) :
    Reads (decodeDocument fuel) (encodeDocument document) document := by
  have fieldsRead : Reads (decodeFields (decodeValue fuel)) (encodeFields document.fields)
      document.fields := by
    simp only [encodeDocument, length_append] at enough bounded
    apply reads_decodeFields (by omega)
    rintro member ⟨name, isMember⟩
    have length := length_le_flatMap encodeEntry isMember
    simp only [encodeFields, encodeEntries_eq_flatMap, length_append] at enough bounded
    simp only [encodeEntry, length_append] at length
    exact reads_decodeValue member.1 member.2 (by omega) (by omega)
  exact fieldsRead.bind ((reads_decodeTimestamp document.createTime).bind
    ((reads_decodeTimestamp document.updateTime).map fun updateTime =>
      (⟨document.fields, document.createTime, updateTime⟩ : Document)))

end Firenook
