import Firenook.ByteOrder
import Firenook.LazyFields

/-!
# Keys of the disk tables

Documents are stored under a key that starts with the length-prefixed database
name, followed by the path.  The two scope indexes use keys in which every
identifier is re-encoded so that byte order is resource order: numeric identifiers
become their sign-flipped big-endian number, all others a terminated byte string.
-/

namespace Firenook

open ByteOrder List Text

variable {bytes left right : List UInt8}

/-- Disk failures other than those of the operating system and of redb. -/
inductive DiskError
  | encoding (message : Text)
  | documentEncoding (error : EncodeError)
  | decoding (error : DecodeError)
  | corrupt (message : Text)
  | commit (error : CommitError)
  | recordTooLarge (bytes limit : Nat)
  | requiresRestart
  deriving DecidableEq

def NameError.message : NameError → Text
  | .invalidIdentifier kind value =>
    "invalid ".toList ++ kind ++ " identifier: ".toList ++ value
  | .invalidDocumentPath path => "invalid document path: ".toList ++ path
  | .reservedResourceId resourceId =>
    "Resource id \"".toList ++ resourceId ++ "\" is invalid because it is reserved.".toList

/-! ## Document keys -/

def pushLengthPrefixed (buffer : List UInt8) (value : Text) : Except DiskError (List UInt8) :=
  if value.byteLength < 2 ^ 32 then
    pure (buffer ++ (bigEndian 4 value.byteLength ++ value.bytes))
  else throw (.encoding "resource identifier exceeds u32 bytes".toList)

def projectPrefix (project : Text) : Except DiskError (List UInt8) := pushLengthPrefixed [] project

variable (database : DatabaseName)

def databasePrefix : Except DiskError (List UInt8) := do
  let encoded ← pushLengthPrefixed [] database.projectId
  pushLengthPrefixed encoded database.databaseId

variable (key : DocumentKey)

def encodeDocumentKey : Except DiskError (List UInt8) := do
  let encoded ← databasePrefix key.database
  pure (encoded ++ key.path.bytes)

def decodeLengthPrefixedString (bytes : List UInt8) : Except DiskError (Text × List UInt8) :=
  if bytes.length < 4 then throw (.corrupt "document key length is truncated".toList)
  else
    let length := fromBigEndian (bytes.take 4)
    let value := bytes.drop 4
    if value.length < length then throw (.corrupt "document key value is truncated".toList)
    else
      match fromUtf8 (value.take length) with
      | none => throw (.corrupt "document key value is not UTF-8".toList)
      | some text => pure (text, value.drop length)

/-- A name that does not validate makes the stored key corrupt. -/
def corruptName {α : Type} : Except NameError α → Except DiskError α
  | .ok name => pure name
  | .error error => throw (.corrupt error.message)

def decodeDocumentKey (bytes : List UInt8) : Except DiskError DocumentKey := do
  let (projectId, bytes) ← decodeLengthPrefixedString bytes
  let (databaseId, bytes) ← decodeLengthPrefixedString bytes
  match fromUtf8 bytes with
  | none => throw (.corrupt "document key path is not UTF-8".toList)
  | some path => do
    let database ← corruptName (DatabaseName.new projectId databaseId)
    corruptName (DocumentKey.new database path)

/-! ## Scope index keys -/

def collectionIndexPrefix (collectionPath : Text) : Except DiskError (List UInt8) := do
  let encoded ← databasePrefix database
  pushLengthPrefixed encoded collectionPath

def collectionGroupIndexPrefix (collectionId : Text) : Except DiskError (List UInt8) := do
  let encoded ← databasePrefix database
  pushLengthPrefixed encoded collectionId

/-- The order-preserving bytes of an identifier: a number with its sign bit flipped
sorts before every other identifier. -/
def orderedResourceId (resourceId : Text) : List UInt8 :=
  match numericResourceId resourceId with
  | some number => 0 :: bigEndian 8 (number + 2 ^ 63).toNat
  | none => 1 :: terminated resourceId.bytes

def pushOrderedResourceId (buffer : List UInt8) (resourceId : Text) : List UInt8 :=
  buffer ++ orderedResourceId resourceId

def immediateCollectionId (documentPath : Text) : Option Text :=
  (documentPath.rsplitOnce '/').map fun split => lastPiece '/' split.1

def encodeCollectionIndexKey : Except DiskError (List UInt8) :=
  match key.path.rsplitOnce '/' with
  | none => throw (.corrupt ("document path has no collection: ".toList ++ key.path))
  | some (collectionPath, documentId) => do
    let encoded ← collectionIndexPrefix key.database collectionPath
    pure (pushOrderedResourceId encoded documentId)

def encodeCollectionGroupIndexKey : Except DiskError (List UInt8) :=
  match immediateCollectionId key.path with
  | none => throw (.corrupt ("document path has no collection group: ".toList ++ key.path))
  | some collectionId => do
    let encoded ← collectionGroupIndexPrefix key.database collectionId
    pure ((key.path.split '/').foldl pushOrderedResourceId encoded)

def directCollectionMatches (collectionPath documentPath : Text) : Bool :=
  match (stripPrefix collectionPath documentPath).bind (stripPrefix ['/']) with
  | some documentId => !documentId.isEmpty && !documentId.contains '/'
  | none => false

def ancestorMatches (ancestor documentPath : Text) : Bool :=
  match (stripPrefix ancestor documentPath).bind (stripPrefix ['/']) with
  | some descendant => (descendant.split '/').length ≥ 2
  | none => false

/-! ## Length prefixes -/

def lengthPrefixed (value : Text) : List UInt8 := bigEndian 4 value.byteLength ++ value.bytes

theorem pushLengthPrefixed_eq_ok {buffer : List UInt8} {value : Text} :
    pushLengthPrefixed buffer value = .ok bytes ↔
      value.byteLength < 2 ^ 32 ∧ bytes = buffer ++ lengthPrefixed value := by
  rw [pushLengthPrefixed]
  split_ifs with small
  · exact ⟨by rintro ⟨⟩; exact ⟨small, rfl⟩, by rintro ⟨_, rfl⟩; rfl⟩
  · exact ⟨nofun, fun both => absurd both.1 small⟩

theorem decodeLengthPrefixedString_append {value : Text} (small : value.byteLength < 2 ^ 32)
    (rest : List UInt8) :
    decodeLengthPrefixedString (lengthPrefixed value ++ rest) = .ok (value, rest) := by
  have front : (lengthPrefixed value ++ rest).take 4 = bigEndian 4 value.byteLength := by
    exact take_left' (length_bigEndian 4 _)
  have back : (lengthPrefixed value ++ rest).drop 4 = value.bytes ++ rest := by
    exact drop_left' (length_bigEndian 4 _)
  have size : 4 ≤ (lengthPrefixed value ++ rest).length := by
    simp only [lengthPrefixed, length_append, length_bigEndian]
    omega
  have count : fromBigEndian (bigEndian 4 value.byteLength) = value.bytes.length :=
    fromBigEndian_bigEndian small
  simp only [decodeLengthPrefixedString, front, back, count]
  rw [if_neg (by omega), if_neg (by simp), take_left, drop_left, fromUtf8_bytes]
  rfl

theorem lengthPrefixed_append_inj {first second : Text} (firstSmall : first.byteLength < 2 ^ 32)
    (secondSmall : second.byteLength < 2 ^ 32)
    (same : lengthPrefixed first ++ left = lengthPrefixed second ++ right) :
    first = second ∧ left = right := by
  have decoded := decodeLengthPrefixedString_append firstSmall left
  rw [same, decodeLengthPrefixedString_append secondSmall right] at decoded
  cases decoded
  exact ⟨rfl, rfl⟩

/-! ## Document keys read back -/

def DatabaseName.Fits : Prop :=
  database.projectId.byteLength < 2 ^ 32 ∧ database.databaseId.byteLength < 2 ^ 32

def databaseBytes : List UInt8 :=
  lengthPrefixed database.projectId ++ lengthPrefixed database.databaseId

theorem databasePrefix_eq_ok {database : DatabaseName} :
    databasePrefix database = .ok bytes ↔ database.Fits ∧ bytes = databaseBytes database := by
  simp only [databasePrefix, bind_eq_ok, pushLengthPrefixed_eq_ok]
  exact ⟨by rintro ⟨_, ⟨project, rfl⟩, both, rfl⟩; exact ⟨⟨project, both⟩, rfl⟩,
    by rintro ⟨⟨project, both⟩, rfl⟩; exact ⟨_, ⟨project, rfl⟩, both, rfl⟩⟩

theorem databaseBytes_append_inj {first second : DatabaseName} (firstFits : first.Fits)
    (secondFits : second.Fits)
    (same : databaseBytes first ++ left = databaseBytes second ++ right) :
    first = second ∧ left = right := by
  simp only [databaseBytes, append_assoc] at same
  obtain ⟨projectEq, same⟩ := lengthPrefixed_append_inj firstFits.1 secondFits.1 same
  obtain ⟨databaseEq, same⟩ := lengthPrefixed_append_inj firstFits.2 secondFits.2 same
  exact ⟨DatabaseName.ext_ids projectEq databaseEq, same⟩

theorem encodeDocumentKey_eq_ok {key : DocumentKey} : encodeDocumentKey key = .ok bytes ↔
      key.database.Fits ∧ bytes = databaseBytes key.database ++ key.path.bytes := by
  simp only [encodeDocumentKey, bind_eq_ok, databasePrefix_eq_ok]
  constructor
  · rintro ⟨_, ⟨fits, rfl⟩, encoded⟩
    cases encoded
    exact ⟨fits, rfl⟩
  · rintro ⟨fits, rfl⟩
    exact ⟨_, ⟨fits, rfl⟩, rfl⟩

theorem decodeDocumentKey_of_encode {key : DocumentKey}
    (encoded : encodeDocumentKey key = .ok bytes) : decodeDocumentKey bytes = .ok key := by
  obtain ⟨fits, rfl⟩ := encodeDocumentKey_eq_ok.mp encoded
  rw [databaseBytes, append_assoc]
  refine bind_eq_ok.mpr ⟨_, decodeLengthPrefixedString_append fits.1 _, ?_⟩
  refine bind_eq_ok.mpr ⟨_, decodeLengthPrefixedString_append fits.2 _, ?_⟩
  simp only [fromUtf8_bytes, DatabaseName.new_ids]
  refine bind_eq_ok.mpr ⟨key.database, rfl, ?_⟩
  rw [DocumentKey.new_path]
  rfl

theorem encodeDocumentKey_inj {first second : DocumentKey}
    (encodedFirst : encodeDocumentKey first = .ok bytes)
    (encodedSecond : encodeDocumentKey second = .ok bytes) : first = second := by
  have decoded := decodeDocumentKey_of_encode encodedFirst
  rw [decodeDocumentKey_of_encode encodedSecond] at decoded
  cases decoded
  rfl

theorem compare_of_encodeDocumentKey {first second : DocumentKey}
    (encodedFirst : encodeDocumentKey first = .ok left)
    (encodedSecond : encodeDocumentKey second = .ok right)
    (sameDatabase : first.database = second.database) :
    compare left right = compare first second := by
  obtain ⟨_, rfl⟩ := encodeDocumentKey_eq_ok.mp encodedFirst
  obtain ⟨_, rfl⟩ := encodeDocumentKey_eq_ok.mp encodedSecond
  rw [sameDatabase, compare_append_append]
  change _ = compareLex _ _ first second
  rw [compareLex, compareOn, sameDatabase, Std.ReflOrd.compare_self]
  rfl

/-! ## Resource order -/

theorem numericResourceId_bounds {resourceId : Text} {number : Int}
    (numeric : numericResourceId resourceId = some number) :
    -2 ^ 63 ≤ number ∧ number < 2 ^ 63 := by
  simp only [numericResourceId, bind, Option.bind_eq_some_iff] at numeric
  obtain ⟨_, _, digits, _, parsed⟩ := numeric
  split_ifs at parsed
  exact parseInt64_bounds parsed

theorem compare_toNat_add {first second : Int} (firstBounds : -2 ^ 63 ≤ first)
    (secondBounds : -2 ^ 63 ≤ second) :
    compare (first + 2 ^ 63).toNat (second + 2 ^ 63).toNat = compare first second := by
  rcases Int.lt_trichotomy first second with less | rfl | greater
  · rw [Std.compare_eq_lt.mpr less, Std.compare_eq_lt.mpr (by omega)]
  · rw [Std.ReflOrd.compare_self, Std.ReflOrd.compare_self]
  · rw [Std.compare_eq_gt.mpr greater, Std.compare_eq_gt.mpr (by omega)]

theorem compare_orderedResourceId_append (first second : Text) (left right : List UInt8) :
    compare (orderedResourceId first ++ left) (orderedResourceId second ++ right) =
      (compareResourceIds first second).then (compare left right) := by
  unfold orderedResourceId compareResourceIds
  cases firstNumber : numericResourceId first with
  | none =>
    cases secondNumber : numericResourceId second with
    | none => exact compare_terminated_append _ _ _ _
    | some number => rfl
  | some number =>
    cases secondNumber : numericResourceId second with
    | none => rfl
    | some other =>
      have bounds := numericResourceId_bounds firstNumber
      have otherBounds := numericResourceId_bounds secondNumber
      change compare (0 :: (bigEndian 8 _ ++ left)) (0 :: (bigEndian 8 _ ++ right)) = _
      rw [compare_cons_cons, Std.ReflOrd.compare_self, Ordering.eq_then,
        compare_bigEndian_append (by omega) (by omega),
        compare_toNat_add bounds.1 otherBounds.1]

theorem compare_flatMap_orderedResourceId (first second : List Text) :
    compare (first.flatMap orderedResourceId) (second.flatMap orderedResourceId) =
      List.compareLex compareResourceIds first second := by
  induction first generalizing second with
  | nil =>
    cases second with
    | nil => rfl
    | cons resourceId second =>
      unfold orderedResourceId
      cases found : numericResourceId resourceId <;> simp [found] <;> rfl
  | cons resourceId first ih =>
    cases second with
    | nil =>
      unfold orderedResourceId
      cases found : numericResourceId resourceId <;> simp [found] <;> rfl
    | cons other second =>
      rw [List.flatMap_cons, List.flatMap_cons, compare_orderedResourceId_append, ih,
        List.compareLex_cons_cons]

end Firenook
