import Firenook.Runs
import Firenook.Text

/-!
# Byte readers

Readers consume a byte sequence from the front and may fail.  A reader *reads* an
encoding as a value when it takes exactly that encoding off any input that starts
with it; this relation composes along sequencing, so the correctness of a decoder
follows the shape of its program.  The file also contains the primitive formats of
bincode's standard configuration: little-endian words, variable-length integers
with their one-byte markers, zigzag signed integers and length-prefixed bytes.
-/

namespace Firenook

variable {number : Nat} {encoding : List UInt8}

inductive DecodeError
  | unexpectedEnd (additional : Nat)
  | invalidIntegerType
  | invalidBooleanValue
  | utf8
  | other (message : Text)
  deriving DecidableEq

abbrev Decoder := StateT (List UInt8) (Except DecodeError)

namespace Decoder

variable {encoding : List UInt8}

/-- The decoder takes the encoding off the front of the input, whatever follows. -/
def Reads {α : Type} (decoder : Decoder α) (encoding : List UInt8) (value : α) : Prop :=
  ∀ rest, decoder.run (encoding ++ rest) = .ok (value, rest)

theorem reads_pure {α : Type} (value : α) : Reads (pure value) [] value := by
  intro rest
  rfl

variable {α β : Type} {value : α}

theorem Reads.run_bind {decoder : Decoder α}
    (reads : Reads decoder encoding value) (next : α → Decoder β) (rest : List UInt8) :
    (decoder >>= next).run (encoding ++ rest) = (next value).run rest := by
  rw [StateT.run_bind, reads]
  rfl

variable {next : α → Decoder β}

theorem Reads.bind {decoder : Decoder α} {first second : List UInt8} {result : β}
    (readsFirst : Reads decoder first value) (readsSecond : Reads (next value) second result) :
    Reads (decoder >>= next) (first ++ second) result := by
  intro rest
  rw [List.append_assoc, readsFirst.run_bind]
  exact readsSecond rest

theorem Reads.map {decoder : Decoder α} (reads : Reads decoder encoding value) (f : α → β) :
    Reads (do let value ← decoder; pure (f value)) encoding (f value) := by
  intro rest
  rw [StateT.run_bind, reads]
  rfl

theorem run_bind_eq_ok {decoder : Decoder α} {bytes : List UInt8} {result : β × List UInt8} :
    (decoder >>= next).run bytes = .ok result ↔
      ∃ value unread, decoder.run bytes = .ok (value, unread) ∧
        (next value).run unread = .ok result := by
  rw [StateT.run_bind, bind_eq_ok, Prod.exists]

/-- The decoder finds the value in the encoding but may stop before its end, or
read on. -/
def Returns {α : Type} (decoder : Decoder α) (encoding : List UInt8) (value : α) : Prop :=
  ∀ rest, ∃ unread, decoder.run (encoding ++ rest) = .ok (value, unread)

theorem Reads.returns {α : Type} {decoder : Decoder α} {value : α}
    (reads : Reads decoder encoding value) : Returns decoder encoding value :=
  fun rest => ⟨rest, reads rest⟩

theorem returns_pure {α : Type} (value : α) (encoding : List UInt8) :
    Returns (pure value) encoding value :=
  fun rest => ⟨encoding ++ rest, rfl⟩

theorem Reads.bind_returns {decoder : Decoder α} {first second : List UInt8} {result : β}
    (readsFirst : Reads decoder first value) (returns : Returns (next value) second result) :
    Returns (decoder >>= next) (first ++ second) result := by
  intro rest
  rw [List.append_assoc, readsFirst.run_bind]
  exact returns rest

def replicate {α : Type} (decoder : Decoder α) : Nat → Decoder (List α)
  | 0 => pure []
  | count + 1 => do
    let value ← decoder
    let values ← replicate decoder count
    pure (value :: values)

theorem reads_replicate {decoder : Decoder β} {encode : α → List UInt8}
    {result : α → β} {values : List α}
    (reads : ∀ value ∈ values, Reads decoder (encode value) (result value)) :
    Reads (replicate decoder values.length) (values.flatMap encode) (values.map result) := by
  induction values with
  | nil => exact reads_pure []
  | cons value values ih =>
    have readsRest := ih (List.forall_mem_cons.mp reads).2
    exact (reads value List.mem_cons_self).bind (readsRest.map _)

end Decoder

open Decoder

/-! ## Words -/

def littleEndian : Nat → Nat → List UInt8
  | 0, _ => []
  | width + 1, number => UInt8.ofNat (number % 256) :: littleEndian width (number / 256)

def fromLittleEndian : List UInt8 → Nat
  | [] => 0
  | byte :: bytes => byte.toNat + 256 * fromLittleEndian bytes

@[simp]
theorem length_littleEndian (width number : Nat) : (littleEndian width number).length = width := by
  induction width generalizing number with
  | zero => rfl
  | succ width ih => simp [littleEndian, ih]

theorem fromLittleEndian_littleEndian {width : Nat} (bounded : number < 256 ^ width) :
    fromLittleEndian (littleEndian width number) = number := by
  induction width generalizing number with
  | zero =>
    simp only [pow_zero, Nat.lt_one_iff] at bounded
    simp [littleEndian, fromLittleEndian, bounded]
  | succ width ih =>
    have quotient : number / 256 < 256 ^ width := by
      exact Nat.div_lt_of_lt_mul (by rwa [Nat.mul_comm])
    simp only [littleEndian, fromLittleEndian, ih quotient, UInt8.toNat_ofNat']
    omega

def readExact (count : Nat) : Decoder (List UInt8) := fun bytes =>
  if count ≤ bytes.length then .ok (bytes.take count, bytes.drop count)
  else .error (.unexpectedEnd (count - bytes.length))

theorem reads_readExact {count : Nat}
    (lengthEq : encoding.length = count) : Reads (readExact count) encoding encoding := by
  subst lengthEq
  intro rest
  simp [readExact, StateT.run]

/-- `Reader::peek_read` followed by `Reader::consume`. -/
def peekConsume (count : Nat) : Decoder (List UInt8) := fun bytes =>
  if count ≤ bytes.length then .ok (bytes.take count, bytes.drop count)
  else .error (.unexpectedEnd count)

theorem reads_peekConsume {count : Nat}
    (lengthEq : encoding.length = count) : Reads (peekConsume count) encoding encoding := by
  subst lengthEq
  intro rest
  simp [peekConsume, StateT.run]

def readWord (width : Nat) : Decoder Nat := do
  let bytes ← readExact width
  pure (fromLittleEndian bytes)

theorem reads_readWord (width : Nat) (bounded : number < 256 ^ width) :
    Reads (readWord width) (littleEndian width number) number := by
  have reads := (reads_readExact (length_littleEndian width number)).map fromLittleEndian
  rwa [fromLittleEndian_littleEndian bounded] at reads

/-! ## Variable-length integers -/

def encodeVarint (number : Nat) : List UInt8 :=
  if number < 251 then [UInt8.ofNat number]
  else if number < 2 ^ 16 then 251 :: littleEndian 2 number
  else if number < 2 ^ 32 then 252 :: littleEndian 4 number
  else 253 :: littleEndian 8 number

def decodeVarint (lastMarker : Nat) : Decoder Nat := do
  let marker ← readWord 1
  if marker < 251 then pure marker
  else if marker > lastMarker then throw .invalidIntegerType
  else if marker = 251 then readWord 2
  else if marker = 252 then readWord 4
  else if marker = 253 then readWord 8
  else throw .invalidIntegerType

def decodeU64 : Decoder Nat := decodeVarint 253

def decodeU32 : Decoder Nat := decodeVarint 252

private theorem reads_marker {α : Type} (marker : Nat) (small : marker < 256)
    {next : Nat → Decoder α} {value : α} (reads : Reads (next marker) encoding value) :
    Reads (readWord 1 >>= next) (UInt8.ofNat marker :: encoding) value := by
  have first : Reads (readWord 1) [UInt8.ofNat marker] marker := by
    have word : Reads (readWord 1) (littleEndian 1 marker) marker :=
      reads_readWord 1 (by simpa using small)
    rwa [littleEndian, Nat.mod_eq_of_lt small] at word
  exact first.bind reads

theorem reads_decodeVarint {lastMarker : Nat} (bounded : number < 2 ^ 64)
    (admitted : lastMarker = 253 ∨ lastMarker = 252 ∧ number < 2 ^ 32) :
    Reads (decodeVarint lastMarker) (encodeVarint number) number := by
  unfold encodeVarint decodeVarint
  split_ifs with one two four
  · apply reads_marker number (by omega)
    rw [if_pos one]
    exact reads_pure number
  · apply reads_marker 251 (by decide)
    rw [if_neg (by decide), if_neg (by omega)]
    exact reads_readWord _ (by omega)
  · apply reads_marker 252 (by decide)
    rw [if_neg (by decide), if_neg (by omega)]
    exact reads_readWord _ (by omega)
  · apply reads_marker 253 (by decide)
    rw [if_neg (by decide), if_neg (by omega)]
    exact reads_readWord _ (by omega)

theorem reads_decodeU64 (bounded : number < 2 ^ 64) :
    Reads decodeU64 (encodeVarint number) number :=
  reads_decodeVarint bounded (.inl rfl)

theorem reads_decodeU32 (bounded : number < 2 ^ 32) :
    Reads decodeU32 (encodeVarint number) number :=
  reads_decodeVarint (by omega) (.inr ⟨rfl, bounded⟩)

theorem encodeVarint_ne_nil (number : Nat) : encodeVarint number ≠ [] := by
  unfold encodeVarint
  split_ifs <;> simp

theorem head?_encodeVarint {byte : UInt8}
    (first : (encodeVarint number).head? = some byte) : byte.toNat ≤ 253 := by
  unfold encodeVarint at first
  split_ifs at first with one
  · cases first
    simp only [UInt8.toNat_ofNat']
    omega
  all_goals
    cases first
    decide

/-! ## Signed integers, floats and byte strings -/

def zigzag (number : Int) : Nat :=
  if 0 ≤ number then (2 * number).toNat else (-2 * number - 1).toNat

def unzigzag (code : Nat) : Int := if code % 2 = 0 then (code / 2 : Nat) else -(code / 2 : Nat) - 1

@[simp]
theorem unzigzag_zigzag (number : Int) : unzigzag (zigzag number) = number := by
  unfold zigzag unzigzag
  split_ifs <;> omega

theorem zigzag_lt {number : Int} (bounds : -2 ^ 63 ≤ number ∧ number < 2 ^ 63) :
    zigzag number < 2 ^ 64 := by
  unfold zigzag
  split_ifs <;> omega

def encodeI64 (number : Int) : List UInt8 := encodeVarint (zigzag number)

def decodeI64 : Decoder Int := do
  let code ← decodeU64
  pure (unzigzag code)

theorem reads_decodeI64 {number : Int} (bounds : -2 ^ 63 ≤ number ∧ number < 2 ^ 63) :
    Reads decodeI64 (encodeI64 number) number := by
  have reads := (reads_decodeU64 (zigzag_lt bounds)).map unzigzag
  rwa [unzigzag_zigzag] at reads

def encodeBytes (bytes : List UInt8) : List UInt8 := encodeVarint bytes.length ++ bytes

def decodeBytes : Decoder (List UInt8) := do
  let length ← decodeU64
  readExact length

theorem reads_decodeBytes {bytes : List UInt8} (bounded : bytes.length < 2 ^ 64) :
    Reads decodeBytes (encodeBytes bytes) bytes :=
  (reads_decodeU64 bounded).bind (reads_readExact rfl)

def encodeText (text : Text) : List UInt8 := encodeBytes text.bytes

def textOfBytes (bytes : List UInt8) : Decoder Text :=
  match Text.fromUtf8 bytes with
  | some text => pure text
  | none => throw .utf8

theorem reads_textOfBytes (text : Text) : Reads (textOfBytes text.bytes) [] text := by
  unfold textOfBytes
  rw [Text.fromUtf8_bytes]
  exact reads_pure text

def decodeText : Decoder Text := do
  let bytes ← decodeBytes
  textOfBytes bytes

theorem reads_decodeText {text : Text} (bounded : text.byteLength < 2 ^ 64) :
    Reads decodeText (encodeText text) text := by
  have reads := (reads_decodeBytes bounded).bind (reads_textOfBytes text)
  rwa [List.append_nil] at reads

def encodeBool (value : Bool) : List UInt8 := [if value then 1 else 0]

def decodeBool : Decoder Bool := do
  let byte ← readWord 1
  if byte = 0 then pure false
  else if byte = 1 then pure true
  else throw .invalidBooleanValue

theorem reads_decodeBool (value : Bool) : Reads decodeBool (encodeBool value) value := by
  cases value <;> (intro rest; rfl)

end Firenook
