import Firenook.Binary64
import Firenook.OrderedEntries
import Firenook.ResourceNames

/-!
# Stored values

Timestamps, typed field values and documents of the store.  Maps are lists of
entries in ascending field-name order; `Fields` and `OrderedValue` carry that
order for every map nested inside, as `BTreeMap` does by construction.  Equality
of documents is the derived `PartialEq`, which differs from identity on doubles
alone.
-/

namespace Firenook

/-! ## Timestamps -/

structure Timestamp where
  seconds : Int
  nanos : Nat
  secondsBound : -2 ^ 63 ≤ seconds ∧ seconds < 2 ^ 63 := by decide
  nanosBound : nanos < 1000000000 := by decide
  deriving DecidableEq

namespace Timestamp

def maxSeconds : Int := 2 ^ 63 - 1

def epoch : Timestamp := ⟨0, 0, by decide, by decide⟩

def instant (time : Timestamp) : Int := time.seconds * 1000000000 + time.nanos

theorem instant_injective : Function.Injective instant := by
  rintro ⟨seconds, nanos, _, bound⟩ ⟨seconds', nanos', _, bound'⟩ equal
  simp only [instant] at equal
  simp only [mk.injEq]
  omega

instance : LT Timestamp where
  lt left right := left.seconds < right.seconds ∨
    left.seconds = right.seconds ∧ left.nanos < right.nanos

instance : LE Timestamp where
  le left right := ¬ right < left

instance (left right : Timestamp) : Decidable (left < right) :=
  inferInstanceAs (Decidable (left.seconds < right.seconds ∨
    left.seconds = right.seconds ∧ left.nanos < right.nanos))

instance (left right : Timestamp) : Decidable (left ≤ right) :=
  inferInstanceAs (Decidable (¬ right < left))

theorem lt_iff_instant {left right : Timestamp} : left < right ↔ left.instant < right.instant := by
  have := left.nanosBound
  have := right.nanosBound
  change left.seconds < right.seconds ∨ left.seconds = right.seconds ∧ left.nanos < right.nanos ↔ _
  simp only [instant]
  omega

theorem le_iff_instant {left right : Timestamp} : left ≤ right ↔ left.instant ≤ right.instant := by
  change ¬ right < left ↔ _
  rw [lt_iff_instant]
  omega

instance : Preorder Timestamp where
  le_refl time := le_iff_instant.mpr le_rfl
  le_trans first second third := by
    simp only [le_iff_instant]
    exact le_trans
  lt_iff_le_not_ge first second := by
    simp only [lt_iff_instant, le_iff_instant]
    exact lt_iff_le_not_ge

instance : Ord Timestamp where
  compare := compareLex (compareOn fun time => time.seconds) (compareOn fun time => time.nanos)

instance : Std.TransOrd Timestamp := inferInstanceAs (Std.TransCmp (compareLex _ _))

instance : Std.LawfulEqOrd Timestamp :=
  lawfulEqCmp_compareLex fun secondsEq nanosEq =>
    instant_injective (by simp [instant, secondsEq, nanosEq])

/-- The next whole microsecond; the seconds saturate at `i64::MAX`. -/
def saturatingNextMicrosecond (time : Timestamp) : Timestamp :=
  let microseconds := time.nanos / 1000
  if within : microseconds < 999999 then
    ⟨time.seconds, (microseconds + 1) * 1000, time.secondsBound, by omega⟩
  else
    ⟨min (time.seconds + 1) maxSeconds, 0,
      by have := time.secondsBound; simp only [maxSeconds]; omega, by decide⟩

theorem lt_saturatingNextMicrosecond {time : Timestamp}
    (below : time.seconds < maxSeconds) : time < time.saturatingNextMicrosecond := by
  have := time.nanosBound
  rw [lt_iff_instant]
  simp only [saturatingNextMicrosecond] at below ⊢
  split <;> simp only [instant] <;> omega

end Timestamp

/-! ## Values -/

inductive Value
  | null
  | boolean (value : Bool)
  | integer (value : Int64)
  | double (value : Binary64)
  | timestamp (value : Timestamp)
  | string (value : Text)
  | bytes (value : List UInt8)
  | reference (value : Text)
  | geoPoint (latitude longitude : Binary64)
  | array (values : List Value)
  | map (entries : List (Text × Value))
  | vector (values : List Binary64)

namespace Value

mutual

/-- Every map inside the value has its entries in ascending key order. -/
def ordered : Value → Bool
  | .array values => allOrdered values
  | .map entries =>
    decide (OrderedEntries.Ascending Text.cmp entries) && entriesOrdered entries
  | _ => true

def allOrdered : List Value → Bool
  | [] => true
  | value :: values => value.ordered && allOrdered values

def entriesOrdered : List (Text × Value) → Bool
  | [] => true
  | (_, value) :: entries => value.ordered && entriesOrdered entries

end

@[elab_as_elim]
theorem inductOn {motive : Value → Prop} (value : Value)
    (null : motive .null) (boolean : ∀ value, motive (.boolean value))
    (integer : ∀ value, motive (.integer value)) (double : ∀ value, motive (.double value))
    (timestamp : ∀ value, motive (.timestamp value))
    (string : ∀ value, motive (.string value)) (bytes : ∀ value, motive (.bytes value))
    (reference : ∀ value, motive (.reference value))
    (geoPoint : ∀ latitude longitude, motive (.geoPoint latitude longitude))
    (array : ∀ values, (∀ value ∈ values, motive value) → motive (.array values))
    (map : ∀ entries, (∀ entry ∈ entries, motive entry.2) → motive (.map entries))
    (vector : ∀ values, motive (.vector values)) : motive value := by
  refine @Value.rec motive (fun values => ∀ value ∈ values, motive value)
    (fun entries => ∀ entry ∈ entries, motive entry.2) (fun entry => motive entry.2)
    null boolean integer double timestamp string bytes reference geoPoint array map vector
    (by simp) ?_ (by simp) ?_ (fun _ _ holds => holds) value
  · intro first rest firstHolds restHolds other member
    rcases List.mem_cons.mp member with rfl | member
    · exact firstHolds
    · exact restHolds other member
  · intro first rest firstHolds restHolds other member
    rcases List.mem_cons.mp member with rfl | member
    · exact firstHolds
    · exact restHolds other member

theorem allOrdered_iff {values : List Value} :
    allOrdered values = true ↔ ∀ value ∈ values, value.ordered = true := by
  induction values with
  | nil => simp [allOrdered]
  | cons value values ih => simp [allOrdered, ih]

theorem entriesOrdered_iff {entries : List (Text × Value)} :
    entriesOrdered entries = true ↔ ∀ entry ∈ entries, entry.2.ordered = true := by
  induction entries with
  | nil => simp [entriesOrdered]
  | cons entry entries ih => simp [entriesOrdered, ih]

theorem ordered_map_iff {entries : List (Text × Value)} :
    (map entries).ordered = true ↔
      OrderedEntries.Ascending Text.cmp entries ∧ ∀ entry ∈ entries, entry.2.ordered = true := by
  simp [ordered, entriesOrdered_iff]

mutual

/-- The derived `PartialEq`: doubles compare as numbers. -/
def eq : Value → Value → Bool
  | .null, .null => true
  | .boolean left, .boolean right => left == right
  | .integer left, .integer right => left == right
  | .double left, .double right => left.eq right
  | .timestamp left, .timestamp right => left == right
  | .string left, .string right => left == right
  | .bytes left, .bytes right => left == right
  | .reference left, .reference right => left == right
  | .geoPoint leftLatitude leftLongitude, .geoPoint rightLatitude rightLongitude =>
    leftLatitude.eq rightLatitude && leftLongitude.eq rightLongitude
  | .array left, .array right => eqAll left right
  | .map left, .map right => eqEntries left right
  | .vector left, .vector right => List.isEqv left right Binary64.eq
  | _, _ => false

def eqAll : List Value → List Value → Bool
  | [], [] => true
  | left :: lefts, right :: rights => left.eq right && eqAll lefts rights
  | _, _ => false

def eqEntries : List (Text × Value) → List (Text × Value) → Bool
  | [], [] => true
  | (leftName, left) :: lefts, (rightName, right) :: rights =>
    leftName == rightName && left.eq right && eqEntries lefts rights
  | _, _ => false

end

end Value

abbrev OrderedValue := { value : Value // value.ordered = true }

structure Fields where
  entries : List (Text × Value)
  ordered : (Value.map entries).ordered = true := by decide

namespace Fields

def empty : Fields := ⟨[], rfl⟩

def eq (left right : Fields) : Bool := Value.eqEntries left.entries right.entries

@[ext]
theorem ext {left right : Fields} (entriesEq : left.entries = right.entries) : left = right := by
  cases left
  simp_all

end Fields

structure Document where
  fields : Fields
  createTime : Timestamp
  updateTime : Timestamp

def Document.eq (left right : Document) : Bool :=
  left.fields.eq right.fields && left.createTime == right.createTime &&
    left.updateTime == right.updateTime

/-! ## Logical sizes -/

def u64Max : Nat := 2 ^ 64 - 1

def saturatingAdd (left right : Nat) : Nat := min (left + right) u64Max

/-- `u64::try_from(value).unwrap_or(u64::MAX)`. -/
def usizeToU64 (value : Nat) : Nat := min value u64Max

def databaseNameLogicalBytes (database : DatabaseName) : Nat :=
  saturatingAdd (usizeToU64 database.projectId.byteLength)
    (usizeToU64 database.databaseId.byteLength)

def documentKeyLogicalBytes (key : DocumentKey) : Nat :=
  saturatingAdd (databaseNameLogicalBytes key.database) (usizeToU64 key.path.byteLength)

mutual

def valueLogicalBytes : Value → Nat
  | .null => 0
  | .boolean _ => 1
  | .integer _ => 8
  | .double _ => 8
  | .timestamp _ => 12
  | .string value => usizeToU64 value.byteLength
  | .reference value => usizeToU64 value.byteLength
  | .bytes value => usizeToU64 value.length
  | .geoPoint _ _ => 16
  | .array values => valuesLogicalBytes 0 values
  | .map entries => entriesLogicalBytes 0 entries
  | .vector values => min (usizeToU64 values.length * 8) u64Max

def valuesLogicalBytes (total : Nat) : List Value → Nat
  | [] => total
  | value :: values =>
    valuesLogicalBytes (saturatingAdd total (valueLogicalBytes value)) values

def entriesLogicalBytes (total : Nat) : List (Text × Value) → Nat
  | [] => total
  | (name, value) :: entries =>
    entriesLogicalBytes
      (saturatingAdd (saturatingAdd total (usizeToU64 name.byteLength))
        (valueLogicalBytes value)) entries

end

def fieldsLogicalBytes (fields : Fields) : Nat := entriesLogicalBytes 0 fields.entries

def documentLogicalBytes (document : Document) : Nat :=
  saturatingAdd (fieldsLogicalBytes document.fields) 24

def documentEntryLogicalBytes (key : DocumentKey) (document : Document) : Nat :=
  saturatingAdd (documentKeyLogicalBytes key) (documentLogicalBytes document)

end Firenook
