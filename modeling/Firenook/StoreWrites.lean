import Firenook.StoreValues

/-!
# Writes

One atomic mutation of a document: its precondition, the masked field updates
and the server-side transforms.  `applyWrite` computes the next state of a
document from its previous one, exactly as the store plans it.
-/

namespace Firenook

open OrderedEntries Value Text

structure FieldPath where
  segments : List Text
  nonempty : segments ≠ [] ∧ [] ∉ segments := by decide
  deriving DecidableEq

inductive Precondition
  | none
  | exists (expected : Bool)
  | updateTime (expected : Timestamp)
  deriving DecidableEq

inductive TransformOperation
  | serverTimestamp
  | increment (operand : OrderedValue)
  | arrayUnion (elements : List OrderedValue)
  | arrayRemove (elements : List OrderedValue)
  | maximum (operand : OrderedValue)
  | minimum (operand : OrderedValue)

structure FieldTransform where
  path : FieldPath
  operation : TransformOperation

inductive Write
  | create (key : DocumentKey) (fields : Fields)
  | set (key : DocumentKey) (fields : Fields) (transforms : List FieldTransform)
      (precondition : Precondition)
  | patch (key : DocumentKey) (fields : Fields) (updateMask : List FieldPath)
      (transforms : List FieldTransform) (precondition : Precondition)
  | delete (key : DocumentKey) (precondition : Precondition)
  | verify (key : DocumentKey) (precondition : Precondition)

inductive CommitError
  | alreadyExists (key : DocumentKey)
  | existencePrecondition (key : DocumentKey) (expected : Bool)
  | updateTimePrecondition (key : DocumentKey) (expected : Timestamp) (actual : Option Timestamp)
  | invalidNumericTransformOperand (key : DocumentKey) (field : FieldPath)
  | revisionExhausted
  deriving DecidableEq

def writeKey : Write → DocumentKey
  | .create key _ => key
  | .set key _ _ _ => key
  | .patch key _ _ _ _ => key
  | .delete key _ => key
  | .verify key _ => key

/-! ## Nested fields -/

namespace Value

variable {entries : List (Text × Value)} {value : Value}

def member (segment : Text) : Value → Option Value
  | .map entries => get? cmp segment entries
  | _ => none

/-- Entries of the map stored under a name; anything else counts as empty. -/
def childEntries (segment : Text) (entries : List (Text × Value)) : List (Text × Value) :=
  match get? cmp segment entries with
  | some (.map children) => children
  | _ => []

/-- The body shared by `set_nested_value` and `set_nested_map_value`. -/
def setNestedMapValue (entries : List (Text × Value)) (value : Value) :
    List Text → List (Text × Value)
  | [] => entries
  | [segment] => insert Text.cmp segment value entries
  | segment :: rest =>
    insert Text.cmp segment
      (.map (setNestedMapValue (childEntries segment entries) value rest)) entries

/-- The body shared by `delete_nested_value` and `delete_nested_map_value`. -/
def deleteNestedMapValue (entries : List (Text × Value)) : List Text → List (Text × Value)
  | [] => entries
  | [segment] => erase Text.cmp segment entries
  | segment :: rest =>
    match get? Text.cmp segment entries with
    | some (.map children) =>
      insert Text.cmp segment (.map (deleteNestedMapValue children rest)) entries
    | _ => entries

section

variable (ordered : (map entries).ordered = true)
include ordered

theorem ordered_of_get? {segment : Text}
    (found : get? cmp segment entries = some value) : value.ordered = true := by
  obtain ⟨stored, member, _⟩ := get?_mem found
  exact (ordered_map_iff.mp ordered).2 _ member

theorem ordered_insert (valueOrdered : value.ordered = true) (segment : Text) :
    (map (insert Text.cmp segment value entries)).ordered = true := by
  obtain ⟨ascending, members⟩ := ordered_map_iff.mp ordered
  refine ordered_map_iff.mpr ⟨ascending_insert ascending _ _, ?_⟩
  intro entry member
  rcases mem_insert member with rfl | member
  · exact valueOrdered
  · exact members entry member

theorem ordered_erase (segment : Text) : (map (erase Text.cmp segment entries)).ordered = true := by
  obtain ⟨ascending, members⟩ := ordered_map_iff.mp ordered
  refine ordered_map_iff.mpr ⟨ascending_erase ascending _, ?_⟩
  intro entry member
  exact members entry ((erase_sublist _ _ _).subset member)

theorem ordered_childEntries (segment : Text) :
    (map (childEntries segment entries)).ordered = true := by
  unfold childEntries
  split
  · next children found => exact ordered_of_get? ordered found
  · rfl

theorem ordered_setNestedMapValue (valueOrdered : value.ordered = true) (segments : List Text) :
    (map (setNestedMapValue entries value segments)).ordered = true := by
  fun_induction setNestedMapValue entries value segments with
  | case1 => exact ordered
  | case2 => exact ordered_insert ordered valueOrdered _
  | case3 _ _ _ _ ih =>
    exact ordered_insert ordered (ih (ordered_childEntries ordered _)) _

theorem ordered_deleteNestedMapValue (segments : List Text) :
    (map (deleteNestedMapValue entries segments)).ordered = true := by
  fun_induction deleteNestedMapValue entries segments with
  | case1 => exact ordered
  | case2 => exact ordered_erase ordered _
  | case3 _ _ _ _ _ found ih =>
    exact ordered_insert ordered (ih (ordered_of_get? ordered found)) _
  | case4 => exact ordered

end

end Value

variable {segments : List Text}

namespace Value

def nested (value : Value) : List Text → Option Value
  | [] => some value
  | segment :: rest => (value.member segment).bind (·.nested rest)

theorem ordered_nested {value found : Value}
    (ordered : value.ordered = true) (below : value.nested segments = some found) :
    found.ordered = true := by
  induction segments generalizing value with
  | nil =>
    cases below
    exact ordered
  | cons segment rest ih =>
    obtain ⟨child, isMember, below⟩ := Option.bind_eq_some_iff.mp below
    refine ih ?_ below
    cases value with
    | map entries => exact ordered_of_get? ordered isMember
    | _ => simp [member] at isMember

end Value

variable (fields : Fields)

def nestedValue : List Text → Option Value
  | [] => none
  | first :: rest =>
    (get? cmp first fields.entries).bind (·.nested rest)

theorem nestedValue_eq_nested (nonempty : segments ≠ []) :
    nestedValue fields segments = (map fields.entries).nested segments := by
  obtain ⟨first, rest, rfl⟩ := List.exists_cons_of_ne_nil nonempty
  rfl

theorem ordered_nestedValue {fields : Fields} {found : Value}
    (below : nestedValue fields segments = some found) : found.ordered = true := by
  cases segments with
  | nil => simp [nestedValue] at below
  | cons first rest =>
    obtain ⟨child, atFirst, below⟩ := Option.bind_eq_some_iff.mp below
    exact ordered_nested (ordered_of_get? fields.ordered atFirst) below

def setNestedValue (segments : List Text) (value : OrderedValue) : Fields :=
  ⟨setNestedMapValue fields.entries value.1 segments,
    ordered_setNestedMapValue fields.ordered value.2 segments⟩

def deleteNestedValue (segments : List Text) : Fields :=
  ⟨deleteNestedMapValue fields.entries segments,
    ordered_deleteNestedMapValue fields.ordered segments⟩

/-! ## Transforms -/

def int64SaturatingAdd (left right : Int64) : Int64 :=
  Int64.ofInt (max (-2 ^ 63) (min (2 ^ 63 - 1) (left.toInt + right.toInt)))

def compareIntegerDouble (integer : Int64) (double : Binary64) : Ordering :=
  if double.ge .twoPow63 then .lt
  else if double.lt .negTwoPow63 then .gt
  else
    match compare integer.toInt double.asInt64 with
    | .eq =>
      if double.hasFraction then if double.isSignNegative then .gt else .lt
      else .eq
    | ordering => ordering

/-- Both sides are numbers other than NaN wherever this is called. -/
def compareNumeric : Value → Value → Ordering
  | .integer left, .integer right => compare left.toInt right.toInt
  | .double left, .double right => (left.partialCmp right).getD .eq
  | .integer left, .double right => compareIntegerDouble left right
  | .double left, .integer right => (compareIntegerDouble right left).swap
  | _, _ => .eq

def doublesEqual (left right : Binary64) : Bool := left.eq right || (left.isNan && right.isNan)

def integerDoubleEqual (integer : Int64) (double : Binary64) : Bool :=
  if !double.isFinite || double.lt .negTwoPow63 || double.ge .twoPow63 then false
  else !double.hasFraction && integer.toInt == double.asInt64

mutual

def valuesEqual : Value → Value → Bool
  | .null, .null => true
  | .boolean left, .boolean right => left == right
  | .integer left, .integer right => left == right
  | .double left, .double right => doublesEqual left right
  | .integer left, .double right => integerDoubleEqual left right
  | .double left, .integer right => integerDoubleEqual right left
  | .timestamp left, .timestamp right => left == right
  | .string left, .string right => left == right
  | .bytes left, .bytes right => left == right
  | .reference left, .reference right => left == right
  | .geoPoint leftLatitude leftLongitude, .geoPoint rightLatitude rightLongitude =>
    doublesEqual leftLatitude rightLatitude && doublesEqual leftLongitude rightLongitude
  | .array left, .array right => allValuesEqual left right
  | .map left, .map right => entryValuesEqual left right
  | .vector left, .vector right => List.isEqv left right doublesEqual
  | _, _ => false

def allValuesEqual : List Value → List Value → Bool
  | [], [] => true
  | left :: lefts, right :: rights => valuesEqual left right && allValuesEqual lefts rights
  | _, _ => false

def entryValuesEqual : List (Text × Value) → List (Text × Value) → Bool
  | [], [] => true
  | (leftName, left) :: lefts, (rightName, right) :: rights =>
    leftName == rightName && valuesEqual left right && entryValuesEqual lefts rights
  | _, _ => false

end

def Value.isNumeric : Value → Bool
  | .integer _ => true
  | .double _ => true
  | _ => false

def Value.isNanDouble : Value → Bool
  | .double value => value.isNan
  | _ => false

variable (current : Option Value)

def incrementValue (operand : Value) : Value :=
  match current, operand with
  | some (.integer left), .integer right => .integer (int64SaturatingAdd left right)
  | some (.integer left), .double right => .double ((Binary64.ofInt64 left).add right)
  | some (.double left), .integer right => .double (left.add (Binary64.ofInt64 right))
  | some (.double left), .double right => .double (left.add right)
  | _, operand => operand

def numericBoundValue (operand : Value) (replaceWhen : Ordering)
    (key : DocumentKey) (field : FieldPath) : Except CommitError Value :=
  if !operand.isNumeric then throw (.invalidNumericTransformOperand key field)
  else
    match current with
    | none => pure operand
    | some current =>
      if !current.isNumeric then pure operand
      else if current.isNanDouble then pure current
      else if operand.isNanDouble then pure operand
      else if compareNumeric current operand = replaceWhen then pure operand
      else pure current

/-- The elements of a current array; anything else counts as empty. -/
def currentElements : Option Value → List Value
  | some (.array values) => values
  | _ => []

def arrayUnion (current : List Value) (elements : List OrderedValue) : List Value :=
  elements.foldl
    (fun result element =>
      if result.any (valuesEqual · element.1) then result else result ++ [element.1])
    current

def arrayRemove (current : List Value) (elements : List OrderedValue) : List Value :=
  current.filter fun existing => !elements.any fun element => valuesEqual existing element.1

def transformedValue (transform : FieldTransform)
    (transformTime : Timestamp) (key : DocumentKey) : Except CommitError Value :=
  match transform.operation with
  | .serverTimestamp => pure (.timestamp transformTime)
  | .increment operand =>
    if !operand.1.isNumeric then throw (.invalidNumericTransformOperand key transform.path)
    else pure (incrementValue current operand.1)
  | .arrayUnion elements => pure (.array (arrayUnion (currentElements current) elements))
  | .arrayRemove elements => pure (.array (arrayRemove (currentElements current) elements))
  | .maximum operand => numericBoundValue current operand.1 .lt key transform.path
  | .minimum operand => numericBoundValue current operand.1 .gt key transform.path

section TransformOrder

variable {current : Option Value}
  (currentOrdered : ∀ value, current = some value → value.ordered = true)

include currentOrdered

theorem ordered_currentElements : ∀ value ∈ currentElements current, value.ordered = true := by
  unfold currentElements
  split
  · next values => exact allOrdered_iff.mp (currentOrdered _ rfl)
  · simp

theorem ordered_incrementValue (operand : OrderedValue) :
    (incrementValue current operand.1).ordered = true := by
  unfold incrementValue
  split
  all_goals first | rfl | exact operand.2

theorem ordered_numericBoundValue {operand : OrderedValue} {replaceWhen : Ordering}
    {key : DocumentKey} {field : FieldPath} {value : Value}
    (computed : numericBoundValue current operand.1 replaceWhen key field = .ok value) :
    value.ordered = true := by
  have choice : value = operand.1 ∨ current = some value := by
    cases current with
    | none =>
      simp only [numericBoundValue] at computed
      split_ifs at computed
      cases computed
      exact .inl rfl
    | some present =>
      simp only [numericBoundValue] at computed
      split_ifs at computed <;> cases computed <;> simp
  rcases choice with rfl | stored
  · exact operand.2
  · exact currentOrdered value stored

omit currentOrdered in
theorem ordered_arrayUnion {existing : List Value}
    (existingOrdered : ∀ value ∈ existing, value.ordered = true)
    (elements : List OrderedValue) :
    ∀ value ∈ arrayUnion existing elements, value.ordered = true := by
  induction elements generalizing existing with
  | nil => exact existingOrdered
  | cons element elements ih =>
    refine ih ?_
    dsimp only
    split_ifs
    · exact existingOrdered
    · intro value member
      rcases List.mem_append.mp member with member | member
      · exact existingOrdered value member
      · cases List.mem_singleton.mp member
        exact element.2

theorem ordered_transformedValue {transform : FieldTransform} {transformTime : Timestamp}
    {key : DocumentKey} {value : Value}
    (computed : transformedValue current transform transformTime key = .ok value) :
    value.ordered = true := by
  unfold transformedValue at computed
  split at computed
  · cases computed
    rfl
  · split_ifs at computed
    cases computed
    exact ordered_incrementValue currentOrdered _
  · cases computed
    exact allOrdered_iff.mpr (ordered_arrayUnion (ordered_currentElements currentOrdered) _)
  · cases computed
    refine allOrdered_iff.mpr fun value member => ?_
    exact ordered_currentElements currentOrdered value (List.mem_filter.mp member).1
  · exact ordered_numericBoundValue currentOrdered computed
  · exact ordered_numericBoundValue currentOrdered computed

end TransformOrder

def applyTransform (transform : FieldTransform)
    (transformTime : Timestamp) (key : DocumentKey) : Except CommitError Fields :=
  match computed : transformedValue (nestedValue fields transform.path.segments)
      transform transformTime key with
  | .error error => .error error
  | .ok value =>
    .ok (setNestedValue fields transform.path.segments
      ⟨value, ordered_transformedValue (fun _ => ordered_nestedValue) computed⟩)

def applyTransforms (transforms : List FieldTransform)
    (transformTime : Timestamp) (key : DocumentKey) : Except CommitError Fields :=
  transforms.foldlM (fun fields transform => applyTransform fields transform transformTime key)
    fields

/-! ## Applying a write -/

def validatePrecondition (key : DocumentKey) (document : Option Document) :
    Precondition → Except CommitError Unit
  | .none => pure ()
  | .exists expected =>
    if document.isSome = expected then pure ()
    else throw (.existencePrecondition key expected)
  | .updateTime expected =>
    if document.any fun document => document.updateTime = expected then pure ()
    else throw (.updateTimePrecondition key expected (document.map Document.updateTime))

/-- A document's masked fields: paths present in the source are assigned, absent
paths are deleted. -/
def applyUpdateMask (next source : Fields) (updateMask : List FieldPath) : Fields :=
  updateMask.foldl
    (fun next path =>
      match found : nestedValue source path.segments with
      | some value => setNestedValue next path.segments ⟨value, ordered_nestedValue found⟩
      | none => deleteNestedValue next path.segments)
    next

def nextDocument (previous : Option Document) (commitTime : Timestamp) :
    Write → Except CommitError (Option Document)
  | .create key fields =>
    if previous.isSome then throw (.alreadyExists key)
    else pure (some ⟨fields, commitTime, commitTime⟩)
  | .set key fields transforms precondition => do
    validatePrecondition key previous precondition
    let nextFields ← applyTransforms fields transforms commitTime key
    if transforms.isEmpty && previous.any fun document => document.fields.eq nextFields then
      pure previous
    else
      pure (some ⟨nextFields, previous.elim commitTime Document.createTime, commitTime⟩)
  | .patch key fields updateMask transforms precondition => do
    validatePrecondition key previous precondition
    let masked := applyUpdateMask (previous.elim .empty Document.fields) fields updateMask
    let nextFields ← applyTransforms masked transforms commitTime key
    pure (some ⟨nextFields, previous.elim commitTime Document.createTime, commitTime⟩)
  | .delete key precondition => do
    validatePrecondition key previous precondition
    pure none
  | .verify key precondition => do
    validatePrecondition key previous precondition
    pure previous

abbrev DocumentMap := Std.ExtTreeMap DocumentKey Document

def applyWrite (documents : DocumentMap) (write : Write) (commitTime : Timestamp) :
    Except CommitError (DocumentKey × Option Document) := do
  let next ← nextDocument documents[writeKey write]? commitTime write
  pure (writeKey write, next)

end Firenook
