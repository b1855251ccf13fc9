import Firenook.StoreValues

/-!
# Values of the rules language

The typed values that Security Rules compute with, the requests they judge and the
constraints a query places on its results.  Maps are lists of entries in ascending
key order, as in the store.  Equality and order are the language's own: integers and
floats with the same value are equal, and two NaNs are.
-/

namespace Firenook.Rules

/-! ## Values -/

structure RulesDuration where
  seconds : Int
  nanoseconds : Int
  deriving DecidableEq

namespace RulesDuration

/-- Seconds saturate at the bounds of `i64`. -/
def fromNanoseconds (total : Int) : RulesDuration where
  seconds := max (-2 ^ 63) (min (2 ^ 63 - 1) (total / 1000000000))
  nanoseconds := total % 1000000000

def totalNanoseconds (duration : RulesDuration) : Int :=
  duration.seconds * 1000000000 + duration.nanoseconds

end RulesDuration

structure LatLng where
  latitude : Binary64
  longitude : Binary64
  deriving DecidableEq

inductive Value
  | null
  | bool (value : Bool)
  | integer (value : Int64)
  | float (value : Binary64)
  | string (value : Text)
  | list (values : List Value)
  | map (entries : List (Text × Value))
  | timestamp (value : Timestamp)
  | duration (value : RulesDuration)
  | path (value : Text)
  | bytes (value : List UInt8)
  | latLng (value : LatLng)

/-- `BTreeMap<String, Value>`. -/
abbrev Entries := List (Text × Value)

namespace Entries

variable (name : Text)

def get? (entries : Entries) : Option Value :=
  OrderedEntries.get? Text.cmp name entries

def insert (value : Value) (entries : Entries) : Entries :=
  OrderedEntries.insert Text.cmp name value entries

/-- Collecting pairs into a map: later pairs replace earlier ones. -/
def collect (pairs : List (Text × Value)) : Entries :=
  pairs.foldl (fun entries pair => insert pair.1 pair.2 entries) []

def containsKey (entries : Entries) : Bool := (entries.get? name).isSome

end Entries

mutual

def rulesEqual : Value → Value → Bool
  | .null, .null => true
  | .bool left, .bool right => left == right
  | .integer left, .integer right => left == right
  | .integer left, .float right =>
    right.isFinite && !right.hasFraction && (Binary64.ofInt64 left).eq right
  | .float left, .integer right =>
    left.isFinite && !left.hasFraction && (Binary64.ofInt64 right).eq left
  | .float left, .float right => (left.isNan && right.isNan) || left.eq right
  | .string left, .string right => left == right
  | .list left, .list right => left.length == right.length && pairsEqual left right
  | .map left, .map right => left.length == right.length && entriesEqual left right
  | .timestamp left, .timestamp right => left == right
  | .duration left, .duration right => left == right
  | .path left, .path right => left == right
  | .bytes left, .bytes right => left == right
  | .latLng left, .latLng right =>
    left.latitude.eq right.latitude && left.longitude.eq right.longitude
  | _, _ => false

/-- Members at the same position are equal, as far as both lists go. -/
def pairsEqual : List Value → List Value → Bool
  | left :: lefts, right :: rights => rulesEqual left right && pairsEqual lefts rights
  | _, _ => true

def entriesEqual : List (Text × Value) → List (Text × Value) → Bool
  | [], _ => true
  | (name, left) :: lefts, rights =>
    (match Entries.get? name rights with
      | some right => rulesEqual left right
      | none => false) && entriesEqual lefts rights

end

/-! ## Failures -/

structure ExpressionKey where
  start : Nat
  stop : Nat
  deriving DecidableEq

structure RuntimeError where
  message : Text
  expressionKey : Option ExpressionKey
  deriving DecidableEq

namespace RuntimeError

def new (message : Text) : RuntimeError := ⟨message, none⟩

/-- The innermost expression that failed is kept on propagation. -/
def locate (key : ExpressionKey) (error : RuntimeError) : RuntimeError :=
  { error with expressionKey := error.expressionKey.or (some key) }

end RuntimeError

abbrev Outcome := Except RuntimeError

def failure {α : Type} (message : String) : Outcome α := .error (.new message.toList)

/-! ## Requests -/

structure Resource where
  name : Text
  data : Entries
  createTime : Option Timestamp
  updateTime : Option Timestamp

inductive RulesService
  | cloudFirestore
  | firebaseStorage
  deriving DecidableEq

/-- The Cloud Storage object exposed as `resource` and `request.resource`. -/
structure StorageObject where
  name : Text
  bucket : Text
  generation : Int64
  metageneration : Int64
  size : Int64
  timeCreated : Timestamp
  updated : Timestamp
  md5Hash : Text
  crc32c : Text
  etag : Text
  contentDisposition : Option Text
  contentEncoding : Option Text
  contentType : Option Text
  metadata : List (Text × Text)

def optionalText (text : Option Text) : Value := text.elim .null .string

def StorageObject.toValue (object : StorageObject) : Value :=
  .map (Entries.collect [
    ("name".toList, .string object.name),
    ("bucket".toList, .string object.bucket),
    ("generation".toList, .integer object.generation),
    ("metageneration".toList, .integer object.metageneration),
    ("size".toList, .integer object.size),
    ("timeCreated".toList, .timestamp object.timeCreated),
    ("updated".toList, .timestamp object.updated),
    ("md5Hash".toList, .string object.md5Hash),
    ("crc32c".toList, .string object.crc32c),
    ("etag".toList, .string object.etag),
    ("contentDisposition".toList, optionalText object.contentDisposition),
    ("contentEncoding".toList, optionalText object.contentEncoding),
    ("contentType".toList, optionalText object.contentType),
    ("metadata".toList, .map (object.metadata.map fun entry => (entry.1, .string entry.2)))])

structure Auth where
  uid : Option Text
  token : Entries

/-- Domain of document paths whose access a list request must prove. -/
inductive QueryScope
  | collection (path : Text)
  | collectionGroup (collectionId : Text) (ancestor : Option Text)

/-- A constraint operator, kept separate from executable row filtering. -/
inductive ConstraintOperator
  | equal
  | greater
  | greaterEqual
  | less
  | lessEqual
  | notEqual
  | isIn
  | notIn
  | arrayContains
  | arrayContainsAny
  deriving DecidableEq

structure FieldConstraint where
  field : List Text
  operator : ConstraintOperator
  value : Value

inductive QueryFilter
  | field (constraint : FieldConstraint)
  | and (filters : List QueryFilter)
  | or (filters : List QueryFilter)

structure Query where
  limit : Option Int64 := none
  offset : Option Int64 := none
  orderBy : List (Text × Text) := []
  filter : Option QueryFilter := none
  scope : Option QueryScope := none

inductive RequestOperation
  | get
  | list
  | create
  | update
  | delete
  deriving DecidableEq

structure EvaluationRequest where
  service : RulesService
  operation : RequestOperation
  path : Text
  auth : Option Auth
  time : Timestamp
  resource : Option Resource
  requestResource : Option Resource
  query : Query
  storageResource : Option StorageObject
  storageRequestResource : Option StorageObject

/-- A Cloud Firestore request with no authentication, resources or query options. -/
def EvaluationRequest.new (operation : RequestOperation) (path : Text) (time : Timestamp) :
    EvaluationRequest where
  service := .cloudFirestore
  operation := operation
  path := path
  auth := none
  time := time
  resource := none
  requestResource := none
  query := {}
  storageResource := none
  storageRequestResource := none

/-! ## Values during evaluation -/

inductive Namespace
  | duration
  | firestore
  | hashing
  | latLng
  | math
  | timestamp
  deriving DecidableEq

structure MapDiff where
  left : Entries
  right : Entries

/-- A field of the query's unknown result, with the predicates known to hold. -/
structure Constraint where
  field : List Text
  predicates : List FieldConstraint

inductive EvalValue
  | data (value : Value)
  | auth (auth : Auth)
  | query (query : Query)
  | request
  | resource (resource : Resource)
  | package (name : Namespace)
  | set (values : List Value)
  | mapDiff (diff : MapDiff)
  | bytes (value : List UInt8) (uppercaseHex : Bool)
  | queryResource
  | queryData
  | constraint (constraint : Constraint)
  | unknown

namespace EvalValue

def isSymbolic : EvalValue → Bool
  | .queryResource | .queryData | .constraint _ | .unknown => true
  | _ => false

def intoData : EvalValue → Outcome Value
  | .data value => .ok value
  | .bytes value _ => .ok (.bytes value)
  | .set values => .ok (.list values)
  | _ => failure "value cannot be used as rules data"

def ofBool (value : Bool) : EvalValue := .data (.bool value)

def ofInteger (value : Int64) : EvalValue := .data (.integer value)

def ofFloat (value : Binary64) : EvalValue := .data (.float value)

def ofText (value : Text) : EvalValue := .data (.string value)

end EvalValue

/-! ## Typed access -/

def dataBool : EvalValue → Outcome Bool
  | .data (.bool value) => .ok value
  | _ => failure "expected a boolean value"

def dataInteger : EvalValue → Outcome Int64
  | .data (.integer value) => .ok value
  | _ => failure "expected an integer value"

def dataString : EvalValue → Outcome Text
  | .data (.string value) => .ok value
  | _ => failure "expected a string value"

def dataPath : EvalValue → Outcome Text
  | .data (.path value) => .ok value
  | _ => failure "expected a path value"

def dataList : EvalValue → Outcome (List Value)
  | .data (.list values) => .ok values
  | .set values => .ok values
  | _ => failure "expected a list or set value"

def dataMap : EvalValue → Outcome Entries
  | .data (.map entries) => .ok entries
  | _ => failure "expected a map value"

def dataBytes : EvalValue → Outcome (List UInt8)
  | .data (.bytes value) => .ok value
  | .bytes value _ => .ok value
  | _ => failure "expected a bytes value"

inductive Number
  | integer (value : Int64)
  | float (value : Binary64)

def Number.toF64 : Number → Binary64
  | .integer value => .ofInt64 value
  | .float value => value

def dataNumber : EvalValue → Outcome Number
  | .data (.integer value) => .ok (.integer value)
  | .data (.float value) => .ok (.float value)
  | _ => failure "expected a numeric value"

/-! ## Order and equality during evaluation -/

def setEqual (left right : List Value) : Bool :=
  left.all (fun first => right.any (rulesEqual first)) &&
    right.all (fun second => left.any fun first => rulesEqual first second)

def evalEqual : EvalValue → EvalValue → Bool
  | .data left, .data right => rulesEqual left right
  | .bytes left _, .bytes right _ => left == right
  | .bytes left _, .data (.bytes right) => left == right
  | .data (.bytes left), .bytes right _ => left == right
  | .set left, .set right => setEqual left right
  | _, _ => false

def floatCompare (left right : Binary64) : Outcome Ordering :=
  match left.partialCmp right with
  | some order => .ok order
  | none => failure "NaN values are unordered"

def evalCompare : EvalValue → EvalValue → Outcome Ordering
  | .data (.integer left), .data (.integer right) => .ok (compare left.toInt right.toInt)
  | .data (.integer left), .data (.float right) => floatCompare (.ofInt64 left) right
  | .data (.float left), .data (.integer right) => floatCompare left (.ofInt64 right)
  | .data (.float left), .data (.float right) => floatCompare left right
  | .data (.string left), .data (.string right) => .ok (Text.cmp left right)
  | .data (.path left), .data (.path right) => .ok (Text.cmp left right)
  | .data (.timestamp left), .data (.timestamp right) => .ok (compare left right)
  | .data (.duration left), .data (.duration right) =>
    .ok (compare left.totalNanoseconds right.totalNanoseconds)
  | _, _ => failure "values cannot be ordered"

end Firenook.Rules
