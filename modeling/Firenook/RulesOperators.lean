import Firenook.RulesValues

/-!
# Operators and methods of the rules language

Everything an expression can do with values it already has: arithmetic and
comparison, indexing, the methods of each type and the functions of the packages.
None of it touches the evaluator's state.  What the source takes from other crates
(regular expressions, digests, calendar dates, Unicode case, the text of a number)
is a parameter, `Libraries`.
-/

namespace Firenook

namespace Binary64

variable (number : Binary64)

def toFloat : Float := .ofBits number.bits

def ofFloat (float : Float) : Binary64 := ⟨float.toBits⟩

variable (left right : Binary64)

def sub : Binary64 := ofFloat (left.toFloat - right.toFloat)

def mul : Binary64 := ofFloat (left.toFloat * right.toFloat)

def div : Binary64 := ofFloat (left.toFloat / right.toFloat)

def neg : Binary64 := ⟨number.bits ^^^ 0x8000000000000000⟩

def abs : Binary64 := ⟨number.bits &&& 0x7FFFFFFFFFFFFFFF⟩

def zero : Binary64 := ⟨0⟩

end Binary64

namespace Rules

inductive UnaryOperator
  | not
  | negate
  deriving DecidableEq

inductive BinaryOperator
  | or
  | and
  | equal
  | notEqual
  | less
  | lessEqual
  | greater
  | greaterEqual
  | isIn
  | add
  | subtract
  | multiply
  | divide
  | remainder
  deriving DecidableEq

inductive TypeName
  | null
  | bool
  | int
  | float
  | number
  | string
  | list
  | map
  | timestamp
  | duration
  | path
  | bytes
  | latLng
  deriving DecidableEq

structure CivilTime where
  year : Int64
  month : Int64
  day : Int64
  dayOfWeek : Int64
  dayOfYear : Int64
  hours : Int64
  minutes : Int64
  seconds : Int64
  midnight : Timestamp

/-- Functions of the standard library and of other crates, with the text of their errors. -/
structure Libraries where
  debug : Text → Text
  displayFloat : Binary64 → Text
  parseFloat : Text → Option Binary64
  lowercase : Text → Text
  uppercase : Text → Text
  trim : Text → Text
  /-- Character positions of the matches of a pattern, in order. -/
  regexMatches : Text → Text → Except Text (List (Nat × Nat))
  md5 : List UInt8 → List UInt8
  sha256 : List UInt8 → List UInt8
  base64 : List UInt8 → Text
  fromCalendarDate : Int64 → Int64 → Int64 → Outcome Timestamp
  toOffsetDateTime : Timestamp → Except Text CivilTime

/-! ## Numbers and instants -/

def checkedInteger (value : Int) : Option Int64 :=
  if -2 ^ 63 ≤ value ∧ value < 2 ^ 63 then some (.ofInt value) else none

def integerOr (overflow : String) (value : Int) : Outcome EvalValue :=
  match checkedInteger value with
  | some value => .ok (.ofInteger value)
  | none => failure overflow

/-- Sizes are converted with a saturating `i64::try_from`. -/
def sizeValue (size : Nat) : EvalValue := .ofInteger (.ofInt (min (size : Int) (2 ^ 63 - 1)))

/-- `i128` arithmetic is checked. -/
def checkedNanoseconds (overflow : String) (total : Int) : Outcome Int :=
  if -2 ^ 127 ≤ total ∧ total < 2 ^ 127 then .ok total else failure overflow

def timestampOfNanoseconds (total : Int) : Outcome Timestamp :=
  if bounds : -2 ^ 63 ≤ total / 1000000000 ∧ total / 1000000000 < 2 ^ 63 then
    .ok ⟨total / 1000000000, (total % 1000000000).toNat, bounds, by omega⟩
  else failure "timestamp is outside range"

def addTimestampDuration (timestamp : Timestamp) (duration : Int) : Outcome Timestamp := do
  let total ← checkedNanoseconds "timestamp arithmetic overflow" (timestamp.instant + duration)
  timestampOfNanoseconds total

variable (left right : EvalValue)

def numericBinary (integer : Int → Int → Int)
    (float : Binary64 → Binary64 → Binary64) (overflow : String) : Outcome EvalValue := do
  match ← dataNumber left, ← dataNumber right with
  | .integer left, .integer right => integerOr overflow (integer left.toInt right.toInt)
  | left, right => .ok (.ofFloat (float left.toF64 right.toF64))

/-! ## Unary and binary operators -/

def evalUnary (operator : UnaryOperator) (value : EvalValue) : Outcome EvalValue :=
  if value.isSymbolic then .ok .unknown
  else
    match operator with
    | .not => do .ok (.ofBool (!(← dataBool value)))
    | .negate => do
      match ← dataNumber value with
      | .integer value => integerOr "integer negation overflow" (-value.toInt)
      | .float value => .ok (.ofFloat value.neg)

def evalAdd : EvalValue → EvalValue → Outcome EvalValue
  | .data (.string left), .data (.string right) => .ok (.ofText (left ++ right))
  | .data (.list left), .data (.list right) => .ok (.data (.list (left ++ right)))
  | .data (.timestamp timestamp), .data (.duration duration) => do
    .ok (.data (.timestamp (← addTimestampDuration timestamp duration.totalNanoseconds)))
  | .data (.duration duration), .data (.timestamp timestamp) => do
    .ok (.data (.timestamp (← addTimestampDuration timestamp duration.totalNanoseconds)))
  | .data (.duration left), .data (.duration right) => do
    let total ← checkedNanoseconds "duration addition overflow"
      (left.totalNanoseconds + right.totalNanoseconds)
    .ok (.data (.duration (.fromNanoseconds total)))
  | left, right => numericBinary left right (· + ·) Binary64.add "integer addition overflow"

def evalSubtract : EvalValue → EvalValue → Outcome EvalValue
  | .data (.timestamp left), .data (.timestamp right) =>
    .ok (.data (.duration (.fromNanoseconds (left.instant - right.instant))))
  | .data (.timestamp timestamp), .data (.duration duration) => do
    let negated := RulesDuration.fromNanoseconds (-duration.totalNanoseconds)
    .ok (.data (.timestamp (← addTimestampDuration timestamp negated.totalNanoseconds)))
  | .data (.duration left), .data (.duration right) => do
    let total ← checkedNanoseconds "duration subtraction overflow"
      (left.totalNanoseconds - right.totalNanoseconds)
    .ok (.data (.duration (.fromNanoseconds total)))
  | left, right => numericBinary left right (· - ·) Binary64.sub "integer subtraction overflow"

def evalDivide : Outcome EvalValue := do
  match ← dataNumber left, ← dataNumber right with
  | .integer left, .integer right =>
    if right = 0 then failure "division by zero"
    else integerOr "integer division overflow" (left.toInt.tdiv right.toInt)
  | left, right =>
    if right.toF64.eq .zero then failure "division by zero"
    else .ok (.ofFloat (left.toF64.div right.toF64))

def evalRemainder : Outcome EvalValue := do
  let left ← dataInteger left
  let right ← dataInteger right
  if right = 0 then failure "remainder by zero"
  -- `i64::MIN % -1` overflows although the remainder itself would fit.
  else if left.toInt.tdiv right.toInt = 2 ^ 63 then failure "integer remainder overflow"
  else .ok (.ofInteger (.ofInt (left.toInt.tmod right.toInt)))

def evalIn : Outcome EvalValue := do
  let needle ← left.intoData
  match right with
  | .data (.list values) | .set values => .ok (.ofBool (values.any (rulesEqual needle)))
  | .data (.map entries) =>
    match needle with
    | .string key => .ok (.ofBool (Entries.containsKey key entries))
    | _ => .ok (.ofBool false)
  | _ => failure "right side of 'in' is not a list or map"

def evalOrdered (accepts : Ordering → Bool) (left right : EvalValue) : Outcome EvalValue := do
  .ok (.ofBool (accepts (← evalCompare left right)))

/-! ## Symbolic operands -/

def compareValues (left right : Value) : Option Ordering :=
  (evalCompare (.data left) (.data right)).toOption

variable (predicate : FieldConstraint)

/-- The predicate rules the value out for the field; none when they do not compare. -/
def excludes (value : Value) : Option Bool :=
  let order := compareValues value predicate.value
  match predicate.operator with
  | .notEqual => some (rulesEqual predicate.value value)
  | .notIn =>
    match predicate.value with
    | .list values => some (values.any fun excluded => rulesEqual excluded value)
    | _ => some false
  | .greater => order.map fun order => order != .gt
  | .greaterEqual => order.map fun order => order == .lt
  | .less => order.map fun order => order != .lt
  | .lessEqual => order.map fun order => order == .gt
  | _ => some false

/-- The comparison holds of every value the predicate admits, `order` being that of the
predicate's operand and the literal. -/
def guaranteed (order : Ordering) : ConstraintOperator → BinaryOperator → Bool
  | .greater, .greater => order != .lt
  | .greater, .greaterEqual => order != .lt
  | .greaterEqual, .greaterEqual => order != .lt
  | .greaterEqual, .greater => order == .gt
  | .less, .less => order != .gt
  | .less, .lessEqual => order != .gt
  | .lessEqual, .lessEqual => order != .gt
  | .lessEqual, .less => order == .lt
  | _, _ => false

/-- The comparison fails for every value the predicate admits. -/
def impossible (order : Ordering) : ConstraintOperator → BinaryOperator → Bool
  | .less, .greater => order != .gt
  | .lessEqual, .greater => order != .gt
  | .less, .greaterEqual => order != .gt
  | .lessEqual, .greaterEqual => order == .lt
  | .greater, .less => order != .lt
  | .greaterEqual, .less => order != .lt
  | .greater, .lessEqual => order != .lt
  | .greaterEqual, .lessEqual => order == .gt
  | _, _ => false

def implies (operator : BinaryOperator) (value : Value) : Option Bool :=
  if operator = .notEqual ∨ operator = .equal then do
    if ← excludes predicate value then some (operator = .notEqual) else none
  else do
    let order ← compareValues predicate.value value
    if guaranteed order predicate.operator operator then some true
    else if impossible order predicate.operator operator then some false
    else none

def reversed : BinaryOperator → BinaryOperator
  | .less => .greater
  | .lessEqual => .greaterEqual
  | .greater => .less
  | .greaterEqual => .lessEqual
  | other => other

def proofOf (constraint : Constraint) (operator : BinaryOperator) (value : Value) : EvalValue :=
  match (constraint.predicates.filter (·.field == constraint.field)).findSome?
      (implies · operator value) with
  | some proof => .ofBool proof
  | none => .unknown

variable (operator : BinaryOperator)

/-- The verdict on operands of which one is symbolic, and none when both are concrete. -/
def symbolicBinary (left right : EvalValue) : Option EvalValue :=
  match left, right with
  | .constraint constraint, .data value => some (proofOf constraint operator value)
  | .data value, .constraint constraint =>
    if operator = .isIn then
      some (if constraint.predicates.any fun predicate =>
          predicate.field == constraint.field && predicate.operator == .arrayContains &&
            rulesEqual predicate.value value
        then .ofBool true else .unknown)
    else some (proofOf constraint (reversed operator) value)
  | left, right => if left.isSymbolic || right.isSymbolic then some .unknown else none

def evalBinaryValues (left right : EvalValue) : Outcome EvalValue :=
  match symbolicBinary operator left right with
  | some proof => .ok proof
  | none =>
    match operator with
    | .equal => .ok (.ofBool (evalEqual left right))
    | .notEqual => .ok (.ofBool (!evalEqual left right))
    | .less => evalOrdered (· == .lt) left right
    | .lessEqual => evalOrdered (· != .gt) left right
    | .greater => evalOrdered (· == .gt) left right
    | .greaterEqual => evalOrdered (· != .lt) left right
    | .isIn => evalIn left right
    | .add => evalAdd left right
    | .subtract => evalSubtract left right
    | .multiply => numericBinary left right (· * ·) Binary64.mul "multiplication overflow"
    | .divide => evalDivide left right
    | .remainder => evalRemainder left right
    -- Logical operators never reach this function.
    | .and | .or => failure "unreachable"

def isType : EvalValue → TypeName → Bool
  | .data .null, .null => true
  | .data (.bool _), .bool => true
  | .data (.integer _), .int => true
  | .data (.float _), .float => true
  | .data (.integer _), .number => true
  | .data (.float _), .number => true
  | .data (.string _), .string => true
  | .data (.list _), .list => true
  | .data (.map _), .map => true
  | .data (.timestamp _), .timestamp => true
  | .data (.duration _), .duration => true
  | .data (.path _), .path => true
  | .data (.bytes _), .bytes => true
  | .bytes _ _, .bytes => true
  | .data (.latLng _), .latLng => true
  | _, _ => false

/-! ## Indexing -/

def pathSegments (path : Text) : List Text := (path.split '/').filter (· ≠ [])

def joinPath (segments : List Text) : Text := '/' :: ['/'].intercalate segments

def position (negative : String) (index : Int64) : Outcome Nat :=
  if index.toInt < 0 then failure negative else .ok index.toInt.toNat

def integerText (value : Int) : Text := (toString value).toList

variable (libraries : Libraries)

def indexValue (base index : EvalValue) : Outcome EvalValue :=
  match base with
  | .data (.path path) =>
    match index with
    | .data (.integer place) =>
      let segments := pathSegments path
      match if place.toInt < 0 then none else segments[place.toInt.toNat]? with
      | some segment => .ok (.ofText segment)
      | none =>
        .error (.new ("Index out of bound error. Index: [".toList ++ integerText place.toInt ++
          "] , size: [".toList ++ integerText segments.length ++ "].".toList))
    | _ => failure "path segments are indexed by position"
  | .data (.list values) => do
    let index ← position "list index is negative" (← dataInteger index)
    match values[index]? with
    | some value => .ok (.data value)
    | none => failure "list index is outside the available range"
  | .data (.map entries) => do
    let key ← dataString index
    match Entries.get? key entries with
    | some value => .ok (.data value)
    | none => .error (.new ("map key ".toList ++ libraries.debug key ++ " does not exist".toList))
  | _ => failure "value cannot be indexed"

def sliceBounds (size : Nat) (start stop : Option EvalValue) : Outcome (Nat × Nat) := do
  let start ← start.elim (.ok 0) dataInteger
  let stop ← stop.elim (.ok (.ofInt (min (size : Int) (2 ^ 63 - 1)))) dataInteger
  let start ← position "slice start is negative" start
  let stop ← position "slice end is negative" stop
  if start > stop ∨ stop > size then failure "slice is outside the available range"
  else .ok (start, stop)

def sliceValue (base : EvalValue) (start stop : Option EvalValue) : Outcome EvalValue :=
  match base with
  | .data (.list values) => do
    let bounds ← sliceBounds values.length start stop
    .ok (.data (.list ((values.take bounds.2).drop bounds.1)))
  | .data (.path path) => do
    let segments := pathSegments path
    let bounds ← sliceBounds segments.length start stop
    .ok (.data (.path (joinPath ((segments.take bounds.2).drop bounds.1))))
  | _ => failure "only lists and paths can be sliced"

/-! ## Conversions -/

def pathInterpolation : EvalValue → Outcome Text
  | .data (.string value) => .ok value
  | .data (.path value) => .ok value
  | .data (.integer value) => .ok (integerText value.toInt)
  | _ => failure "path interpolation requires a string, integer, or path"

def stringCoercion : EvalValue → Outcome Text
  | .data (.string value) => .ok value
  | .data (.path value) => .ok value
  | .data (.integer value) => .ok (integerText value.toInt)
  | .data (.float value) => .ok (libraries.displayFloat value)
  | .data (.bool value) => .ok (if value then "true".toList else "false".toList)
  | .data .null => .ok "null".toList
  | _ => failure "value cannot be converted to a string"

def parseInteger (text : Text) : Option Int64 :=
  let digits := match text with
    | '+' :: digits | '-' :: digits => digits
    | digits => digits
  if digits = [] ∨ !digits.all Char.isDigit then none
  else if text.head? = some '-' then checkedInteger (-(Text.digitsValue digits : Int))
  else checkedInteger (Text.digitsValue digits)

variable (name : Text)

def argumentCount (expected : String) (arguments : List EvalValue) : RuntimeError :=
  .new ("function ".toList ++ libraries.debug name ++ " expected ".toList ++ expected.toList ++
    " but received ".toList ++ integerText arguments.length)

def oneArgument : List EvalValue → Outcome EvalValue
  | [value] => .ok value
  | arguments => .error (argumentCount libraries name "one argument" arguments)

def twoArguments : List EvalValue → Outcome (EvalValue × EvalValue)
  | [first, second] => .ok (first, second)
  | arguments => .error (argumentCount libraries name "2 arguments" arguments)

def threeArguments : List EvalValue → Outcome (EvalValue × EvalValue × EvalValue)
  | [first, second, third] => .ok (first, second, third)
  | arguments => .error (argumentCount libraries name "3 arguments" arguments)

def noArguments : List EvalValue → Outcome Unit
  | [] => .ok ()
  | arguments =>
    .error (.new ("method ".toList ++ libraries.debug name ++
      " expected no arguments but received ".toList ++ integerText arguments.length))

def unsupported (kind : String) (name : Text) : Outcome EvalValue :=
  .error (.new ("unsupported ".toList ++ kind.toList ++ ' ' :: libraries.debug name))

/-! ## Methods -/

/-- `str::replace`; an empty pattern matches between all characters. -/
def replaceFrom (source target : Text) : Nat → Text → Text
  | _, [] => if source = [] then target else []
  | skipped + 1, _ :: rest => replaceFrom source target skipped rest
  | 0, char :: rest =>
    if source = [] then target ++ char :: replaceFrom source target 0 rest
    else if source.isPrefixOf (char :: rest) then
      target ++ replaceFrom source target (source.length - 1) rest
    else char :: replaceFrom source target 0 rest

def piecesBetween (value : Text) (start : Nat) : List (Nat × Nat) → List Text
  | [] => [value.drop start]
  | (first, last) :: found =>
    (value.take first).drop start :: piecesBetween value last found

/-- Splits at every match; trailing empty pieces are dropped. -/
def splitPieces (value : Text) (found : List (Nat × Nat)) : List Text :=
  if found = [] then [value]
  else
    match ((piecesBetween value 0 found).reverse.dropWhile (· = [])).reverse with
    | [] => [[]]
    | pieces => pieces

def stringMethod (value name : Text) (arguments : List EvalValue) : Outcome EvalValue := do
  if name = "size".toList then
    noArguments libraries name arguments
    .ok (sizeValue value.length)
  else if name = "lower".toList then
    noArguments libraries name arguments
    .ok (.ofText (libraries.lowercase value))
  else if name = "upper".toList then
    noArguments libraries name arguments
    .ok (.ofText (libraries.uppercase value))
  else if name = "trim".toList then
    noArguments libraries name arguments
    .ok (.ofText (libraries.trim value))
  else if name = "matches".toList then
    let pattern ← dataString (← oneArgument libraries name arguments)
    match libraries.regexMatches pattern value with
    | .ok found => .ok (.ofBool (!found.isEmpty))
    | .error text => .error (.new ("invalid regex: ".toList ++ text))
  else if name = "replace".toList then
    let (source, target) ← twoArguments libraries name arguments
    .ok (.ofText (replaceFrom (← dataString source) (← dataString target) 0 value))
  else if name = "split".toList then
    let pattern ← dataString (← oneArgument libraries name arguments)
    match libraries.regexMatches pattern value with
    | .ok found => .ok (.data (.list ((splitPieces value found).map .string)))
    | .error text => .error (.new ("invalid split pattern: ".toList ++ text))
  else if name = "toUtf8".toList then
    noArguments libraries name arguments
    .ok (.bytes value.bytes false)
  else unsupported libraries "string method" name

def hasAll (values required : List Value) : Bool :=
  required.all fun wanted => values.any fun value => rulesEqual value wanted

def hasAny (values candidates : List Value) : Bool :=
  candidates.any fun candidate => values.any fun value => rulesEqual value candidate

def hasOnly (values expected : List Value) : Bool :=
  values.all fun value => expected.any fun other => rulesEqual value other

variable (values : List Value)

def uniqueValues : List Value :=
  values.foldl (fun unique value =>
    if unique.any fun candidate => rulesEqual candidate value then unique
    else unique ++ [value]) []

def listMethod (name : Text) (arguments : List EvalValue) : Outcome EvalValue := do
  if name = "size".toList then
    noArguments libraries name arguments
    .ok (sizeValue values.length)
  else if name = "concat".toList then
    .ok (.data (.list (values ++ (← dataList (← oneArgument libraries name arguments)))))
  else if name = "hasAll".toList then
    .ok (.ofBool (hasAll values (← dataList (← oneArgument libraries name arguments))))
  else if name = "hasAny".toList then
    .ok (.ofBool (hasAny values (← dataList (← oneArgument libraries name arguments))))
  else if name = "hasOnly".toList then
    .ok (.ofBool (hasOnly values (← dataList (← oneArgument libraries name arguments))))
  else if name = "join".toList then
    let separator ← dataString (← oneArgument libraries name arguments)
    let texts ← values.mapM fun value => stringCoercion libraries (.data value)
    .ok (.ofText (separator.intercalate texts))
  else if name = "removeAll".toList then
    let removed ← dataList (← oneArgument libraries name arguments)
    .ok (.data (.list (values.filter fun value => !removed.any (rulesEqual value))))
  else if name = "toSet".toList then
    noArguments libraries name arguments
    .ok (.set (uniqueValues values))
  else unsupported libraries "list method" name

def mapMethod (entries : Entries) (name : Text)
    (arguments : List EvalValue) : Outcome EvalValue := do
  if name = "size".toList then
    noArguments libraries name arguments
    .ok (sizeValue entries.length)
  else if name = "keys".toList then
    noArguments libraries name arguments
    .ok (.data (.list (entries.map fun entry => .string entry.1)))
  else if name = "values".toList then
    noArguments libraries name arguments
    .ok (.data (.list (entries.map Prod.snd)))
  else if name = "get".toList then
    let (key, default) ← twoArguments libraries name arguments
    let key ← dataString key
    -- The default is converted even when the key is present.
    let default ← default.intoData
    .ok (.data ((entries.get? key).getD default))
  else if name = "diff".toList then
    .ok (.mapDiff ⟨entries, ← dataMap (← oneArgument libraries name arguments)⟩)
  else unsupported libraries "map method" name

def unionKeys (left right : Entries) : List Text :=
  (Entries.collect ((left ++ right).map fun entry => (entry.1, .null))).map Prod.fst

def mapDiffMethod (diff : MapDiff) (name : Text)
    (arguments : List EvalValue) : Outcome EvalValue := do
  noArguments libraries name arguments
  let keysWhere (compared : Value → Value → Bool) : List Text :=
    (diff.left.filter fun entry =>
      (diff.right.get? entry.1).any (compared entry.2)).map Prod.fst
  let keys ←
    if name = "addedKeys".toList then
      .ok ((diff.left.filter fun entry => !diff.right.containsKey entry.1).map Prod.fst)
    else if name = "removedKeys".toList then
      .ok ((diff.right.filter fun entry => !diff.left.containsKey entry.1).map Prod.fst)
    else if name = "changedKeys".toList then
      .ok (keysWhere fun left right => !rulesEqual left right)
    else if name = "unchangedKeys".toList then .ok (keysWhere rulesEqual)
    else if name = "affectedKeys".toList then
      .ok ((unionKeys diff.left diff.right).filter fun key =>
        match diff.left.get? key, diff.right.get? key with
        | some left, some right => !rulesEqual left right
        | _, _ => true)
    else
      .error (.new ("unsupported map diff method ".toList ++ libraries.debug name))
  .ok (.set (keys.map .string))

def setMethod (name : Text) (arguments : List EvalValue) : Outcome EvalValue := do
  if name = "size".toList then
    noArguments libraries name arguments
    .ok (sizeValue values.length)
  else if name = "hasAll".toList then
    .ok (.ofBool (hasAll values (← dataList (← oneArgument libraries name arguments))))
  else if name = "hasAny".toList then
    .ok (.ofBool (hasAny values (← dataList (← oneArgument libraries name arguments))))
  else if name = "hasOnly".toList then
    .ok (.ofBool (hasOnly values (← dataList (← oneArgument libraries name arguments))))
  else if name = "union".toList then
    .ok (.set (uniqueValues (values ++ (← dataList (← oneArgument libraries name arguments)))))
  else if name = "intersection".toList then
    let right ← dataList (← oneArgument libraries name arguments)
    .ok (.set (uniqueValues (values.filter fun value => right.any (rulesEqual value))))
  else if name = "difference".toList then
    let right ← dataList (← oneArgument libraries name arguments)
    .ok (.set (uniqueValues (values.filter fun value => !right.any (rulesEqual value))))
  else unsupported libraries "set method" name

def hexDigit (uppercase : Bool) (digit : Nat) : Char :=
  if digit < 10 then Char.ofNat ('0'.toNat + digit)
  else Char.ofNat ((if uppercase then 'A' else 'a').toNat + (digit - 10))

def bytesMethod (value : List UInt8) (uppercaseHex : Bool) (name : Text)
    (arguments : List EvalValue) : Outcome EvalValue := do
  noArguments libraries name arguments
  if name = "size".toList then .ok (sizeValue value.length)
  else if name = "toHexString".toList then
    .ok (.ofText (value.flatMap fun byte =>
      [hexDigit uppercaseHex (byte.toNat / 16), hexDigit uppercaseHex (byte.toNat % 16)]))
  else if name = "toBase64".toList then .ok (.ofText (libraries.base64 value))
  else unsupported libraries "bytes method" name

def durationMethod (value : RulesDuration) (name : Text)
    (arguments : List EvalValue) : Outcome EvalValue := do
  noArguments libraries name arguments
  if name = "seconds".toList then .ok (.ofInteger (.ofInt value.seconds))
  else if name = "nanos".toList then .ok (.ofInteger (.ofInt value.nanoseconds))
  else unsupported libraries "duration method" name

def timestampMethod (value : Timestamp) (name : Text)
    (arguments : List EvalValue) : Outcome EvalValue := do
  noArguments libraries name arguments
  let civil ← (libraries.toOffsetDateTime value).mapError fun text =>
    RuntimeError.new ("invalid timestamp: ".toList ++ text)
  if name = "year".toList then .ok (.ofInteger civil.year)
  else if name = "month".toList then .ok (.ofInteger civil.month)
  else if name = "day".toList then .ok (.ofInteger civil.day)
  else if name = "dayOfWeek".toList then .ok (.ofInteger civil.dayOfWeek)
  else if name = "dayOfYear".toList then .ok (.ofInteger civil.dayOfYear)
  else if name = "hours".toList then .ok (.ofInteger civil.hours)
  else if name = "minutes".toList then .ok (.ofInteger civil.minutes)
  else if name = "seconds".toList then .ok (.ofInteger civil.seconds)
  else if name = "nanos".toList then .ok (.ofInteger (.ofInt value.nanos))
  else if name = "toMillis".toList then
    integerOr "timestamp milliseconds overflow" (value.instant.tdiv 1000000)
  else if name = "date".toList then .ok (.data (.timestamp civil.midnight))
  else if name = "time".toList then
    .ok (.data (.duration (.fromNanoseconds (civil.hours.toInt * 3600000000000 +
      civil.minutes.toInt * 60000000000 + civil.seconds.toInt * 1000000000 + value.nanos))))
  else unsupported libraries "timestamp method" name

def haversineDistance (left right : LatLng) : Binary64 :=
  if left.latitude.eq right.latitude && left.longitude.eq right.longitude then .zero
  else
    let radians (degrees : Float) : Float := degrees * (3.141592653589793 / 180.0)
    let latitudeDelta := radians (right.latitude.toFloat - left.latitude.toFloat)
    let longitudeDelta := radians (right.longitude.toFloat - left.longitude.toFloat)
    let latitudeSine := (latitudeDelta / 2.0).sin
    let longitudeSine := (longitudeDelta / 2.0).sin
    let chord := latitudeSine * latitudeSine +
      (radians left.latitude.toFloat).cos * (radians right.latitude.toFloat).cos *
        (longitudeSine * longitudeSine)
    .ofFloat (6371000.0 * 2.0 * chord.sqrt.asin)

def latLngMethod (value : LatLng) (name : Text)
    (arguments : List EvalValue) : Outcome EvalValue := do
  if name = "latitude".toList then
    noArguments libraries name arguments
    .ok (.ofFloat value.latitude)
  else if name = "longitude".toList then
    noArguments libraries name arguments
    .ok (.ofFloat value.longitude)
  else if name = "distance".toList then
    match ← oneArgument libraries name arguments with
    | .data (.latLng other) => .ok (.ofFloat (haversineDistance value other))
    | _ => failure "distance expects a latlng argument"
  else unsupported libraries "latlng method" name

/-! ## Packages -/

def durationUnit (unit : Text) : Option Int :=
  if unit = "w".toList then some 604800000000000
  else if unit = "d".toList then some 86400000000000
  else if unit = "h".toList then some 3600000000000
  else if unit = "m".toList then some 60000000000
  else if unit = "s".toList then some 1000000000
  else if unit = "ms".toList then some 1000000
  else if unit = "us".toList ∨ unit = "µs".toList then some 1000
  else if unit = "ns".toList then some 1
  else none

def durationNamespace (arguments : List EvalValue) : Outcome EvalValue := do
  if name = "value".toList then
    let (amount, unit) ← twoArguments libraries name arguments
    let amount ← dataInteger amount
    let unit ← dataString unit
    match durationUnit unit with
    | some multiplier =>
      let total ← checkedNanoseconds "duration is outside the supported range"
        (amount.toInt * multiplier)
      .ok (.data (.duration (.fromNanoseconds total)))
    | none =>
      .error (.new ("unsupported duration unit ".toList ++ libraries.debug unit))
  else unsupported libraries "duration function" name

def hashingNamespace (arguments : List EvalValue) : Outcome EvalValue := do
  let bytes ← match ← oneArgument libraries name arguments with
    | .data (.string value) => .ok value.bytes
    | other => dataBytes other
  if name = "md5".toList then .ok (.bytes (libraries.md5 bytes) true)
  else if name = "sha256".toList then .ok (.bytes (libraries.sha256 bytes) true)
  else unsupported libraries "hashing function" name

/-- `(-bound..=bound).contains(&number)`, for a bound given by its bits. -/
def within (bound number : Binary64) : Bool := number.ge bound.neg && bound.ge number

def latLngNamespace (arguments : List EvalValue) : Outcome EvalValue := do
  if name = "value".toList then
    let (latitude, longitude) ← twoArguments libraries name arguments
    let latitude := (← dataNumber latitude).toF64
    let longitude := (← dataNumber longitude).toF64
    if within ⟨0x4056800000000000⟩ latitude && within ⟨0x4066800000000000⟩ longitude then
      .ok (.data (.latLng ⟨latitude, longitude⟩))
    else failure "latitude or longitude is outside its valid range"
  else unsupported libraries "latlng function" name

def mathNamespace (arguments : List EvalValue) : Outcome EvalValue := do
  if name = "abs".toList then
    match ← dataNumber (← oneArgument libraries name arguments) with
    | .integer value => integerOr "integer absolute value overflow" |value.toInt|
    | .float value => .ok (.ofFloat value.abs)
  else if name = "ceil".toList then
    let value := (← dataNumber (← oneArgument libraries name arguments)).toF64
    .ok (.ofFloat (.ofFloat value.toFloat.ceil))
  else if name = "floor".toList then
    let value := (← dataNumber (← oneArgument libraries name arguments)).toF64
    .ok (.ofFloat (.ofFloat value.toFloat.floor))
  else if name = "round".toList then
    let value := (← dataNumber (← oneArgument libraries name arguments)).toF64
    .ok (.ofFloat (.ofFloat value.toFloat.round))
  else if name = "sqrt".toList then
    let value := (← dataNumber (← oneArgument libraries name arguments)).toF64
    if value.lt .zero then failure "square root of a negative value"
    else .ok (.ofFloat (.ofFloat value.toFloat.sqrt))
  else if name = "pow".toList then
    let (base, exponent) ← twoArguments libraries name arguments
    let base := (← dataNumber base).toF64
    let exponent := (← dataNumber exponent).toF64
    .ok (.ofFloat (.ofFloat (base.toFloat.pow exponent.toFloat)))
  else unsupported libraries "math function" name

/-- `i32::try_from` and `u8::try_from`. -/
def narrowInteger (low high : Int) (outside : String) (value : Int64) : Outcome Int64 :=
  if low ≤ value.toInt ∧ value.toInt ≤ high then .ok value else failure outside

def timestampNamespace (arguments : List EvalValue) : Outcome EvalValue := do
  if name = "date".toList then
    let (year, month, day) ← threeArguments libraries name arguments
    let year ← narrowInteger (-2 ^ 31) (2 ^ 31 - 1) "timestamp year is outside range"
      (← dataInteger year)
    let month ← narrowInteger 0 255 "timestamp month is outside range" (← dataInteger month)
    let day ← narrowInteger 0 255 "timestamp day is outside range" (← dataInteger day)
    .ok (.data (.timestamp (← libraries.fromCalendarDate year month day)))
  else unsupported libraries "timestamp function" name

def callNamespace (package : Namespace) (name : Text)
    (arguments : List EvalValue) : Outcome EvalValue :=
  match package with
  | .duration => durationNamespace libraries name arguments
  | .firestore =>
    .error (.new ("Function not found error: Name: [firestore.".toList ++ name ++ "]".toList))
  | .hashing => hashingNamespace libraries name arguments
  | .latLng => latLngNamespace libraries name arguments
  | .math => mathNamespace libraries name arguments
  | .timestamp => timestampNamespace libraries name arguments

/-- `request.auth` as the map its methods see. -/
def Auth.toEntries (auth : Auth) : Entries :=
  [("token".toList, .map auth.token), ("uid".toList, optionalText auth.uid)]

def callMethod (receiver : EvalValue) (name : Text)
    (arguments : List EvalValue) : Outcome EvalValue :=
  match receiver with
  | .package package => callNamespace libraries package name arguments
  | .data (.string value) => stringMethod libraries value name arguments
  | .data (.list values) => listMethod libraries values name arguments
  | .data (.map entries) => mapMethod libraries entries name arguments
  | .auth auth => mapMethod libraries auth.toEntries name arguments
  | .set values => setMethod libraries values name arguments
  | .mapDiff diff => mapDiffMethod libraries diff name arguments
  | .bytes value uppercaseHex => bytesMethod libraries value uppercaseHex name arguments
  | .data (.bytes value) => bytesMethod libraries value false name arguments
  | .data (.duration value) => durationMethod libraries value name arguments
  | .data (.timestamp value) => timestampMethod libraries value name arguments
  | .data (.latLng value) => latLngMethod libraries value name arguments
  | _ =>
    .error (.new ("method ".toList ++ libraries.debug name ++
      " is not available on this value".toList))

/-! ## Fields -/

/-- The field of a query's unknown result: only an equality binds a concrete value. -/
def fieldValue (field : List Text) (predicates : List FieldConstraint) : EvalValue :=
  match predicates.find? fun predicate =>
      predicate.field == field && predicate.operator == .equal with
  | some predicate => .data predicate.value
  | none => .constraint ⟨field, predicates⟩

def operationName : RequestOperation → Text
  | .get => "get".toList
  | .list => "list".toList
  | .create => "create".toList
  | .update => "update".toList
  | .delete => "delete".toList

def missingField (owner : String) (name : Text) : Outcome EvalValue :=
  .error (.new (owner.toList ++ " field ".toList ++ libraries.debug name ++
    " does not exist".toList))

def storageValue (object : Option StorageObject) : EvalValue :=
  .data (object.elim .null StorageObject.toValue)

def resourceValue (resource : Option Resource) : EvalValue := resource.elim (.data .null) .resource

def requestField (request : EvaluationRequest) (name : Text) : Outcome EvalValue :=
  if name = "auth".toList then .ok (request.auth.elim (.data .null) .auth)
  else if name = "method".toList then .ok (.ofText (operationName request.operation))
  else if name = "time".toList then .ok (.data (.timestamp request.time))
  else if name = "path".toList then .ok (.data (.path request.path))
  else if name = "resource".toList then
    .ok (match request.service with
      | .firebaseStorage => storageValue request.storageRequestResource
      | .cloudFirestore => resourceValue request.requestResource)
  else if name = "query".toList ∧ request.service = .cloudFirestore then
    .ok (.query request.query)
  else missingField libraries "request" name

def authField (auth : Auth) (name : Text) : Outcome EvalValue :=
  if name = "uid".toList then .ok (.data (optionalText auth.uid))
  else if name = "token".toList then .ok (.data (.map auth.token))
  else missingField libraries "auth" name

def queryField (query : Query) (name : Text) : Outcome EvalValue :=
  if name = "limit".toList then .ok (.data (query.limit.elim .null .integer))
  else if name = "offset".toList then .ok (.ofInteger (query.offset.getD 0))
  else if name = "orderBy".toList then
    .ok (.data (.map (query.orderBy.map fun order => (order.1, .string order.2))))
  else missingField libraries "query" name

def resourceField (resource : Resource) (name : Text) : Outcome EvalValue :=
  if name = "data".toList then .ok (.data (.map resource.data))
  else if name = "__name__".toList then .ok (.data (.path resource.name))
  else if name = "createTime".toList then
    match resource.createTime with
    | some time => .ok (.data (.timestamp time))
    | none => failure "resource createTime is unavailable"
  else if name = "updateTime".toList then
    match resource.updateTime with
    | some time => .ok (.data (.timestamp time))
    | none => failure "resource updateTime is unavailable"
  else missingField libraries "resource" name

def field (request : EvaluationRequest)
    (branch : Option (List FieldConstraint)) (base : EvalValue) (name : Text) :
    Outcome EvalValue :=
  match base with
  | .queryResource => .ok (if name = "data".toList then .queryData else .unknown)
  | .queryData => .ok (fieldValue [name] (branch.getD []))
  | .constraint constraint =>
    .ok (fieldValue (constraint.field ++ [name]) constraint.predicates)
  | .unknown => .ok .unknown
  | .data (.map entries) =>
    match Entries.get? name entries with
    | some value => .ok (.data value)
    | none => missingField libraries "map" name
  | .request => requestField libraries request name
  | .auth auth => authField libraries auth name
  | .query query => queryField libraries query name
  | .resource resource => resourceField libraries resource name
  | _ =>
    .error (.new ("field ".toList ++ libraries.debug name ++
      " is not available on this value".toList))

end Rules
end Firenook
