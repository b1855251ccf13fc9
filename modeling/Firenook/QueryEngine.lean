import Firenook.DiskStore

/-!
# The query engine

Evaluation of a structured query against one snapshot: the value order, filters and
cursors, the candidates of a scope, and the three ways a result is produced (streamed
in name order, sorted over a disk snapshot, or collected within a bound), with
nearest-neighbour stages, projections and aggregations on top.
-/

namespace Firenook

/-- `Display` of a database name and of a document key. -/
def DatabaseName.toText (database : DatabaseName) : Text :=
  "projects/".toList ++ database.projectId ++ "/databases/".toList ++ database.databaseId

def DocumentKey.toText (key : DocumentKey) : Text :=
  key.database.toText ++ "/documents/".toList ++ key.path

namespace QueryEngine

/-! ## The value order -/

inductive DatabaseEdition
  | standard
  | enterprise
  deriving DecidableEq

def standardIndexedValueBytes : Nat := 1500

def typeRank : Value → Nat
  | .null => 0
  | .boolean _ => 1
  | .integer _ => 2
  | .double _ => 2
  | .timestamp _ => 3
  | .string _ => 4
  | .bytes _ => 5
  | .reference _ => 6
  | .geoPoint _ _ => 7
  | .array _ => 8
  | .vector _ => 9
  | .map _ => 10

def compareDoubles (left right : Binary64) : Ordering :=
  match left.isNan, right.isNan with
  | true, true => .eq
  | true, false => .lt
  | false, true => .gt
  | false, false => (left.partialCmp right).getD .eq

/-- The query order's own comparison, which puts every integer above NaN. -/
def compareIntegerDouble (integer : Int64) (double : Binary64) : Ordering :=
  if double.isNan then .gt
  else if double.ge .twoPow63 then .lt
  else if double.lt .negTwoPow63 then .gt
  else
    match compare integer.toInt double.asInt64 with
    | .eq =>
      if double.hasFraction then if double.isSignNegative then .gt else .lt
      else .eq
    | ordering => ordering

variable (edition : DatabaseEdition)

def compareIndexedBytes (left right : List UInt8) : Ordering :=
  match edition with
  | .standard =>
    compare (left.take standardIndexedValueBytes) (right.take standardIndexedValueBytes)
  | .enterprise => compare left right

def compareVectors (left right : List Binary64) : Ordering :=
  (compare left.length right.length).then (List.compareLex compareDoubles left right)

mutual

def compareValues : Value → Value → Ordering
  | .boolean left, .boolean right => compare left right
  | .integer left, .integer right => compare left.toInt right.toInt
  | .double left, .double right => compareDoubles left right
  | .integer left, .double right => compareIntegerDouble left right
  | .double left, .integer right => (compareIntegerDouble right left).swap
  | .timestamp left, .timestamp right => compare left right
  | .string left, .string right => compareIndexedBytes edition left.bytes right.bytes
  | .bytes left, .bytes right => compareIndexedBytes edition left right
  | .reference left, .reference right => compareResourcePaths left right
  | .geoPoint leftLatitude leftLongitude, .geoPoint rightLatitude rightLongitude =>
    (compareDoubles leftLatitude rightLatitude).then (compareDoubles leftLongitude rightLongitude)
  | .array left, .array right => compareArrays left right
  | .vector left, .vector right => compareVectors left right
  | .map left, .map right => compareMaps left right
  | left, right => compare (typeRank left) (typeRank right)

def compareArrays : List Value → List Value → Ordering
  | left :: lefts, right :: rights =>
    match compareValues left right with
    | .eq => compareArrays lefts rights
    | ordering => ordering
  | lefts, rights => compare lefts.length rights.length

def compareMaps : List (Text × Value) → List (Text × Value) → Ordering
  | (leftKey, left) :: lefts, (rightKey, right) :: rights =>
    match Text.cmp leftKey rightKey with
    | .eq =>
      match compareValues left right with
      | .eq => compareMaps lefts rights
      | ordering => ordering
    | ordering => ordering
  | lefts, rights => compare lefts.length rights.length

end

/-! ## Queries -/

inductive FieldPath
  | documentId
  | field (segments : List Text)
  deriving DecidableEq

def FieldPath.cmp : FieldPath → FieldPath → Ordering :=
  compareLex (compareOn fun path => match path with | .documentId => 0 | .field _ => 1)
    fun left right =>
      match left, right with
      | .field left, .field right => List.compareLex Text.cmp left right
      | _, _ => .eq

inductive QueryScope
  | collection (path : Text)
  | collectionGroup (collectionId : Text)
  deriving DecidableEq

inductive FieldOperator
  | equal
  | lessThan
  | lessThanOrEqual
  | greaterThan
  | greaterThanOrEqual
  | notEqual
  | isIn
  | notIn
  | arrayContains
  | arrayContainsAny
  deriving DecidableEq

structure FieldFilter where
  path : FieldPath
  operator : FieldOperator
  value : Value

inductive Filter
  | field (filter : FieldFilter)
  | and (filters : List Filter)
  | or (filters : List Filter)

inductive Direction
  | ascending
  | descending
  deriving DecidableEq

structure Order where
  path : FieldPath
  direction : Direction
  deriving DecidableEq

structure Cursor where
  values : List Value
  inclusive : Bool

inductive Limit
  | first (count : Nat)
  | last (count : Nat)

inductive DistanceMeasure
  | euclidean
  | cosine
  | dotProduct
  deriving DecidableEq

structure Nearest where
  vectorField : FieldPath
  queryVector : List Binary64
  distanceMeasure : DistanceMeasure
  limit : Nat
  distanceResultField : Option FieldPath
  distanceThreshold : Option Binary64

structure Query where
  scope : QueryScope
  ancestor : Option Text := none
  filter : Option Filter := none
  orders : List Order := []
  start : Option Cursor := none
  finish : Option Cursor := none
  offset : Nat := 0
  limit : Option Limit := none
  projection : Option (List FieldPath) := none
  nearest : Option Nearest := none

inductive QueryError
  | cursorTooLong
  | unsupportedVectorShape
  | documentKeyOrderNotLast
  | documentKeyEqualityWithOtherInequality
  deriving DecidableEq

structure QueryDocument where
  key : DocumentKey
  document : Document
  projectedFields : Option Fields

/-! ## Filters and cursors -/

def isMembershipSentinel : Value → Bool
  | .null => true
  | .double number => number.isNan
  | _ => false

inductive FieldValue
  | value (value : Value)
  | documentName (name : Text)

def fieldValue (key : DocumentKey) (document : LazyDocument) : FieldPath → Option FieldValue
  | .documentId => some (.documentName key.toText)
  | .field segments => (document.field segments).map .value

def valuesShareRangeDomain : Value → Value → Bool
  | .integer _, .double right => !right.isNan
  | .double left, .integer _ => !left.isNan
  | .double left, .double right => !left.isNan && !right.isNan
  | .integer _, .integer _ => true
  | .null, .null => true
  | .boolean _, .boolean _ => true
  | .timestamp _, .timestamp _ => true
  | .string _, .string _ => true
  | .bytes _, .bytes _ => true
  | .reference _, .reference _ => true
  | .geoPoint _ _, .geoPoint _ _ => true
  | .array _, .array _ => true
  | .vector _, .vector _ => true
  | .map _, .map _ => true
  | _, _ => false

namespace FieldValue

def asValue : FieldValue → Option Value
  | .value stored => some stored
  | .documentName _ => none

def compare : FieldValue → Value → Ordering
  | .value left, right => compareValues edition left right
  | .documentName left, .reference right => compareResourcePaths left right
  | .documentName left, .string right => compareResourcePaths left right
  | .documentName _, _ => .gt

def rangeCompare : FieldValue → Value → Option Ordering
  | .value left, right =>
    if valuesShareRangeDomain left right then some (compareValues edition left right) else none
  | .documentName left, .reference right => some (compareResourcePaths left right)
  | .documentName left, .string right => some (compareResourcePaths left right)
  | .documentName _, _ => none

def compareFields : FieldValue → FieldValue → Ordering
  | .value left, .value right => compareValues edition left right
  | .documentName left, .documentName right => compareResourcePaths left right
  | .value _, .documentName _ => .lt
  | .documentName _, .value _ => .gt

end FieldValue

def isNull : Option Value → Bool
  | some .null => true
  | _ => false

def fieldFilterMatches (filter : FieldFilter) (key : DocumentKey)
    (document : LazyDocument) : Bool :=
  match fieldValue key document filter.path with
  | none => false
  | some left =>
    match filter.operator with
    | .equal => left.compare edition filter.value == .eq
    | .lessThan => left.rangeCompare edition filter.value == some .lt
    | .lessThanOrEqual => (left.rangeCompare edition filter.value).any (· != .gt)
    | .greaterThan => left.rangeCompare edition filter.value == some .gt
    | .greaterThanOrEqual => (left.rangeCompare edition filter.value).any (· != .lt)
    | .notEqual => !isNull left.asValue && left.compare edition filter.value != .eq
    | .isIn =>
      match filter.value with
      | .array values => values.any fun right =>
        !isMembershipSentinel right && left.compare edition right == .eq
      | _ => false
    | .notIn =>
      match filter.value with
      | .array values =>
        if values.any fun value => isNull (some value) then false
        else if isNull left.asValue then false
        else values.all fun right => left.compare edition right != .eq
      | _ => false
    | .arrayContains =>
      match left.asValue with
      | some (.array values) => values.any fun value =>
        compareValues edition value filter.value == .eq
      | _ => false
    | .arrayContainsAny =>
      match left.asValue, filter.value with
      | some (.array lefts), .array rights => lefts.any fun left =>
        rights.any fun right =>
          !isMembershipSentinel right && compareValues edition left right == .eq
      | _, _ => false

mutual

def filterMatches (key : DocumentKey) (document : LazyDocument) : Filter → Bool
  | .field filter => fieldFilterMatches edition filter key document
  | .and filters => allFiltersMatch key document filters
  | .or filters => anyFilterMatches key document filters

def allFiltersMatch (key : DocumentKey) (document : LazyDocument) : List Filter → Bool
  | [] => true
  | filter :: filters =>
    filterMatches key document filter && allFiltersMatch key document filters

def anyFilterMatches (key : DocumentKey) (document : LazyDocument) : List Filter → Bool
  | [] => false
  | filter :: filters =>
    filterMatches key document filter || anyFilterMatches key document filters

end

def applyDirection (ordering : Ordering) : Direction → Ordering
  | .ascending => ordering
  | .descending => ordering.swap

/-- Candidates without a value for an order are filtered before cursors are compared. -/
def compareDocumentCursor (key : DocumentKey)
    (document : LazyDocument) : List Order → List Value → Ordering
  | order :: orders, value :: values =>
    match fieldValue key document order.path with
    | none => .eq
    | some documentValue =>
      (applyDirection (documentValue.compare edition value) order.direction).then
        (compareDocumentCursor key document orders values)
  | _, _ => .eq

def candidateMatches (query : Query) (orders : List Order) (edition : DatabaseEdition)
    (candidate : DocumentKey × LazyDocument) : Bool :=
  (query.filter.all fun filter => filterMatches edition candidate.1 candidate.2 filter) &&
  (orders.all fun order => (fieldValue candidate.1 candidate.2 order.path).isSome) &&
  (query.start.all fun cursor =>
    let ordering := compareDocumentCursor edition candidate.1 candidate.2 orders cursor.values
    ordering == .gt || (cursor.inclusive && ordering == .eq)) &&
  (query.finish.all fun cursor =>
    let ordering := compareDocumentCursor edition candidate.1 candidate.2 orders cursor.values
    ordering == .lt || (cursor.inclusive && ordering == .eq))

/-! ## Orders -/

def FieldOperator.isInequality : FieldOperator → Bool
  | .lessThan => true
  | .lessThanOrEqual => true
  | .greaterThan => true
  | .greaterThanOrEqual => true
  | .notEqual => true
  | .notIn => true
  | _ => false

/-- Insertion into a `BTreeSet<FieldPath>`, kept as an ascending list. -/
def insertPath (path : FieldPath) : List FieldPath → List FieldPath
  | [] => [path]
  | first :: rest =>
    match FieldPath.cmp path first with
    | .lt => path :: first :: rest
    | .eq => first :: rest
    | .gt => first :: insertPath path rest

mutual

def collectInequalityFields (collected : List FieldPath) : Filter → List FieldPath
  | .field filter =>
    if filter.operator.isInequality then insertPath filter.path collected else collected
  | .and filters => collectAllInequalityFields collected filters
  | .or filters => collectAllInequalityFields collected filters

def collectAllInequalityFields (collected : List FieldPath) : List Filter → List FieldPath
  | [] => collected
  | filter :: filters => collectAllInequalityFields (collectInequalityFields collected filter) filters

end

mutual

def containsFieldFilter (path : FieldPath) (operator : FieldOperator) : Filter → Bool
  | .field filter => filter.path == path && filter.operator == operator
  | .and filters => anyContainsFieldFilter path operator filters
  | .or filters => anyContainsFieldFilter path operator filters

def anyContainsFieldFilter (path : FieldPath) (operator : FieldOperator) : List Filter → Bool
  | [] => false
  | filter :: filters =>
    containsFieldFilter path operator filter || anyContainsFieldFilter path operator filters

end

def addOrder (direction : Direction) (orders : List Order) (path : FieldPath) : List Order :=
  if orders.any fun order => order.path == path then orders else orders ++ [⟨path, direction⟩]

def normalizedOrders (query : Query) : Except QueryError (List Order) :=
  let inequalityFields := (query.filter.map (collectInequalityFields [])).getD []
  if query.filter.any (containsFieldFilter .documentId .equal) &&
      inequalityFields.any (· != .documentId) && !inequalityFields.contains .documentId then
    throw .documentKeyEqualityWithOtherInequality
  else
    let direction := (query.orders.getLast?.map Order.direction).getD .ascending
    let ordered := (inequalityFields.filter (· != .documentId)).foldl (addOrder direction)
      query.orders
    let ordered := addOrder direction ordered .documentId
    -- the name order may only come last
    if ordered.dropLast.any fun order => order.path == .documentId then
      throw .documentKeyOrderNotLast
    else pure ordered

def validateCursor (cursor : Option Cursor) (orders : List Order) : Except QueryError Unit :=
  if cursor.any fun cursor => orders.length < cursor.values.length then throw .cursorTooLong
  else pure ()

/-- The order keys of a candidate: `none` stands for its name. -/
def orderValues (candidate : DocumentKey × LazyDocument) (orders : List Order) :
    List (Option Value) :=
  orders.map fun order => (fieldValue candidate.1 candidate.2 order.path).bind FieldValue.asValue

def orderKey (key : DocumentKey) : Option Value → FieldValue
  | some value => .value value
  | none => .documentName key.toText

def compareOrderValues (leftKey rightKey : DocumentKey) :
    List Order → List (Option Value) → List (Option Value) → Ordering
  | order :: orders, left :: lefts, right :: rights =>
    (applyDirection (FieldValue.compareFields edition (orderKey leftKey left)
      (orderKey rightKey right)) order.direction).then
        (compareOrderValues leftKey rightKey orders lefts rights)
  | _, _, _ => .eq

def compareCandidates (orders : List Order) (left right : DocumentKey × LazyDocument) : Ordering :=
  compareOrderValues edition left.1 right.1 orders (orderValues left orders)
    (orderValues right orders)

/-! ## Candidates -/

/-- `splitn(7, '/')`: the seventh piece keeps its separators. -/
def documentKeyFromName (name : Text) (database : DatabaseName) : Option DocumentKey :=
  match name.split '/' with
  | projects :: project :: databases :: databaseId :: documents :: first :: second :: rest =>
    if projects = "projects".toList ∧ databases = "databases".toList ∧
        documents = "documents".toList then
      if project ≠ database.projectId ∨ databaseId ≠ database.databaseId then none
      else (DocumentKey.new database (['/'].intercalate (first :: second :: rest))).toOption
    else none
  | _ => none

def keyInScope (key : DocumentKey) (query : Query) : Bool :=
  match key.path.rsplitOnce '/' with
  | none => false
  | some (collectionPath, _) =>
    match query.scope with
    | .collection scopePath => collectionPath == scopePath
    | .collectionGroup collectionId =>
      let immediate := ((collectionPath.rsplitOnce '/').map Prod.snd).getD collectionPath
      immediate == collectionId && query.ancestor.all fun ancestor =>
        ((Text.stripPrefix ancestor key.path).bind (Text.stripPrefix ['/'])).any
          fun descendant => 2 ≤ (descendant.split '/').length

/-- The field filters of the top level, when they all have to match. -/
def topLevelFilters : Filter → Option (List FieldFilter)
  | .field filter => some [filter]
  | .and filters => some (filters.filterMap fun filter =>
    match filter with
    | .field filter => some filter
    | _ => none)
  | .or _ => none

def referenceName : Value → Option Text
  | .reference name => some name
  | _ => none

def filterNames (filter : FieldFilter) : Option (List Text) :=
  match filter.operator, filter.value with
  | .equal, .reference name => some [name]
  | .isIn, .array values => values.mapM referenceName
  | _, _ => none

def namedCandidates (query : Query) (database : DatabaseName) : Option (List DocumentKey) := do
  let filters ← query.filter.bind topLevelFilters
  let filter ← filters.find? fun filter =>
    filter.path == .documentId && (filter.operator == .equal || filter.operator == .isIn)
  let names ← filterNames filter
  let keys := (names.filterMap (documentKeyFromName · database)).filter (keyInScope · query)
  let sorted := keys.mergeSort fun left right =>
    (compareResourcePaths left.path right.path).isLE
  pure (sorted.destutter (· ≠ ·))

def scopedDocuments (snapshot : Snapshot) (database : DatabaseName) (query : Query) :
    List (DocumentKey × LazyDocument) :=
  match namedCandidates query database with
  | some keys => keys.filterMap fun key =>
    (snapshot.get key).map fun document => (key, .decoded document)
  | none =>
    match query.scope with
    | .collection collectionPath => snapshot.iterCollection database collectionPath
    | .collectionGroup collectionId =>
      snapshot.iterCollectionGroup database collectionId query.ancestor

/-! ## Projections -/

/-- `insert_projected` leaves an entry that is not a map as it is. -/
def insertProjectedEntries (value : Value) : List Text → List (Text × Value) → List (Text × Value)
  | [], entries => entries
  | [segment], entries => OrderedEntries.insert Text.cmp segment value entries
  | segment :: rest, entries =>
    match OrderedEntries.get? Text.cmp segment entries with
    | some (.map children) => OrderedEntries.insert Text.cmp segment
        (.map (insertProjectedEntries value rest children)) entries
    | some _ => entries
    | none => OrderedEntries.insert Text.cmp segment
        (.map (insertProjectedEntries value rest [])) entries

theorem ordered_insertProjectedEntries {value : Value} (valueOrdered : value.ordered = true)
    (segments : List Text) {entries : List (Text × Value)}
    (ordered : (Value.map entries).ordered = true) :
    (Value.map (insertProjectedEntries value segments entries)).ordered = true := by
  fun_induction insertProjectedEntries value segments entries with
  | case1 => exact ordered
  | case2 => exact Value.ordered_insert ordered valueOrdered _
  | case3 _ _ _ _ _ found ih =>
    exact Value.ordered_insert ordered (ih (Value.ordered_of_get? ordered found)) _
  | case4 => exact ordered
  | case5 _ _ _ _ _ ih => exact Value.ordered_insert ordered (ih rfl) _

def insertProjected (fields : Fields) (segments : List Text) (value : OrderedValue) : Fields :=
  ⟨insertProjectedEntries value.1 segments fields.entries,
    ordered_insertProjectedEntries value.2 segments fields.ordered⟩

def projectPath (fields projected : Fields) : FieldPath → Fields
  | .documentId => projected
  | .field segments =>
    match found : nestedValue fields segments with
    | none => projected
    | some value => insertProjected projected segments ⟨value, ordered_nestedValue found⟩

def project (fields : Fields) (projection : List FieldPath) : Fields :=
  projection.foldl (projectPath fields) .empty

def queryDocument (projection : Option (List FieldPath)) (candidate : DocumentKey × LazyDocument) :
    Option QueryDocument :=
  candidate.2.intoDocument.map fun document =>
    ⟨candidate.1, document, projection.map (project document.fields)⟩

/-! ## Execution -/

/-- The insertion point of `binary_search_by` in a sorted vector: before an element
that compares equal, after the smaller ones. -/
def insertSorted {α : Type} (cmp : α → α → Ordering) (candidate : α) (selected : List α) : List α :=
  let front := selected.takeWhile fun existing => cmp existing candidate != .gt
  let back := selected.drop front.length
  match front.getLast? with
  | some last =>
    if cmp last candidate == .eq then front.dropLast ++ candidate :: last :: back
    else front ++ candidate :: back
  | none => candidate :: back

def Limit.count : Limit → Nat
  | .first count => count
  | .last count => count

def boundCandidate {α : Type} (cmp : α → α → Ordering) (limit : Limit) (bound : Nat)
    (selected : List α) (candidate : α) : List α :=
  let inserted := insertSorted cmp candidate selected
  if bound < inserted.length then
    match limit with
    | .first _ => inserted.dropLast
    | .last _ => inserted.tail
  else inserted

def collectBoundedCandidates {α : Type} (cmp : α → α → Ordering) (query : Query)
    (candidates : List α) : List α :=
  match query.limit with
  | none => candidates
  | some limit =>
    if limit.count = 0 then []
    else candidates.foldl (boundCandidate cmp limit (saturatingAdd query.offset limit.count)) []

def limited {α : Type} (query : Query) (documents : List α) : List α :=
  let afterOffset := documents.drop query.offset
  match query.limit with
  | none => afterOffset
  | some (.first count) => afterOffset.take count
  | some (.last count) => afterOffset.drop (afterOffset.length - count)

/-- The streaming iterator: candidates already come in name order. -/
def streamed (query : Query) (orders : List Order) (edition : DatabaseEdition)
    (candidates : List (DocumentKey × LazyDocument)) : List (DocumentKey × LazyDocument) :=
  let matching := (candidates.filter (candidateMatches query orders edition)).drop query.offset
  match query.limit with
  | none => matching
  | some limit => matching.take limit.count

def totalPosition (number : Binary64) : Int :=
  if number.isSignNegative then -(number.magnitude : Int) - 1 else number.magnitude

section

/-! The platform's `hypot` is the only operation on doubles that is not taken from the
runtime. -/

variable (hypot : Binary64 → Binary64 → Binary64)

def floatOp (operation : Float → Float → Float) (left right : Binary64) : Binary64 :=
  ⟨(operation (Float.ofBits left.bits) (Float.ofBits right.bits)).toBits⟩

def vectorDistance (document : LazyDocument) (nearest : Nearest) : Option Binary64 :=
  match nearest.vectorField with
  | .documentId => none
  | .field segments =>
    match document.field segments with
    | some (.vector vector) =>
      if vector.length ≠ nearest.queryVector.length then none
      else
        let pairs := vector.zip nearest.queryVector
        let zero : Binary64 := ⟨0⟩
        let sumOf (terms : List Binary64) : Binary64 := terms.foldl Binary64.add zero
        let distance : Option Binary64 :=
          match nearest.distanceMeasure with
          | .euclidean => some (pairs.foldl
              (fun norm pair => hypot norm (floatOp (· - ·) pair.1 pair.2)) zero)
          | .dotProduct =>
            -- the sum of an iterator of doubles starts from negative zero
            some ((pairs.map fun pair => floatOp (· * ·) pair.1 pair.2).foldl Binary64.add
              ⟨0x8000000000000000⟩)
          | .cosine =>
            let dot := sumOf (pairs.map fun pair => floatOp (· * ·) pair.1 pair.2)
            let leftNorm := sumOf (pairs.map fun pair => floatOp (· * ·) pair.1 pair.1)
            let rightNorm := sumOf (pairs.map fun pair => floatOp (· * ·) pair.2 pair.2)
            let denominator : Binary64 :=
              ⟨(Float.ofBits (floatOp (· * ·) leftNorm rightNorm).bits).sqrt.toBits⟩
            if denominator.eq zero then none
            else some (floatOp (· - ·) ⟨(1 : Float).toBits⟩ (floatOp (· / ·) dot denominator))
        distance.filter Binary64.isFinite
    | _ => none

def thresholdMatches (distance : Binary64) (nearest : Nearest) : Bool :=
  nearest.distanceThreshold.all fun threshold =>
    if nearest.distanceMeasure = .dotProduct then distance.ge threshold
    else threshold.ge distance

def compareNearestCandidates (nearest : Nearest)
    (left right : DocumentKey × LazyDocument × Binary64) : Ordering :=
  let ordering := compare (totalPosition left.2.2) (totalPosition right.2.2)
  let ordering := if nearest.distanceMeasure = .dotProduct then ordering.swap else ordering
  ordering.then (compareResourcePaths left.1.path right.1.path)

theorem ordered_double (number : Binary64) : (Value.double number).ordered = true := rfl

def doubleValue (number : Binary64) : OrderedValue := ⟨.double number, ordered_double number⟩

def projectedNearestFields (fields : Fields) (projection : Option (List FieldPath))
    (resultField : Option FieldPath) (distance : Binary64) : Option Fields :=
  if projection.isNone && resultField.isNone then none
  else
    let result := (projection.map (project fields)).getD fields
    match resultField with
    | some (.field segments) => some (setNestedValue result segments (doubleValue distance))
    | _ => some result

def executeNearest (snapshot : Snapshot) (database : DatabaseName) (query : Query)
    (nearest : Nearest) (edition : DatabaseEdition) :
    Except QueryError (Option (List QueryDocument)) :=
  match query.start, query.finish, query.limit with
  | none, none, some (.last _) => throw .unsupportedVectorShape
  | none, none, limit =>
    let limit := (limit.map fun limit => min limit.count nearest.limit).getD nearest.limit
    let bound := saturatingAdd query.offset limit
    let measured := (scopedDocuments snapshot database query).filterMap fun candidate =>
      if query.filter.all fun filter => filterMatches edition candidate.1 candidate.2 filter then
        (vectorDistance hypot candidate.2 nearest).bind fun distance =>
          if thresholdMatches distance nearest then some (candidate.1, candidate.2, distance)
          else none
      else none
    let selected := measured.foldl
      (boundCandidate (compareNearestCandidates nearest) (.first limit) bound) []
    pure (((selected.drop query.offset).take limit).mapM fun candidate =>
      candidate.2.1.intoDocument.map fun document =>
        ⟨candidate.1, document, projectedNearestFields document.fields query.projection
          nearest.distanceResultField candidate.2.2⟩)
  | _, _, _ => throw .unsupportedVectorShape

def executeBuffered (snapshot : Snapshot) (database : DatabaseName) (query : Query)
    (edition : DatabaseEdition) (orders : List Order) :
    Except QueryError (Option (List QueryDocument)) :=
  match query.nearest with
  | some nearest => executeNearest hypot snapshot database query nearest edition
  | none =>
    let candidates := (scopedDocuments snapshot database query).filter
      (candidateMatches query orders edition)
    let compare := compareCandidates edition orders
    let documents := (collectBoundedCandidates compare query candidates).mergeSort
      fun left right => (compare left right).isLE
    pure ((limited query documents).mapM (queryDocument query.projection))

/-- Sorts keys and order values, and reloads each result from the same snapshot. -/
def orderedDisk (snapshot : Snapshot) (database : DatabaseName) (query : Query)
    (edition : DatabaseEdition) (orders : List Order) : Option (List QueryDocument) :=
  let candidates := (scopedDocuments snapshot database query).filter
    (candidateMatches query orders edition)
  let sorted := candidates.mergeSort fun left right =>
    (compareCandidates edition orders left right).isLE
  (sorted.drop query.offset).mapM fun candidate =>
    (snapshot.get candidate.1).map fun document =>
      ⟨candidate.1, document, query.projection.map (project document.fields)⟩

def Snapshot.isDiskBacked (snapshot : Snapshot) : Bool :=
  match snapshot.documents with
  | .disk _ => true
  | .memory _ => false

def isLast : Option Limit → Bool
  | some (.last _) => true
  | _ => false

/-- The results of a query; no list where the source would panic on a document that
does not decode. -/
def execute (snapshot : Snapshot) (database : DatabaseName) (query : Query)
    (edition : DatabaseEdition) : Except QueryError (Option (List QueryDocument)) := do
  let orders ← normalizedOrders query
  validateCursor query.start orders
  validateCursor query.finish orders
  if query.nearest.isNone && !isLast query.limit && orders == [⟨.documentId, .ascending⟩] then
    pure ((streamed query orders edition (scopedDocuments snapshot database query)).mapM
      (queryDocument query.projection))
  else if Snapshot.isDiskBacked snapshot && query.limit.isNone && query.nearest.isNone then
    pure (orderedDisk snapshot database query edition orders)
  else executeBuffered hypot snapshot database query edition orders

end

/-! ## Aggregations -/

def projectedValue (document : QueryDocument) : FieldPath → Option Value
  | .documentId => none
  | .field segments => nestedValue document.document.fields segments

/-- The accumulators of `sum`: the integer sum until it overflows or a double
comes. -/
structure SumState where
  integerSum : Int64 := 0
  doubleSum : Binary64 := ⟨0⟩
  hasDouble : Bool := false

def Int64.checkedAdd (left right : Int64) : Option Int64 :=
  if (Int64.ofInt (left.toInt + right.toInt)).toInt = left.toInt + right.toInt then
    some (Int64.ofInt (left.toInt + right.toInt))
  else none

def sumValue (state : SumState) : Option Value → SumState
  | some (.integer value) =>
    if state.hasDouble then { state with doubleSum := state.doubleSum.add (.ofInt64 value) }
    else
      match Int64.checkedAdd state.integerSum value with
      | some next => { state with integerSum := next }
      | none => { state with
          hasDouble := true
          doubleSum := (Binary64.ofInt64 state.integerSum).add (.ofInt64 value) }
  | some (.double value) =>
    let begun := if state.hasDouble then state.doubleSum else .ofInt64 state.integerSum
    { state with hasDouble := true, doubleSum := begun.add value }
  | _ => state

variable (documents : List QueryDocument)

def sum (field : FieldPath) : OrderedValue :=
  let state := documents.foldl (fun state document => sumValue state (projectedValue document field))
    {}
  if state.hasDouble then doubleValue state.doubleSum else ⟨.integer state.integerSum, rfl⟩

end QueryEngine
end Firenook
