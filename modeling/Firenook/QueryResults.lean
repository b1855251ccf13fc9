import Firenook.QueryEngine
import Firenook.ScopedReads

/-!
# What a query result depends on

The engine reads a candidate only through its key, its fields and the decoded
document.  Two snapshots whose candidates agree on these, position by position, give
the same result for a query.
-/

namespace Firenook.QueryEngine

open List

/-! ## Candidates that the engine cannot tell apart -/

variable {key : DocumentKey}

structure Alike (left right : DocumentKey × LazyDocument) : Prop where
  key : left.1 = right.1
  field : left.2.field = right.2.field
  decoded : left.2.intoDocument = right.2.intoDocument

structure Twins where
  left : DocumentKey × LazyDocument
  right : DocumentKey × LazyDocument
  alike : Alike left right

open Twins (left right alike)

variable {lefts rights : List (DocumentKey × LazyDocument)}

theorem exists_twins (alike : Forall₂ Alike lefts rights) :
    ∃ twins : List Twins, lefts = twins.map left ∧ rights = twins.map right := by
  induction alike with
  | nil => exact ⟨[], rfl, rfl⟩
  | @cons left right _ _ here _ ih =>
    obtain ⟨twins, rfl, rfl⟩ := ih
    exact ⟨⟨left, right, here⟩ :: twins, rfl, rfl⟩

theorem alike_of_shows {left right : LazyDocument} {document : Document}
    (showsLeft : left.Shows document) (showsRight : right.Shows document) :
    Alike (key, left) (key, right) where
  key := rfl
  field := by
    funext segments
    rw [showsLeft.2, showsRight.2]
  decoded := by rw [showsLeft.1, showsRight.1]

theorem forall₂_alike {listed : List (DocumentKey × Document)} (showsLeft : ShowsAll lefts listed)
    (showsRight : ShowsAll rights listed) : Forall₂ Alike lefts rights := by
  induction showsLeft generalizing rights with
  | nil =>
    cases showsRight
    exact .nil
  | @cons left entry _ _ here _ ih =>
    cases showsRight with
    | @cons right _ _ _ there rest =>
      obtain ⟨key, lazy⟩ := left
      obtain ⟨otherKey, other⟩ := right
      obtain ⟨rfl, showsHere⟩ := here
      obtain ⟨rfl, showsThere⟩ := there
      exact .cons (alike_of_shows showsHere showsThere) (ih rest)

section

variable {left right : DocumentKey × LazyDocument} {edition : DatabaseEdition}

section

variable (alike : Alike left right)
include alike

theorem Alike.fieldValue (path : FieldPath) :
    fieldValue left.1 left.2 path = fieldValue right.1 right.2 path := by
  cases path with
  | documentId => rw [QueryEngine.fieldValue, QueryEngine.fieldValue, alike.key]
  | field segments => rw [QueryEngine.fieldValue, QueryEngine.fieldValue, alike.field]

theorem Alike.fieldFilterMatches (filter : FieldFilter) :
    fieldFilterMatches edition filter left.1 left.2 =
      fieldFilterMatches edition filter right.1 right.2 := by
  rw [QueryEngine.fieldFilterMatches, QueryEngine.fieldFilterMatches, alike.fieldValue]

end

mutual

theorem filterMatches_alike (alike : Alike left right) : ∀ filter : Filter,
    filterMatches edition left.1 left.2 filter = filterMatches edition right.1 right.2 filter
  | .field filter => alike.fieldFilterMatches filter
  | .and filters => allFiltersMatch_alike alike filters
  | .or filters => anyFilterMatches_alike alike filters

theorem allFiltersMatch_alike (alike : Alike left right) : ∀ filters : List Filter,
    allFiltersMatch edition left.1 left.2 filters = allFiltersMatch edition right.1 right.2 filters
  | [] => rfl
  | filter :: filters => by
    rw [allFiltersMatch, allFiltersMatch, filterMatches_alike alike filter,
      allFiltersMatch_alike alike filters]

theorem anyFilterMatches_alike (alike : Alike left right) : ∀ filters : List Filter,
    anyFilterMatches edition left.1 left.2 filters =
      anyFilterMatches edition right.1 right.2 filters
  | [] => rfl
  | filter :: filters => by
    rw [anyFilterMatches, anyFilterMatches, filterMatches_alike alike filter,
      anyFilterMatches_alike alike filters]

end

section

variable (alike : Alike left right)
include alike

theorem Alike.compareDocumentCursor (orders : List Order) (values : List Value) :
    compareDocumentCursor edition left.1 left.2 orders values =
      compareDocumentCursor edition right.1 right.2 orders values := by
  induction orders generalizing values with
  | nil => rfl
  | cons order orders ih =>
    cases values with
    | nil => rfl
    | cons value values =>
      rw [QueryEngine.compareDocumentCursor, QueryEngine.compareDocumentCursor,
        alike.fieldValue, ih]

theorem Alike.candidateMatches (query : Query) (orders : List Order) :
    candidateMatches query orders edition left = candidateMatches query orders edition right := by
  simp only [QueryEngine.candidateMatches, filterMatches_alike alike, alike.fieldValue,
    alike.compareDocumentCursor]

theorem Alike.orderValues (orders : List Order) :
    orderValues left orders = orderValues right orders := by
  simp only [QueryEngine.orderValues, alike.fieldValue]

theorem Alike.queryDocument (projection : Option (List FieldPath)) :
    queryDocument projection left = queryDocument projection right := by
  rw [QueryEngine.queryDocument, QueryEngine.queryDocument, alike.decoded, alike.key]

end

end

theorem Twins.compareCandidates (edition : DatabaseEdition) (orders : List Order)
    (first second : Twins) :
    compareCandidates edition orders first.left second.left =
      compareCandidates edition orders first.right second.right := by
  rw [QueryEngine.compareCandidates, QueryEngine.compareCandidates, first.alike.key,
    second.alike.key, first.alike.orderValues, second.alike.orderValues]

/-! ## Selection commutes with renaming the candidates -/

section

variable {α β : Type} (cmp : β → β → Ordering) (f : α → β)

theorem map_insertSorted (candidate : α) (selected : List α) :
    (insertSorted (fun first second => cmp (f first) (f second)) candidate selected).map f =
      insertSorted cmp (f candidate) (selected.map f) := by
  simp only [insertSorted, takeWhile_map, Function.comp_def, length_map, getLast?_map, ← map_drop]
  cases (selected.takeWhile fun existing => cmp (f existing) (f candidate) != .gt).getLast? with
  | none => rfl
  | some last =>
    simp only [Option.map_some]
    split_ifs <;> simp

theorem map_boundCandidate (limit : Limit) (bound : Nat) (selected : List α) (candidate : α) :
    (boundCandidate (fun first second => cmp (f first) (f second)) limit bound selected
      candidate).map f = boundCandidate cmp limit bound (selected.map f) (f candidate) := by
  simp only [boundCandidate, ← map_insertSorted, length_map]
  split_ifs
  · cases limit <;> simp
  · rfl

theorem map_foldl_boundCandidate (limit : Limit) (bound : Nat) (selected candidates : List α) :
    (candidates.foldl (boundCandidate (fun first second => cmp (f first) (f second)) limit bound)
      selected).map f =
        (candidates.map f).foldl (boundCandidate cmp limit bound) (selected.map f) := by
  induction candidates generalizing selected with
  | nil => rfl
  | cons candidate candidates ih =>
    rw [foldl_cons, ih, map_boundCandidate, map_cons, foldl_cons]

theorem map_collectBoundedCandidates (query : Query) (candidates : List α) :
    (collectBoundedCandidates (fun first second => cmp (f first) (f second)) query
      candidates).map f = collectBoundedCandidates cmp query (candidates.map f) := by
  rw [collectBoundedCandidates, collectBoundedCandidates]
  cases query.limit with
  | none => rfl
  | some limit =>
    simp only
    split_ifs
    · rfl
    · exact map_foldl_boundCandidate cmp f limit _ [] candidates

theorem map_limited (query : Query) (documents : List α) :
    (limited query documents).map f = limited query (documents.map f) := by
  simp only [limited]
  cases query.limit with
  | none => simp
  | some limit => cases limit <;> simp

end

/-! ## Results -/

section

variable {first second : Snapshot} {database : DatabaseName} (query : Query)
  (edition : DatabaseEdition) (hypot : Binary64 → Binary64 → Binary64)

theorem mapM_queryDocument_twins (projection : Option (List FieldPath)) (twins : List Twins) :
    (twins.map left).mapM (queryDocument projection) =
      (twins.map right).mapM (queryDocument projection) := by
  simp only [mapM_map]
  congr 1
  funext pair
  exact pair.alike.queryDocument projection

section

variable (orders : List Order) (twins : List Twins)

theorem filter_candidateMatches_twins : ∃ kept : List Twins,
      (twins.map left).filter (candidateMatches query orders edition) = kept.map left ∧
      (twins.map right).filter (candidateMatches query orders edition) =
        kept.map right := by
  refine ⟨twins.filter fun pair => candidateMatches query orders edition pair.left, ?_, ?_⟩
  · rw [filter_map]
    rfl
  · rw [filter_map]
    congr 2
    funext pair
    exact (pair.alike.candidateMatches query orders).symm

theorem streamed_twins : ∃ kept : List Twins,
      streamed query orders edition (twins.map left) = kept.map left ∧
      streamed query orders edition (twins.map right) = kept.map right := by
  obtain ⟨kept, isLeft, isRight⟩ := filter_candidateMatches_twins query edition orders twins
  rw [streamed, streamed, isLeft, isRight]
  cases query.limit with
  | none => exact ⟨kept.drop query.offset, by simp, by simp⟩
  | some limit => exact ⟨(kept.drop query.offset).take limit.count, by simp, by simp⟩

theorem mergeSort_twins : ∃ sorted : List Twins,
      ((twins.map left).mergeSort fun left right =>
        (compareCandidates edition orders left right).isLE) = sorted.map left ∧
      ((twins.map right).mergeSort fun left right =>
        (compareCandidates edition orders left right).isLE) = sorted.map right := by
  refine ⟨twins.mergeSort fun left right =>
    (compareCandidates edition orders left.left right.left).isLE, ?_, ?_⟩
  · symm
    apply map_mergeSort
    intro left _ right _
    rfl
  · symm
    apply map_mergeSort
    intro left _ right _
    rw [Twins.compareCandidates]

theorem collectBoundedCandidates_twins : ∃ selected : List Twins,
      collectBoundedCandidates (compareCandidates edition orders) query (twins.map left) =
        selected.map left ∧
      collectBoundedCandidates (compareCandidates edition orders) query (twins.map right) =
        selected.map right := by
  refine ⟨collectBoundedCandidates (fun left right =>
    compareCandidates edition orders left.left right.left) query twins, ?_, ?_⟩
  · exact (map_collectBoundedCandidates _ _ query twins).symm
  · rw [← map_collectBoundedCandidates]
    simp only [Twins.compareCandidates]

end

theorem Alike.vectorDistance {left right : DocumentKey × LazyDocument} (alike : Alike left right)
    (nearest : Nearest) :
    vectorDistance hypot left.2 nearest = vectorDistance hypot right.2 nearest := by
  simp only [QueryEngine.vectorDistance, alike.field]

def keptDistance (nearest : Nearest) (candidate : DocumentKey × LazyDocument) : Option Binary64 :=
  if query.filter.all fun filter => filterMatches edition candidate.1 candidate.2 filter then
    (vectorDistance hypot candidate.2 nearest).filter (thresholdMatches · nearest)
  else none

theorem Alike.keptDistance {left right : DocumentKey × LazyDocument} (alike : Alike left right)
    (nearest : Nearest) :
    keptDistance query edition hypot nearest left =
      keptDistance query edition hypot nearest right := by
  simp only [QueryEngine.keptDistance, filterMatches_alike alike, alike.vectorDistance]

def measuredCandidates (nearest : Nearest) (candidates : List (DocumentKey × LazyDocument)) :
    List (DocumentKey × LazyDocument × Binary64) :=
  candidates.filterMap fun candidate =>
    (keptDistance query edition hypot nearest candidate).map fun distance =>
      (candidate.1, candidate.2, distance)

theorem executeNearest_eq (snapshot : Snapshot) (database : DatabaseName) (nearest : Nearest) :
    executeNearest hypot snapshot database query nearest edition =
      match query.start, query.finish, query.limit with
      | none, none, some (.last _) => throw .unsupportedVectorShape
      | none, none, limit =>
        let limit := (limit.map fun limit => min limit.count nearest.limit).getD nearest.limit
        let selected := (measuredCandidates query edition hypot nearest
            (scopedDocuments snapshot database query)).foldl
            (boundCandidate (compareNearestCandidates nearest) (.first limit)
              (saturatingAdd query.offset limit)) []
        pure (((selected.drop query.offset).take limit).mapM fun candidate =>
          candidate.2.1.intoDocument.map fun document =>
            ⟨candidate.1, document, projectedNearestFields document.fields query.projection
              nearest.distanceResultField candidate.2.2⟩)
      | _, _, _ => throw .unsupportedVectorShape := by
  have measured : (fun candidate : DocumentKey × LazyDocument =>
      if query.filter.all fun filter => filterMatches edition candidate.1 candidate.2 filter then
        (vectorDistance hypot candidate.2 nearest).bind fun distance =>
          if thresholdMatches distance nearest then some (candidate.1, candidate.2, distance)
          else none
      else none) = fun candidate =>
        (keptDistance query edition hypot nearest candidate).map fun distance =>
          (candidate.1, candidate.2, distance) := by
    funext candidate
    rw [keptDistance]
    split_ifs
    · cases vectorDistance hypot candidate.2 nearest with
      | none => rfl
      | some distance => by_cases within : thresholdMatches distance nearest <;> simp [within]
    · rfl
  rw [executeNearest, measured]
  rfl

def leftMeasured (pair : Twins × Binary64) : DocumentKey × LazyDocument × Binary64 :=
  (pair.1.left.1, pair.1.left.2, pair.2)

def rightMeasured (pair : Twins × Binary64) : DocumentKey × LazyDocument × Binary64 :=
  (pair.1.right.1, pair.1.right.2, pair.2)

section

variable (nearest : Nearest)

theorem measuredCandidates_twins (twins : List Twins) : ∃ measured : List (Twins × Binary64),
      measuredCandidates query edition hypot nearest (twins.map left) =
        measured.map leftMeasured ∧
      measuredCandidates query edition hypot nearest (twins.map right) =
        measured.map rightMeasured := by
  refine ⟨twins.filterMap fun pair => (keptDistance query edition hypot nearest pair.left).map
    fun distance => (pair, distance), ?_, ?_⟩
  · simp [measuredCandidates, map_filterMap, Function.comp_def, leftMeasured]
  · simp [measuredCandidates, map_filterMap, Function.comp_def,
      rightMeasured, (alike _).keptDistance query edition hypot]

theorem compareNearestCandidates_twins (pair other : Twins × Binary64) :
    compareNearestCandidates nearest (leftMeasured pair) (leftMeasured other) =
      compareNearestCandidates nearest (rightMeasured pair) (rightMeasured other) := by
  simp only [compareNearestCandidates, leftMeasured, rightMeasured, (alike _).key]

theorem foldl_boundCandidate_twins (limit : Limit) (bound : Nat)
    (measured : List (Twins × Binary64)) : ∃ selected : List (Twins × Binary64),
      (measured.map leftMeasured).foldl
        (boundCandidate (compareNearestCandidates nearest) limit bound) [] =
          selected.map leftMeasured ∧ (measured.map rightMeasured).foldl
        (boundCandidate (compareNearestCandidates nearest) limit bound) [] =
          selected.map rightMeasured := by
  refine ⟨measured.foldl (boundCandidate (fun pair other => compareNearestCandidates nearest
    (leftMeasured pair) (leftMeasured other)) limit bound) [], ?_, ?_⟩
  · exact (map_foldl_boundCandidate _ leftMeasured limit bound [] measured).symm
  · simp only [compareNearestCandidates_twins]
    exact (map_foldl_boundCandidate _ rightMeasured limit bound [] measured).symm

theorem executeNearest_congr (alike : Forall₂ Alike (scopedDocuments first database query)
      (scopedDocuments second database query)) :
    executeNearest hypot first database query nearest edition =
      executeNearest hypot second database query nearest edition := by
  obtain ⟨twins, isFirst, isSecond⟩ := exists_twins alike
  obtain ⟨measured, isLeft, isRight⟩ := measuredCandidates_twins query edition hypot nearest twins
  have same : ∀ limit bound count,
      (((measured.map leftMeasured).foldl
        (boundCandidate (compareNearestCandidates nearest) limit bound) []).drop query.offset
          |>.take count).mapM (fun candidate => candidate.2.1.intoDocument.map fun document =>
            (⟨candidate.1, document, projectedNearestFields document.fields query.projection
              nearest.distanceResultField candidate.2.2⟩ : QueryDocument)) =
      (((measured.map rightMeasured).foldl
        (boundCandidate (compareNearestCandidates nearest) limit bound) []).drop query.offset
          |>.take count).mapM (fun candidate => candidate.2.1.intoDocument.map fun document =>
            ⟨candidate.1, document, projectedNearestFields document.fields query.projection
              nearest.distanceResultField candidate.2.2⟩) := by
    intro limit bound count
    obtain ⟨selected, left, right⟩ := foldl_boundCandidate_twins nearest limit bound measured
    simp only [left, right, ← map_drop, ← map_take, mapM_map, Function.comp_def,
      leftMeasured, rightMeasured, (Twins.alike _).decoded, (Twins.alike _).key]
  simp only [executeNearest_eq, isFirst, isSecond, isLeft, isRight, same]

end

theorem mapM_congr_of_mem {α β : Type} {f g : α → Option β} {list : List α}
    (same : ∀ item ∈ list, f item = g item) : list.mapM f = list.mapM g := by
  induction list with
  | nil => rfl
  | cons item list ih =>
    rw [forall_mem_cons] at same
    rw [mapM_cons, mapM_cons, same.1, ih same.2]

section

variable (alike : Forall₂ Alike (scopedDocuments first database query)
  (scopedDocuments second database query))
include alike

theorem executeBuffered_congr (orders : List Order) :
    executeBuffered hypot first database query edition orders =
      executeBuffered hypot second database query edition orders := by
  rw [executeBuffered, executeBuffered]
  cases query.nearest with
  | some nearest => exact executeNearest_congr query edition hypot nearest alike
  | none =>
    obtain ⟨twins, isFirst, isSecond⟩ := exists_twins alike
    obtain ⟨kept, keptLeft, keptRight⟩ := filter_candidateMatches_twins query edition orders twins
    obtain ⟨bounded, boundedLeft, boundedRight⟩ :=
      collectBoundedCandidates_twins query edition orders kept
    obtain ⟨sorted, sortedLeft, sortedRight⟩ := mergeSort_twins edition orders bounded
    simp only [isFirst, isSecond, keptLeft, keptRight, boundedLeft, boundedRight, sortedLeft,
      sortedRight, ← map_limited, mapM_queryDocument_twins]

variable (reloads : ∀ candidate ∈ scopedDocuments first database query,
  first.get candidate.1 = second.get candidate.1)
include reloads

theorem orderedDisk_congr (orders : List Order) :
    orderedDisk first database query edition orders =
      orderedDisk second database query edition orders := by
  obtain ⟨twins, isFirst, isSecond⟩ := exists_twins alike
  obtain ⟨kept, keptLeft, keptRight⟩ := filter_candidateMatches_twins query edition orders twins
  obtain ⟨sorted, sortedLeft, sortedRight⟩ := mergeSort_twins edition orders kept
  have within : ∀ pair ∈ sorted, pair.left ∈ scopedDocuments first database query := by
    intro pair member
    have isSorted := mem_map_of_mem (f := left) member
    rw [← sortedLeft, mem_mergeSort, ← keptLeft, ← isFirst] at isSorted
    exact (mem_filter.mp isSorted).1
  rw [orderedDisk, orderedDisk, isFirst, isSecond, keptLeft, keptRight, sortedLeft, sortedRight,
    ← map_drop, ← map_drop, mapM_map, mapM_map]
  apply mapM_congr_of_mem
  intro pair member
  have reloaded := reloads _ (within pair (mem_of_mem_drop member))
  rw [pair.alike.key] at reloaded
  simp only [Function.comp_apply, pair.alike.key, reloaded]

/-- A result depends on the candidates, on whether the documents are on disk and, where
they are, on the documents that the candidates' keys are reloaded from. -/
theorem execute_congr (backed : Snapshot.isDiskBacked first = Snapshot.isDiskBacked second) :
    execute hypot first database query edition = execute hypot second database query edition := by
  obtain ⟨twins, isFirst, isSecond⟩ := exists_twins alike
  have streams : ∀ orders,
      (streamed query orders edition (scopedDocuments first database query)).mapM (queryDocument query.projection) =
        (streamed query orders edition (scopedDocuments second database query)).mapM (queryDocument query.projection) := by
    intro orders
    obtain ⟨kept, left, right⟩ := streamed_twins query edition orders twins
    rw [isFirst, isSecond, left, right, mapM_queryDocument_twins]
  simp only [execute, streams, backed, orderedDisk_congr query edition alike reloads,
    executeBuffered_congr query edition hypot alike]

end

end

/-! ## Scopes -/

def InScope (query : Query) (database : DatabaseName) (key : DocumentKey) : Prop :=
  match query.scope with
  | .collection collectionPath => InCollection database collectionPath key
  | .collectionGroup collectionId => InCollectionGroup database collectionId query.ancestor key

theorem lastPiece_eq_rsplitOnce (text : Text) :
    ((text.rsplitOnce '/').map Prod.snd).getD text = Text.lastPiece '/' text := by
  rw [Text.rsplitOnce, Text.lastPiece]
  split_ifs with single
  · have joined : ['/'].intercalate (text.splitOn '/') = text := intercalate_splitOn '/'
    have nonempty : text.splitOn '/' ≠ [] := splitOn_ne_nil '/' text
    rw [Text.split] at single ⊢
    rcases pieces : text.splitOn '/' with _ | ⟨piece, _ | ⟨second, rest⟩⟩
    · exact absurd pieces nonempty
    · rw [pieces] at joined
      simpa using joined.symm
    · simp [pieces] at single
  · rfl

variable {database : DatabaseName}

theorem keyInScope_iff {query : Query} (ofDatabase : key.database = database) :
    keyInScope key query = true ↔ InScope query database key := by
  obtain ⟨collectionPath, documentId, splits⟩ := exists_rsplitOnce key
  rw [keyInScope, InScope]
  cases isScope : query.scope with
  | collection scopePath => simp [splits, InCollection, collectionKey_eq_iff, ofDatabase]
  | collectionGroup collectionId =>
    have under : ∀ above, ((Text.stripPrefix above key.path).bind (Text.stripPrefix ['/'])).any
        (fun descendant => 2 ≤ (descendant.split '/').length) = true ↔
          UnderAncestor above key.path := by
      intro above
      rw [← ancestorMatches_iff, ancestorMatches]
      cases (Text.stripPrefix above key.path).bind (Text.stripPrefix ['/']) <;> simp
    simp only [splits, InCollectionGroup, collectionGroupKey_eq_iff, ofDatabase,
      immediateCollectionId, lastPiece_eq_rsplitOnce, Bool.and_eq_true, beq_iff_eq,
      Option.map_some, Option.some.injEq, true_and]
    refine and_congr_right fun _ => ?_
    cases query.ancestor with
    | none => simp
    | some above => simpa using under above

theorem database_of_documentKeyFromName {name : Text}
    (isKey : documentKeyFromName name database = some key) : key.database = database := by
  rw [documentKeyFromName] at isKey
  split at isKey
  · split_ifs at isKey
    rw [DocumentKey.new] at isKey
    split at isKey
    · cases isKey
    · cases isKey
      rfl
  · cases isKey

theorem namedCandidates_inScope {query : Query}
    {keys : List DocumentKey} (named : namedCandidates query database = some keys)
    (member : key ∈ keys) : InScope query database key := by
  simp only [namedCandidates, Option.bind_eq_bind, Option.bind_eq_some_iff, Option.pure_def,
    Option.some.injEq] at named
  obtain ⟨filters, _, filter, _, names, _, rfl⟩ := named
  have kept := (destutter_sublist _ _).subset member
  rw [mem_mergeSort, mem_filter, mem_filterMap] at kept
  obtain ⟨⟨name, _, isKey⟩, inScope⟩ := kept
  exact (keyInScope_iff (database_of_documentKeyFromName isKey)).mp inScope

theorem scopedDocuments_alike {first second : Snapshot} {query : Query}
    (lists : first.ListsScopes) (listsSecond : second.ListsScopes)
    (same : ∀ key, InScope query database key → first.get key = second.get key) :
    Forall₂ Alike (scopedDocuments first database query)
        (scopedDocuments second database query) ∧
      ∀ candidate ∈ scopedDocuments first database query,
        first.get candidate.1 = second.get candidate.1 := by
  rw [scopedDocuments, scopedDocuments]
  cases named : namedCandidates query database with
  | some keys =>
    have sameNamed : ∀ key ∈ keys, first.get key = second.get key := by
      intro key member
      exact same key (namedCandidates_inScope named member)
    constructor
    · have sameList : (keys.filterMap fun key =>
          (first.get key).map fun document => (key, LazyDocument.decoded document)) =
            keys.filterMap fun key =>
              (second.get key).map fun document => (key, LazyDocument.decoded document) := by
        apply filterMap_congr
        intro key member
        rw [sameNamed key member]
      simp only [sameList]
      exact forall₂_same.mpr fun candidate _ => ⟨rfl, rfl, rfl⟩
    · intro candidate member
      obtain ⟨key, isNamed, isCandidate⟩ := mem_filterMap.mp member
      obtain ⟨document, _, rfl⟩ := Option.map_eq_some_iff.mp isCandidate
      exact sameNamed key isNamed
  | none =>
    cases isScope : query.scope with
    | collection collectionPath =>
      have agree : ∀ key, InCollection database collectionPath key →
          first.get key = second.get key := by
        simpa only [InScope, isScope] using same
      obtain ⟨listed, shows, showsSecond⟩ := (lists.collection database collectionPath).same
        agree (listsSecond.collection database collectionPath)
      refine ⟨forall₂_alike shows showsSecond, ?_⟩
      intro candidate member
      exact agree _ ((lists.collection database collectionPath).mem member).1
    | collectionGroup collectionId =>
      have agree : ∀ key, InCollectionGroup database collectionId query.ancestor key →
          first.get key = second.get key := by
        simpa only [InScope, isScope] using same
      obtain ⟨listed, shows, showsSecond⟩ :=
        (lists.collectionGroup database collectionId query.ancestor).same agree
          (listsSecond.collectionGroup database collectionId query.ancestor)
      refine ⟨forall₂_alike shows showsSecond, ?_⟩
      intro candidate member
      exact agree _ ((lists.collectionGroup database collectionId query.ancestor).mem member).1

/-! ## Results are stored documents -/

section

variable {α : Type} {cmp : α → α → Ordering}

theorem insertSorted_perm (cmp : α → α → Ordering) (candidate : α) (selected : List α) :
    (insertSorted cmp candidate selected).Perm (candidate :: selected) := by
  rw [insertSorted]
  generalize isFront : (selected.takeWhile fun existing => cmp existing candidate != .gt) = front
  have whole : front ++ selected.drop front.length = selected := by
    have split := takeWhile_append_dropWhile
      (p := fun existing => cmp existing candidate != .gt) (l := selected)
    rw [isFront] at split
    conv_lhs => rw [← split, drop_left]
    exact split
  have inserted : (front ++ candidate :: selected.drop front.length).Perm
      (candidate :: selected) := by
    conv_rhs => rw [← whole]
    exact perm_middle
  split
  · next last isLast =>
    split_ifs
    · refine .trans ?_ inserted
      have ends : front.dropLast ++ [last] = front := dropLast_append_getLast? last isLast
      generalize selected.drop front.length = back
      calc front.dropLast ++ candidate :: last :: back
          |>.Perm (front.dropLast ++ last :: candidate :: back) := .append_left _ (.swap _ _ _)
        _ = front ++ candidate :: back := by
          conv_rhs => rw [← ends, append_assoc]
          rfl
    · exact inserted
  · next none =>
    rw [getLast?_eq_none_iff.mp none, length_nil, drop_zero]

/-- Nothing but the given candidates is collected, and none twice. -/
theorem foldl_boundCandidate_subperm (limit : Limit) (bound : Nat) (selected candidates : List α) :
    (candidates.foldl (boundCandidate cmp limit bound) selected).Subperm
      (candidates ++ selected) := by
  induction candidates generalizing selected with
  | nil => exact .refl _
  | cons candidate candidates ih =>
    have bounded : (boundCandidate cmp limit bound selected candidate).Subperm
        (candidate :: selected) := by
      apply Subperm.trans _ (insertSorted_perm cmp candidate selected).subperm
      simp only [boundCandidate]
      split_ifs
      · cases limit with
        | first count => exact (dropLast_sublist _).subperm
        | last count => exact (tail_sublist _).subperm
      · exact .refl _
    refine (ih _).trans ((subperm_append_left candidates).mpr bounded |>.trans ?_)
    exact perm_middle.subperm

theorem collectBoundedCandidates_subperm (query : Query) (candidates : List α) :
    (collectBoundedCandidates cmp query candidates).Subperm candidates := by
  rw [collectBoundedCandidates]
  split
  · exact .refl _
  · split_ifs
    · exact nil_subperm
    · simpa using foldl_boundCandidate_subperm _ _ [] candidates

theorem limited_sublist (query : Query) (documents : List α) :
    (limited query documents).Sublist documents := by
  rw [limited]
  split
  · exact drop_sublist _ _
  · exact (take_sublist _ _).trans (drop_sublist _ _)
  · exact (drop_sublist _ _).trans (drop_sublist _ _)

end

theorem exists_of_mem_mapM {α β : Type} {f : α → Option β} {list : List α} {images : List β}
    (mapped : list.mapM f = some images) {image : β} (member : image ∈ images) :
    ∃ item ∈ list, f item = some image := by
  induction list generalizing images with
  | nil =>
    cases mapped
    cases member
  | cons item list ih =>
    simp only [mapM_cons, Option.bind_eq_bind, Option.bind_eq_some_iff, Option.pure_def,
      Option.some.injEq] at mapped
    obtain ⟨first, isFirst, rest, isRest, rfl⟩ := mapped
    rcases mem_cons.mp member with rfl | member
    · exact ⟨item, mem_cons_self, isFirst⟩
    · obtain ⟨other, isOther, isImage⟩ := ih isRest member
      exact ⟨other, mem_cons_of_mem _ isOther, isImage⟩

section

variable {snapshot : Snapshot} {database : DatabaseName} {query : Query}
  {edition : DatabaseEdition} {hypot : Binary64 → Binary64 → Binary64} {result : QueryDocument}
  {results : List QueryDocument}

def FromCandidate (snapshot : Snapshot) (database : DatabaseName) (query : Query)
    (result : QueryDocument) : Prop :=
  ∃ candidate ∈ scopedDocuments snapshot database query, result.key = candidate.1 ∧
    (candidate.2.intoDocument = some result.document ∨
      snapshot.get candidate.1 = some result.document)

variable {candidate : DocumentKey × LazyDocument}

theorem fromCandidate_queryDocument {projection : Option (List FieldPath)}
    (member : candidate ∈ scopedDocuments snapshot database query)
    (shown : queryDocument projection candidate = some result) :
    FromCandidate snapshot database query result := by
  obtain ⟨document, decoded, rfl⟩ := Option.map_eq_some_iff.mp shown
  exact ⟨candidate, member, rfl, .inl decoded⟩

theorem fromCandidate_executeNearest {nearest : Nearest}
    (executed : executeNearest hypot snapshot database query nearest edition =
      .ok (some results)) (member : result ∈ results) :
    FromCandidate snapshot database query result := by
  rw [executeNearest_eq] at executed
  split at executed
  · cases executed
  · obtain ⟨measured, isMeasured, shown⟩ := exists_of_mem_mapM (Except.ok.inj executed) member
    obtain ⟨document, decoded, rfl⟩ := Option.map_eq_some_iff.mp shown
    have isCandidate := (foldl_boundCandidate_subperm _ _ [] _).subset
      (mem_of_mem_drop (mem_of_mem_take isMeasured))
    rw [append_nil] at isCandidate
    obtain ⟨candidate, isScoped, isKept⟩ := mem_filterMap.mp isCandidate
    obtain ⟨distance, _, rfl⟩ := Option.map_eq_some_iff.mp isKept
    exact ⟨candidate, isScoped, rfl, .inl decoded⟩
  · cases executed

theorem fromCandidate_executeBuffered {orders : List Order}
    (executed : executeBuffered hypot snapshot database query edition orders =
      .ok (some results)) (member : result ∈ results) :
    FromCandidate snapshot database query result := by
  rw [executeBuffered] at executed
  split at executed
  · exact fromCandidate_executeNearest executed member
  · obtain ⟨candidate, isCandidate, shown⟩ := exists_of_mem_mapM (Except.ok.inj executed) member
    have sorted := (limited_sublist _ _).subset isCandidate
    rw [mem_mergeSort] at sorted
    have filtered := (collectBoundedCandidates_subperm _ _).subset sorted
    exact fromCandidate_queryDocument (mem_filter.mp filtered).1 shown

theorem fromCandidate_execute
    (executed : execute hypot snapshot database query edition = .ok (some results))
    (member : result ∈ results) : FromCandidate snapshot database query result := by
  simp only [execute, bind_eq_ok] at executed
  obtain ⟨orders, _, _, _, _, _, executed⟩ := executed
  split_ifs at executed
  · obtain ⟨candidate, isCandidate, shown⟩ := exists_of_mem_mapM (Except.ok.inj executed) member
    have kept : candidate ∈ (scopedDocuments snapshot database query).filter
        (candidateMatches query orders edition) := by
      rw [streamed] at isCandidate
      split at isCandidate
      · exact mem_of_mem_drop isCandidate
      · exact mem_of_mem_drop (mem_of_mem_take isCandidate)
    exact fromCandidate_queryDocument (mem_filter.mp kept).1 shown
  · obtain ⟨candidate, isCandidate, shown⟩ := exists_of_mem_mapM (Except.ok.inj executed) member
    obtain ⟨document, reloaded, rfl⟩ := Option.map_eq_some_iff.mp shown
    have sorted := mem_of_mem_drop isCandidate
    rw [mem_mergeSort] at sorted
    exact ⟨candidate, (mem_filter.mp sorted).1, rfl, .inr reloaded⟩
  · exact fromCandidate_executeBuffered executed member

theorem intoDocument_of_mem_scopedDocuments (lists : snapshot.ListsScopes)
    (member : candidate ∈ scopedDocuments snapshot database query) :
    candidate.2.intoDocument = snapshot.get candidate.1 := by
  rw [scopedDocuments] at member
  split at member
  · obtain ⟨key, _, isCandidate⟩ := mem_filterMap.mp member
    obtain ⟨document, found, rfl⟩ := Option.map_eq_some_iff.mp isCandidate
    exact found.symm
  · split at member
    · exact ((lists.collection database _).mem member).2
    · exact ((lists.collectionGroup database _ query.ancestor).mem member).2

theorem get_of_mem_execute (lists : snapshot.ListsScopes)
    (executed : execute hypot snapshot database query edition = .ok (some results))
    (member : result ∈ results) : snapshot.get result.key = some result.document := by
  obtain ⟨candidate, isCandidate, isKey, decoded | found⟩ := fromCandidate_execute executed member
  · rw [isKey, ← intoDocument_of_mem_scopedDocuments lists isCandidate, decoded]
  · rw [isKey, found]

end

end Firenook.QueryEngine
