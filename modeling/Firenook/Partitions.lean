import Firenook.EvenSplits
import Firenook.RetainedScopes

/-!
# Partitions of collection groups

The split points of a collection group query.  They cut the result evenly at positions of the
result; as names they are strictly ascending where the stored names are.
-/

namespace Firenook
namespace QueryEngine

open EvenSplits OrderedEntries List

structure PartitionCursor where
  values : List Value
  before : Bool

inductive PartitionError
  | invalidPartitionCount
  | unsupportedPartitionQuery
  | query (error : QueryError)

def QueryScope.isCollectionGroup : QueryScope → Bool
  | .collectionGroup _ => true
  | .collection _ => false

def supportedPartitionQuery (query : Query) : Bool :=
  query.scope.isCollectionGroup && query.ancestor.isNone && query.filter.isNone &&
  query.orders == [⟨.documentId, .ascending⟩] && query.start.isNone && query.finish.isNone &&
  query.offset == 0 && query.limit.isNone && query.projection.isNone && query.nearest.isNone

def partitionCursor (document : QueryDocument) : PartitionCursor :=
  ⟨[.reference document.key.toText], false⟩

variable (documents : List QueryDocument)

/-- The cursors at the split points; none where the source would index out of bounds. -/
def partitionCursors (maximumPoints : Nat) : Option (List PartitionCursor) :=
  let pointCount := min maximumPoints (documents.length - 1)
  if pointCount = 0 then some []
  else
    let segmentCount := pointCount + 1
    let segmentSize := documents.length / segmentCount
    let remainder := documents.length % segmentCount
    (range' 1 pointCount).mapM fun point =>
      documents[segmentSize * point + min remainder point]?.map partitionCursor

section

variable (hypot : Binary64 → Binary64 → Binary64)

def partition (snapshot : Snapshot) (database : DatabaseName) (query : Query)
    (edition : DatabaseEdition) (maximumPoints : Nat) :
    Except PartitionError (Option (List PartitionCursor)) :=
  if maximumPoints = 0 then .error .invalidPartitionCount
  else if !supportedPartitionQuery query then .error .unsupportedPartitionQuery
  else
    match execute hypot snapshot database query edition with
    | .error error => .error (.query error)
    | .ok documents => .ok (documents.bind (partitionCursors · maximumPoints))

end

/-! ## Split points -/

theorem mapM_getElem? {α β : Type} (items : List α) (f : α → β) (indexes : List Nat)
    (inside : ∀ index ∈ indexes, index < items.length) :
    ∃ chosen, indexes.mapM (fun index => items[index]?.map f) = some (chosen.map f) ∧
      Forall₂ (fun index item => items[index]? = some item) indexes chosen := by
  induction indexes with
  | nil => exact ⟨[], rfl, .nil⟩
  | cons index indexes ih =>
    rw [forall_mem_cons] at inside
    obtain ⟨chosen, isChosen, found⟩ := ih inside.2
    refine ⟨items[index] :: chosen, ?_, .cons (getElem?_eq_getElem inside.1) found⟩
    rw [mapM_cons, isChosen, getElem?_eq_getElem inside.1]
    rfl

/-- The cursors name the documents at even splits of the result. -/
structure PartitionsEvenly (documents : List QueryDocument) (maximumPoints : Nat)
    (splits : List Nat) (splitDocuments : List QueryDocument) : Prop where
  even : SplitsEvenly documents splits
  count : splits.length = min maximumPoints (documents.length - 1)
  found : Forall₂ (fun index document => documents[index]? = some document) splits splitDocuments

theorem exists_partitionCursors (maximumPoints : Nat) :
    ∃ splits splitDocuments,
      partitionCursors documents maximumPoints = some (splitDocuments.map partitionCursor) ∧
      PartitionsEvenly documents maximumPoints splits splitDocuments := by
  let pointCount := min maximumPoints (documents.length - 1)
  have even : SplitsEvenly documents (splitPoints documents.length pointCount) :=
    splitsEvenly_splitPoints documents (min_le_right _ _)
  obtain ⟨chosen, isChosen, found⟩ := mapM_getElem? documents partitionCursor _
    fun split member => (even.inside split member).2
  refine ⟨splitPoints documents.length pointCount, chosen, ?_, even, ?_, found⟩
  · rw [← isChosen, partitionCursors, splitPoints, mapM_map]
    split_ifs with none
    · change _ = (range' 1 (min _ _)).mapM _
      rw [none]
      rfl
    · rfl
  · rw [splitPoints, length_map, length_range']

/-! ## Names -/

theorem pairwise_of_forall₂_getElem? {α : Type} {related : α → α → Prop} {items chosen : List α}
    {indexes : List Nat} (sorted : items.Pairwise related) (ascending : indexes.Pairwise (· < ·))
    (found : Forall₂ (fun index item => items[index]? = some item) indexes chosen) :
    chosen.Pairwise related := by
  induction found with
  | nil => exact .nil
  | @cons index item indexes chosen isItem found ih =>
    obtain ⟨least, ascending⟩ := pairwise_cons.mp ascending
    refine pairwise_cons.mpr ⟨?_, ih ascending⟩
    intro other member
    obtain ⟨position, bound, rfl⟩ := getElem_of_mem member
    have bound' : position < indexes.length := found.length_eq ▸ bound
    have isOther := found.get bound' bound
    obtain ⟨inside, rfl⟩ := List.getElem?_eq_some_iff.mp isItem
    obtain ⟨otherInside, isOther⟩ := List.getElem?_eq_some_iff.mp isOther
    simp only [get_eq_getElem] at isOther otherInside
    rw [← isOther]
    exact pairwise_iff_getElem.mp sorted _ _ _ _ (least _ (getElem_mem bound'))

def NamesAscend : Prop :=
  documents.Pairwise fun first second =>
    compareResourcePaths first.key.path second.key.path = .lt

section

variable {hypot : Binary64 → Binary64 → Binary64} {snapshot : Snapshot} {database : DatabaseName}
  {query : Query} {edition : DatabaseEdition}

structure SupportedPartition (query : Query) : Prop where
  scope : ∃ collectionId, query.scope = .collectionGroup collectionId
  ancestor : query.ancestor = none
  filter : query.filter = none
  orders : query.orders = [⟨.documentId, .ascending⟩]
  start : query.start = none
  finish : query.finish = none
  offset : query.offset = 0
  limit : query.limit = none
  projection : query.projection = none
  nearest : query.nearest = none

theorem supportedPartition_of_supported (supported : supportedPartitionQuery query = true) :
    SupportedPartition query := by
  simp only [supportedPartitionQuery, Bool.and_eq_true, Option.isNone_iff_eq_none,
    beq_iff_eq] at supported
  obtain ⟨⟨⟨⟨⟨⟨⟨⟨⟨scope, ancestor⟩, filter⟩, orders⟩, start⟩, finish⟩, offset⟩, limit⟩,
    projection⟩, nearest⟩ := supported
  refine ⟨?_, ancestor, filter, orders, start, finish, offset, limit, projection, nearest⟩
  cases isScope : query.scope with
  | collection path =>
    rw [isScope] at scope
    cases scope
  | collectionGroup collectionId => exact ⟨collectionId, rfl⟩

theorem execute_supported (supported : SupportedPartition query) :
    execute hypot snapshot database query edition =
      .ok ((scopedDocuments snapshot database query).mapM (queryDocument none)) := by
  have orders : normalizedOrders query = .ok [⟨.documentId, .ascending⟩] := by
    simp only [normalizedOrders, supported.filter, supported.orders]
    rfl
  have matching : ∀ candidate ∈ scopedDocuments snapshot database query,
      candidateMatches query [⟨.documentId, .ascending⟩] edition candidate = true := by
    simp [candidateMatches, supported.filter, supported.start, supported.finish, fieldValue]
  have whole : streamed query [⟨.documentId, .ascending⟩] edition
      (scopedDocuments snapshot database query) = scopedDocuments snapshot database query := by
    simp only [streamed, supported.limit, supported.offset, drop_zero, filter_eq_self.mpr matching]
  simp only [execute, orders, supported.start, supported.finish, supported.nearest,
    supported.limit, supported.projection]
  change Except.ok ((streamed query _ edition _).mapM _) = _
  rw [whole]

theorem forall₂_mapM_queryDocument {scan : List (DocumentKey × LazyDocument)}
    {listed : List (DocumentKey × Document)} (shows : ShowsAll scan listed) :
    scan.mapM (queryDocument none) = some (listed.map fun entry => ⟨entry.1, entry.2, none⟩) := by
  induction shows with
  | nil => rfl
  | @cons candidate entry scan listed shown _ ih =>
    rw [mapM_cons, ih, queryDocument, shown.2.1, shown.1]
    rfl

theorem exists_execute_supported (hypot : Binary64 → Binary64 → Binary64)
    (database : DatabaseName) (edition : DatabaseEdition) (lists : snapshot.ListsScopes)
    (supported : SupportedPartition query) :
    ∃ documents, execute hypot snapshot database query edition = .ok (some documents) ∧
      NamesAscend documents := by
  obtain ⟨collectionId, isScope⟩ := supported.scope
  obtain ⟨listed, shows, ascending, _⟩ := lists.collectionGroup database collectionId query.ancestor
  have wholeScope : scopedDocuments snapshot database query =
      snapshot.iterCollectionGroup database collectionId query.ancestor := by
    simp only [scopedDocuments, namedCandidates, supported.filter, isScope]
    rfl
  refine ⟨listed.map fun entry => ⟨entry.1, entry.2, none⟩, ?_, ?_⟩
  · rw [execute_supported supported, wholeScope, forall₂_mapM_queryDocument shows]
  · exact pairwise_map.mpr ascending

end

/-- The split points of any result list are in bounds and cut it evenly.  In every run that keeps
the keys apart, those of a collection group are strictly ascending by name. -/
theorem partition_splits_evenly (hypot : Binary64 → Binary64 → Binary64)
    (crc32c : List UInt8 → UInt32) (store : Store) (created : store.Created)
    (requests : List Request)
    (apart : Runs.AllSteps (Store.step crc32c) Store.KeepsRequestApart store requests)
    (snapshot : Snapshot)
    (offered : (Runs.run (Store.step crc32c) store requests).Offers snapshot)
    (database : DatabaseName) (query : Query) (edition : DatabaseEdition) (maximumPoints : Nat)
    (positive : 0 < maximumPoints) (supported : supportedPartitionQuery query = true) :
    (∀ documents, ∃ splits splitDocuments,
      partitionCursors documents maximumPoints = some (splitDocuments.map partitionCursor) ∧
      PartitionsEvenly documents maximumPoints splits splitDocuments) ∧
    ∃ documents splits splitDocuments,
      execute hypot snapshot database query edition = .ok (some documents) ∧
      partition hypot snapshot database query edition maximumPoints =
        .ok (some (splitDocuments.map partitionCursor)) ∧
      PartitionsEvenly documents maximumPoints splits splitDocuments ∧
      NamesAscend splitDocuments := by
  have lists := Store.listsScopes_run created apart offered
  obtain ⟨documents, executed, ascending⟩ := exists_execute_supported hypot database edition
    lists (supportedPartition_of_supported supported)
  obtain ⟨splits, splitDocuments, isCursors, evenly⟩ :=
    exists_partitionCursors documents maximumPoints
  refine ⟨fun documents => exists_partitionCursors documents maximumPoints, documents, splits,
    splitDocuments, executed, ?_, evenly,
    pairwise_of_forall₂_getElem? ascending evenly.even.ascending evenly.found⟩
  rw [partition, if_neg positive.ne', supported, executed, ← isCursors]
  rfl

end QueryEngine

namespace Sample

def itemTwicePaddedOne : DocumentKey := ⟨database, "items/__id001__".toList, by decide⟩

/-- Three documents whose identifiers denote the same number, in memory. -/
def sameNumberStore : Store :=
  Runs.run (Store.step castagnoli) (.memory (.new options))
    [⟨clock, [.create itemOne .empty, .create itemPaddedOne .empty,
      .create itemTwicePaddedOne .empty]⟩]

def itemGroup : QueryEngine.Query :=
  { scope := .collectionGroup "items".toList, orders := [⟨.documentId, .ascending⟩] }

def sameNumberDocuments : List QueryEngine.QueryDocument :=
  [itemTwicePaddedOne, itemPaddedOne, itemOne].filterMap fun key =>
    (sameNumberStore.snapshot.get key).map fun document => ⟨key, document, none⟩

def abItems : List Request := [⟨clock, [.create itemA .empty, .create itemB .empty]⟩]

theorem keepsApart_abItems : Runs.AllSteps (Store.step castagnoli) Store.KeepsRequestApart
    (.memory (.new options)) abItems := by
  refine ⟨?_, trivial⟩
  have onlyWritten : ∀ key, (((Store.memory (.new options)).snapshot.get key).isSome ∨
      key ∈ [itemA, itemB]) → key = itemA ∨ key = itemB := by
    intro key live
    rw [Store.get_snapshot (Store.Created.memory options).holds] at live
    simpa using live
  intro first second firstLive secondLive _ equal
  rcases onlyWritten first firstLive with rfl | rfl <;>
    rcases onlyWritten second secondLive with rfl | rfl
  · rfl
  · exact absurd equal (by decide)
  · exact absurd equal (by decide)
  · rfl

end Sample

namespace QueryEngine

open Sample

theorem partition_splits_evenly_sample :
    let snapshot := (Runs.run (Store.step castagnoli) (.memory (.new options)) abItems).snapshot
    ∃ documents splits splitDocuments,
      execute (fun left _ => left) snapshot database itemGroup .standard = .ok (some documents) ∧
      partition (fun left _ => left) snapshot database itemGroup .standard 1 =
        .ok (some (splitDocuments.map partitionCursor)) ∧
      PartitionsEvenly documents 1 splits splitDocuments ∧ NamesAscend splitDocuments :=
  (partition_splits_evenly _ castagnoli _ (.memory options) abItems keepsApart_abItems _ .current
    database itemGroup .standard 1 (by decide) (by decide)).2

theorem scopedDocuments_sameNumber :
    (scopedDocuments sameNumberStore.snapshot database itemGroup).mapM (queryDocument none) =
      some sameNumberDocuments := by
  have keys : Snapshot.sortedKeys (scopeKeys
      (sameNumberStore.bookkeeping.snapshot.collectionGroups) ⟨database, "items".toList⟩) =
      [itemTwicePaddedOne, itemPaddedOne, itemOne] := by
    rw [sortedKeys_eq_toList (by decide +kernel)]
    decide +kernel
  have isScope : scopedDocuments sameNumberStore.snapshot database itemGroup =
      (Snapshot.sortedKeys (scopeKeys (sameNumberStore.bookkeeping.snapshot.collectionGroups)
        ⟨database, "items".toList⟩)).filterMap fun key =>
          (sameNumberStore.snapshot.get key).map fun document => (key, .decoded document) :=
    rfl
  rw [isScope, keys]
  rfl

/-- The split points of the three documents have the same place in the order of names. -/
theorem sameNumbers_split_equal_names :
    execute (fun left _ => left) sameNumberStore.snapshot database itemGroup .standard =
        .ok (some sameNumberDocuments) ∧
      partition (fun left _ => left) sameNumberStore.snapshot database itemGroup .standard 2 =
        .ok (some ((sameNumberDocuments.drop 1).map partitionCursor)) ∧
      ¬ NamesAscend (sameNumberDocuments.drop 1) := by
  have executed : execute (fun left _ => left) sameNumberStore.snapshot database itemGroup
      .standard = .ok (some sameNumberDocuments) := by
    rw [execute_supported (supportedPartition_of_supported (by decide)), scopedDocuments_sameNumber]
  refine ⟨executed, ?_, ?_⟩
  · rw [partition, executed]
    rfl
  · unfold NamesAscend
    decide +kernel

end QueryEngine
end Firenook
