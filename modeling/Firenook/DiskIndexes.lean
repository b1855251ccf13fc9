import Firenook.DiskScans

/-!
# The scope indexes

The collection index and the collection-group index map an order-preserving key to
the key of a document.  Different documents can have the same index key, since
numeric identifiers are stored by their value.  Over documents that are apart in this
sense both indexes are images of the documents, and scanning one lists a scope in
resource order.
-/

namespace Firenook

open ByteOrder OrderedEntries EncodedMaps Std List Text Option DiskDocumentScope

/-! ## Paths and scopes -/

variable {database : DatabaseName} {collectionPath : Text}

theorem split_path_valid (key : DocumentKey) :
    2 ≤ (key.path.split '/').length ∧ ∀ segment ∈ key.path.split '/', segment ≠ [] := by
  have valid := key.valid
  simp only [validateDocumentPath] at valid
  split_ifs at valid with invalid
  simp only [Bool.or_eq_true, decide_eq_true_eq, List.any_eq_true, List.isEmpty_iff, not_or,
    not_exists, not_and] at invalid
  exact ⟨by omega, invalid.2⟩

theorem exists_rsplitOnce (key : DocumentKey) : ∃ collectionPath documentId,
    key.path.rsplitOnce '/' = some (collectionPath, documentId) := by
  have long := (split_path_valid key).1
  exact ⟨_, _, if_neg (by omega)⟩

variable {key : DocumentKey}

theorem collectionKey_eq_iff
    : collectionKey key = ⟨database, collectionPath⟩ ↔ key.database = database ∧
        ∃ documentId, key.path.rsplitOnce '/' = some (collectionPath, documentId) := by
  obtain ⟨path, documentId, splits⟩ := exists_rsplitOnce key
  simp [collectionKey, splits]

theorem directCollectionMatches_iff :
    directCollectionMatches collectionPath key.path = true ↔
      ∃ documentId, key.path.rsplitOnce '/' = some (collectionPath, documentId) := by
  simp only [rsplitOnce_eq_some]
  rw [directCollectionMatches]
  constructor
  · intro found
    split at found
    · next documentId stripped =>
      obtain ⟨rest, atFront, atSlash⟩ := bind_eq_some_iff.mp stripped
      rw [stripPrefix_eq_some] at atFront atSlash
      simp only [Bool.and_eq_true, Bool.not_eq_true', contains_eq_mem,
        decide_eq_false_iff_not] at found
      exact ⟨documentId, by rw [atFront, atSlash]; rfl, found.2⟩
    · cases found
  · rintro ⟨documentId, isSplit, absent⟩
    have stripped : (stripPrefix collectionPath key.path).bind (stripPrefix ['/']) =
        some documentId :=
      bind_eq_some_iff.mpr ⟨'/' :: documentId, stripPrefix_eq_some.mpr isSplit,
        stripPrefix_eq_some.mpr rfl⟩
    have nonempty : documentId ≠ [] := by
      apply (split_path_valid key).2
      rw [isSplit, split_append_cons, split_of_not_mem absent]
      simp
    simp [stripped, nonempty, absent]

theorem matchesKey_collection :
    (collection database collectionPath).matchesKey key = true ↔
      collectionKey key = ⟨database, collectionPath⟩ := by
  rw [matchesKey, Bool.and_eq_true, beq_iff_eq, directCollectionMatches_iff,
    collectionKey_eq_iff]

theorem collectionGroupKey_eq_iff
    {collectionId : Text} : collectionGroupKey key = ⟨database, collectionId⟩ ↔
      key.database = database ∧ immediateCollectionId key.path = some collectionId := by
  obtain ⟨path, documentId, splits⟩ := exists_rsplitOnce key
  simp [collectionGroupKey, immediateCollectionId, splits]

/-- The document lies below the ancestor, at least one collection deep. -/
def UnderAncestor (ancestor path : Text) : Prop :=
  ∃ segments, path.split '/' = ancestor.split '/' ++ segments ∧ 2 ≤ segments.length

theorem ancestorMatches_iff {ancestor path : Text} :
    ancestorMatches ancestor path = true ↔ UnderAncestor ancestor path := by
  rw [ancestorMatches]
  constructor
  · intro found
    split at found
    · next descendant stripped =>
      obtain ⟨rest, atFront, atSlash⟩ := bind_eq_some_iff.mp stripped
      rw [stripPrefix_eq_some] at atFront atSlash
      refine ⟨descendant.split '/', ?_, by simpa using found⟩
      rw [atFront, atSlash]
      exact split_append_cons '/' ancestor descendant
    · cases found
  · rintro ⟨segments, splits, long⟩
    have isSplit : path = ancestor ++ '/' :: ['/'].intercalate segments := by
      have joined := congrArg (['/'].intercalate) splits
      have some : segments ≠ [] := by
        rintro rfl
        simp at long
      have ancestorSome : ancestor.split '/' ≠ [] := splitOn_ne_nil _ _
      rw [intercalate_append '/' ancestorSome some] at joined
      simpa [split] using joined
    have stripped : (stripPrefix ancestor path).bind (stripPrefix ['/']) =
        some (['/'].intercalate segments) :=
      bind_eq_some_iff.mpr ⟨'/' :: ['/'].intercalate segments,
        stripPrefix_eq_some.mpr isSplit, stripPrefix_eq_some.mpr rfl⟩
    have again : split '/' (['/'].intercalate segments) = segments := by
      rw [isSplit, split_append_cons] at splits
      exact append_cancel_left splits
    simp [stripped, again, long]

theorem matchesKey_collectionGroup {collectionId : Text} {ancestor : Option Text} :
    (collectionGroup ancestor collectionId database).matchesKey key = true ↔
      collectionGroupKey key = ⟨database, collectionId⟩ ∧
        ∀ above, ancestor = some above → UnderAncestor above key.path := by
  rw [matchesKey, collectionGroupKey_eq_iff]
  cases ancestor <;> simp [ancestorMatches_iff]

/-! ## Index keys -/

def IndexKey.Fits (scope : IndexKey) : Prop :=
  scope.database.Fits ∧ scope.collection.byteLength < 2 ^ 32

def IndexKey.front (scope : IndexKey) : List UInt8 :=
  databaseBytes scope.database ++ lengthPrefixed scope.collection

theorem IndexKey.front_append_inj {first second : IndexKey} (firstFits : first.Fits)
    (secondFits : second.Fits) {left right : List UInt8}
    (same : first.front ++ left = second.front ++ right) : first = second ∧ left = right := by
  simp only [front, append_assoc] at same
  obtain ⟨databaseEq, same⟩ := databaseBytes_append_inj firstFits.1 secondFits.1 same
  obtain ⟨collectionEq, same⟩ := lengthPrefixed_append_inj firstFits.2 secondFits.2 same
  cases first
  simp_all

theorem collectionIndexPrefix_eq_ok {collection : Text}
    {bytes : List UInt8} : collectionIndexPrefix database collection = .ok bytes ↔
      IndexKey.Fits ⟨database, collection⟩ ∧ bytes = IndexKey.front ⟨database, collection⟩ := by
  simp only [collectionIndexPrefix, bind_eq_ok, databasePrefix_eq_ok,
    pushLengthPrefixed_eq_ok]
  constructor
  · rintro ⟨_, ⟨fits, rfl⟩, small, rfl⟩
    exact ⟨⟨fits, small⟩, rfl⟩
  · rintro ⟨⟨fits, small⟩, rfl⟩
    exact ⟨_, ⟨fits, rfl⟩, small, rfl⟩

/-- An encoding of keys for an index: a scope, then bytes that sort the keys of the
scope in resource order. -/
structure IndexEncoding (indexKey : DocumentKey → IndexKey)
    (encode : DocumentKey → Except DiskError (List UInt8)) where
  tail : DocumentKey → List UInt8
  database_eq : ∀ key, (indexKey key).database = key.database
  eq_ok : ∀ key bytes, encode key = .ok bytes ↔
    (indexKey key).Fits ∧ bytes = (indexKey key).front ++ tail key
  compare_tail : ∀ first second, indexKey first = indexKey second →
    compare (tail first) (tail second) = compareResourcePaths first.path second.path

theorem compareLex_append {α : Type} {cmp : α → α → Ordering} [ReflCmp cmp]
    (front left right : List α) :
    List.compareLex cmp (front ++ left) (front ++ right) = List.compareLex cmp left right := by
  induction front with
  | nil => rfl
  | cons first front ih =>
    rw [List.cons_append, List.cons_append, List.compareLex_cons_cons, ih,
      show cmp first first = .eq from ReflCmp.compare_self]
    rfl

def collectionEncoding : IndexEncoding collectionKey encodeCollectionIndexKey where
  tail key := orderedResourceId (((key.path.rsplitOnce '/').map Prod.snd).getD [])
  database_eq _ := rfl
  eq_ok key bytes := by
    obtain ⟨path, documentId, splits⟩ := exists_rsplitOnce key
    simp only [encodeCollectionIndexKey, collectionKey, splits, bind_eq_ok,
      collectionIndexPrefix_eq_ok, map_some, getD_some]
    constructor
    · rintro ⟨_, ⟨fits, rfl⟩, encoded⟩
      cases encoded
      exact ⟨fits, rfl⟩
    · rintro ⟨fits, rfl⟩
      exact ⟨_, ⟨fits, rfl⟩, rfl⟩
  compare_tail first second sameScope := by
    obtain ⟨path, documentId, splits⟩ := exists_rsplitOnce first
    obtain ⟨otherPath, otherId, otherSplits⟩ := exists_rsplitOnce second
    simp only [collectionKey, splits, otherSplits, map_some, getD_some,
      IndexKey.mk.injEq] at sameScope ⊢
    obtain ⟨_, rfl⟩ := sameScope
    obtain ⟨isPath, absent⟩ := rsplitOnce_eq_some.mp splits
    obtain ⟨isOtherPath, otherAbsent⟩ := rsplitOnce_eq_some.mp otherSplits
    have ids := compare_orderedResourceId_append documentId otherId [] []
    rw [List.append_nil, List.append_nil] at ids
    rw [ids, compareResourcePaths, isPath, isOtherPath, split_append_cons,
      split_append_cons, split_of_not_mem absent, split_of_not_mem otherAbsent,
      compareLex_append, List.compareLex_cons_cons]
    rfl

theorem foldl_pushOrderedResourceId (buffer : List UInt8) (segments : List Text) :
    segments.foldl pushOrderedResourceId buffer = buffer ++ segments.flatMap orderedResourceId := by
  induction segments generalizing buffer with
  | nil => simp
  | cons segment segments ih => simp [ih, pushOrderedResourceId]

def collectionGroupEncoding : IndexEncoding collectionGroupKey encodeCollectionGroupIndexKey where
  tail key := (key.path.split '/').flatMap orderedResourceId
  database_eq _ := rfl
  eq_ok key bytes := by
    obtain ⟨path, documentId, splits⟩ := exists_rsplitOnce key
    have prefixes := @collectionIndexPrefix_eq_ok key.database (lastPiece '/' path)
    simp only [collectionIndexPrefix] at prefixes
    simp only [encodeCollectionGroupIndexKey, immediateCollectionId, collectionGroupKey, splits,
      map_some, getD_some, collectionGroupIndexPrefix, foldl_pushOrderedResourceId]
    rw [bind_eq_ok]
    simp only [prefixes]
    constructor
    · rintro ⟨_, ⟨fits, rfl⟩, encoded⟩
      cases encoded
      exact ⟨fits, rfl⟩
    · rintro ⟨fits, rfl⟩
      exact ⟨_, ⟨fits, rfl⟩, rfl⟩
  compare_tail _ _ _ := compare_flatMap_orderedResourceId _ _

/-! ## Scopes of an index -/

/-- The keys of an index sort by scope and, within a scope, in resource order.  Every key of
a scope lies between the bytes of the scope and their successor, and no other key does. -/
structure EmbedsScopes (indexKey : DocumentKey → IndexKey)
    (encode : DocumentKey → Except DiskError (List UInt8))
    (scopePrefix : DatabaseName → Text → Except DiskError (List UInt8)) : Prop where
  order : ∀ (first second : DocumentKey) (left right : List UInt8),
    indexKey first = indexKey second → encode first = .ok left → encode second = .ok right →
      compare left right = compareResourcePaths first.path second.path
  range : ∀ (scope : IndexKey) (front : List UInt8),
    scopePrefix scope.database scope.collection = .ok front →
      ∃ upper, prefixSuccessor front = some upper ∧
        ∀ (key : DocumentKey) (bytes : List UInt8), encode key = .ok bytes →
          ((compare front bytes).isLE ∧ compare bytes upper = .lt ↔ indexKey key = scope)

variable {encode : DocumentKey → Except DiskError (List UInt8)} {indexKey : DocumentKey → IndexKey}

theorem IndexEncoding.embedsScopes (encoding : IndexEncoding indexKey encode) :
    EmbedsScopes indexKey encode collectionIndexPrefix := by
  constructor
  · intro first second left right sameScope encodedFirst encodedSecond
    obtain ⟨_, rfl⟩ := (encoding.eq_ok first left).mp encodedFirst
    obtain ⟨_, rfl⟩ := (encoding.eq_ok second right).mp encodedSecond
    rw [sameScope, compare_append_append, encoding.compare_tail first second sameScope]
  · intro scope front isFront
    obtain ⟨scopeFits, rfl⟩ := collectionIndexPrefix_eq_ok.mp isFront
    obtain ⟨upper, successor⟩ :=
      exists_databaseBytes_successor scope.database (lengthPrefixed scope.collection)
    refine ⟨upper, successor, ?_⟩
    intro key bytes encoded
    obtain ⟨keyFits, rfl⟩ := (encoding.eq_ok key bytes).mp encoded
    refine (mem_prefix_range successor _).trans ?_
    constructor
    · rintro ⟨rest, same⟩
      exact (IndexKey.front_append_inj keyFits scopeFits same).1
    · rintro rfl
      exact ⟨_, rfl⟩

/-- Both scope indexes embed the resource order. -/
theorem scope_indexes_embed_resource_order :
    EmbedsScopes collectionKey encodeCollectionIndexKey collectionIndexPrefix ∧
      EmbedsScopes collectionGroupKey encodeCollectionGroupIndexKey collectionGroupIndexPrefix :=
  ⟨collectionEncoding.embedsScopes, collectionGroupEncoding.embedsScopes⟩

/-! ## Documents that are apart -/

/-- No two different keys are equal in resource order. -/
def Apart (live : DocumentKey → Prop) : Prop :=
  ∀ first second, live first → live second → first.database = second.database →
    compareResourcePaths first.path second.path = .eq → first = second

theorem Apart.mono {live more : DocumentKey → Prop} (apart : Apart more)
    (fewer : ∀ key, live key → more key) : Apart live :=
  fun first second firstLive secondLive =>
    apart first second (fewer first firstLive) (fewer second secondLive)

theorem IndexEncoding.injective
    (encoding : IndexEncoding indexKey encode) {live : DocumentKey → Prop} (apart : Apart live)
    {first second : DocumentKey} {bytes : List UInt8} (firstLive : live first)
    (secondLive : live second) (encodedFirst : encode first = .ok bytes)
    (encodedSecond : encode second = .ok bytes) : first = second := by
  obtain ⟨firstFits, rfl⟩ := (encoding.eq_ok first bytes).mp encodedFirst
  obtain ⟨secondFits, same⟩ := (encoding.eq_ok second _).mp encodedSecond
  obtain ⟨sameScope, sameTail⟩ := IndexKey.front_append_inj firstFits secondFits same
  apply apart first second firstLive secondLive
  · rw [← encoding.database_eq first, sameScope, encoding.database_eq second]
  · rw [← encoding.compare_tail first second sameScope, sameTail, ReflOrd.compare_self]

abbrev IndexStored (encode : DocumentKey → Except DiskError (List UInt8)) (table : Table)
    (documents : DocumentMap) : Prop :=
  Image (fun key bytes => encode key = .ok bytes)
    (fun key _ word => encodeDocumentKey key = .ok word) table documents

section

variable {indexKey : DocumentKey → IndexKey}
  {encode : DocumentKey → Except DiskError (List UInt8)} (encoding : IndexEncoding indexKey encode)
  {table : Table} {documents : DocumentMap} {live : DocumentKey → Prop}
  {key : DocumentKey} {bytes word : List UInt8}

include encoding

theorem IndexEncoding.stored_insert (stored : IndexStored encode table documents)
    (apart : Apart live) (within : ∀ key ∈ documents, live key) (written : live key)
    (encoded : encode key = .ok bytes) (encodedKey : encodeDocumentKey key = .ok word)
    (document : Document) :
    IndexStored encode (table.insert bytes word) (documents.insert key document) := by
  have stillWithin : ∀ other ∈ documents.insert key document, live other := by
    intro other member
    rcases ExtTreeMap.mem_insert.mp member with same | member
    · rwa [← LawfulEqOrd.eq_of_compare same]
    · exact within other member
  refine Image.insert stored functional_ok encoded encodedKey ?_
  intro first second shared firstMember secondMember
  exact encoding.injective apart (stillWithin first firstMember) (stillWithin second secondMember)

theorem IndexEncoding.stored_erase (stored : IndexStored encode table documents)
    (apart : Apart live) (within : ∀ key ∈ documents, live key) (written : live key)
    (encoded : encode key = .ok bytes) :
    IndexStored encode (table.erase bytes) (documents.erase key) :=
  Image.erase stored functional_ok encoded fun other member encodedOther =>
    encoding.injective apart (within other member) written encodedOther encoded

end

/-! ## All tables together -/

structure TablesHold (tables : DiskTables) (documents : DocumentMap) : Prop where
  stored : DocumentsStored tables.documents documents
  collections : IndexStored encodeCollectionIndexKey tables.collections documents
  collectionGroups : IndexStored encodeCollectionGroupIndexKey tables.collectionGroups documents

theorem tablesHold_empty : TablesHold .empty ∅ := ⟨image_empty, image_empty, image_empty⟩

section

variable {tables result : DiskTables} {documents : DocumentMap} {live : DocumentKey → Prop}

theorem live_of_mem_putDocument {next : Option Document}
    (within : ∀ key ∈ documents, live key) (written : live key) :
    ∀ other ∈ putDocument documents key next, live other := by
  intro other member
  rw [mem_iff_isSome, getElem?_putDocument] at member
  split_ifs at member with same
  · exact same ▸ written
  · exact within other (mem_iff_isSome.mpr member)

variable (hold : TablesHold tables documents) (apart : Apart live)
  (within : ∀ key ∈ documents, live key)
include hold apart within

theorem TablesHold.applyMutation {mutation : PersistedMutation} (written : live mutation.key)
    (applied : tables.applyMutation mutation = .ok result) :
    TablesHold result (putDocument documents mutation.key mutation.document) := by
  have stored := hold.stored.applyMutation applied
  obtain ⟨key, _, _, encodedKey, encodedCollection, encodedGroup, change⟩ :=
    applyMutation_cases applied
  rcases change with ⟨document, value, isSome, _, rfl⟩ | ⟨isNone, rfl⟩
  · rw [isSome] at stored ⊢
    exact ⟨stored,
      collectionEncoding.stored_insert hold.collections apart within written encodedCollection
        encodedKey document,
      collectionGroupEncoding.stored_insert hold.collectionGroups apart within written encodedGroup
        encodedKey document⟩
  · rw [isNone] at stored ⊢
    exact ⟨stored,
      collectionEncoding.stored_erase hold.collections apart within written encodedCollection,
      collectionGroupEncoding.stored_erase hold.collectionGroups apart within written encodedGroup⟩

theorem TablesHold.applyMutations {mutations : List PersistedMutation}
    (written : ∀ mutation ∈ mutations, live mutation.key)
    (applied : tables.applyMutations mutations = .ok result) :
    TablesHold result (mutatedDocuments documents mutations) := by
  induction mutations generalizing tables documents with
  | nil =>
    cases applied
    exact hold
  | cons mutation mutations ih =>
    obtain ⟨next, first, rest⟩ := bind_eq_ok.mp applied
    rw [forall_mem_cons] at written
    exact ih (hold.applyMutation apart within written.1 first)
      (live_of_mem_putDocument within written.1) written.2 rest

theorem TablesHold.persistRecord {record : WalRecord}
    (written : ∀ mutation ∈ record.mutations, live mutation.key)
    (persists : tables.persistRecord record = .ok result) :
    TablesHold result (mutatedDocuments documents record.mutations) := by
  obtain ⟨mutated, applied, persisted⟩ := bind_eq_ok.mp persists
  cases persisted
  have mutatedHold := hold.applyMutations apart within written applied
  exact ⟨mutatedHold.stored, mutatedHold.collections, mutatedHold.collectionGroups⟩

end

/-! ## Scans of an index -/

theorem indexedDocument_eq_some {scope : DiskDocumentScope} {table : Table}
    {entry : List UInt8 × List UInt8}
    (encoded : encodeDocumentKey key = .ok entry.2) {found : DocumentKey × LazyDocument} :
    indexedDocument scope table entry = some found ↔ scope.matchesKey key = true ∧
      ∃ value, table[entry.2]? = some value ∧ found = (key, .encoded value) := by
  rw [indexedDocument, decodeDocumentKey_of_encode encoded]
  by_cases inScope : scope.matchesKey key = true <;> simp [inScope, eq_comm]

variable {documents : DocumentMap}

theorem IndexEncoding.scans (encoding : IndexEncoding indexKey encode) {table index : Table}
    (stored : DocumentsStored table documents) (indexed : IndexStored encode index documents)
    {scope : DiskDocumentScope} {scopeKey : IndexKey} {front : Except DiskError (List UInt8)}
    (sameScope : ∀ key, scope.matchesKey key = true → indexKey key = scopeKey)
    (order : ∀ first second, scope.compareKeys first second =
      compareResourcePaths first.path second.path)
    (front_eq_ok : ∀ bytes, front = .ok bytes ↔ scopeKey.Fits ∧ bytes = scopeKey.front) :
    Scans scope documents (scannedDocuments scope
      (((boundedRange index front).map (DiskRange.indexed table)).getD .empty)) := by
  have listed : scannedDocuments scope
      (((boundedRange index front).map (DiskRange.indexed table)).getD .empty) =
        ((boundedRange index front).getD []).filterMap (indexedDocument scope table) := by
    cases boundedRange index front <;> rfl
  rw [listed]
  refine scans_filterMap indexed ?_ ?_ ?_ ?_
  · intro key document bytes word present _ encodedKey found
    have encodes : encodeDocumentKey key = .ok (bytes, word).2 := encodedKey
    obtain ⟨keyBytes, value, encodedAgain, encodedValue, inTable⟩ :=
      stored.stored key document present
    obtain rfl := functional_ok key keyBytes word encodedAgain encodedKey
    rw [indexedDocument_eq_some encodes, inTable,
      show encodeStoredDocument document = .ok value from encodedValue]
    simp
  · intro key bytes inScope encoded
    obtain ⟨fits, rfl⟩ := (encoding.eq_ok key bytes).mp encoded
    rw [sameScope key inScope] at fits ⊢
    exact ⟨_, (front_eq_ok _).mpr ⟨fits, rfl⟩, encoding.tail key, rfl⟩
  · intro start isStart
    obtain ⟨_, rfl⟩ := (front_eq_ok start).mp isStart
    exact exists_databaseBytes_successor scopeKey.database (lengthPrefixed scopeKey.collection)
  · intro first second left right inScope otherInScope encoded encodedOther
    have same : indexKey first = indexKey second :=
      (sameScope first inScope).trans (sameScope second otherInScope).symm
    rw [((encoding.eq_ok first _).mp encoded).2, ((encoding.eq_ok second _).mp encodedOther).2,
      same, compare_append_append, encoding.compare_tail first second same, order]

theorem TablesHold.scans_collection {tables : DiskTables}
    (hold : TablesHold tables documents) (database : DatabaseName) (collectionPath : Text) :
    Scans (.collection database collectionPath) documents
      (scannedDocuments (.collection database collectionPath)
        (((boundedRange tables.collections (collectionIndexPrefix database collectionPath)).map
          (DiskRange.indexed tables.documents)).getD .empty)) :=
  collectionEncoding.scans hold.stored hold.collections
    (fun _ => matchesKey_collection.mp) (fun _ _ => rfl) fun _ => collectionIndexPrefix_eq_ok

theorem TablesHold.scans_collectionGroup {tables : DiskTables}
    (hold : TablesHold tables documents) (database : DatabaseName) (collectionId : Text)
    (ancestor : Option Text) :
    Scans (.collectionGroup ancestor collectionId database) documents
      (scannedDocuments (.collectionGroup ancestor collectionId database)
        (((boundedRange tables.collectionGroups
          (collectionGroupIndexPrefix database collectionId)).map
            (DiskRange.indexed tables.documents)).getD .empty)) :=
  collectionGroupEncoding.scans hold.stored hold.collectionGroups
    (fun _ inScope => (matchesKey_collectionGroup.mp inScope).1) (fun _ _ => rfl)
    fun _ => collectionIndexPrefix_eq_ok

end Firenook
