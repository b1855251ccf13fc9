import Firenook.DiskContents

/-!
# Scans of a disk snapshot

A range of a table is scanned in byte order and merged with the overlay of undone
changes.  Over tables that hold a map of documents, a scan shows the documents that
point reads of the same snapshot find in the scope, each once and in order.
-/

namespace Firenook

open ByteOrder OrderedEntries EncodedMaps Std List

/-! ## Ranges -/

theorem ascending_range (table : Table) (lower upper : List UInt8) :
    Ascending compare (table.range lower upper) :=
  ExtTreeMap.ordered_keys_toList.filter _

theorem mem_range {table : Table} {lower upper : List UInt8} {entry : List UInt8 × List UInt8} :
    entry ∈ table.range lower upper ↔ table[entry.1]? = some entry.2 ∧
      (compare lower entry.1).isLE ∧ compare entry.1 upper = .lt := by
  rw [Table.range, mem_filter, ExtTreeMap.mem_toList_iff_getElem?_eq_some]
  simp

theorem mem_range_iff_append {table : Table} {front upper : List UInt8}
    (successor : prefixSuccessor front = some upper) {entry : List UInt8 × List UInt8} :
    entry ∈ table.range front upper ↔
      table[entry.1]? = some entry.2 ∧ ∃ rest, entry.1 = front ++ rest := by
  rw [mem_range, mem_prefix_range successor]

/-- A scan of a scope: every stored document of the scope once, in scope order. -/
structure Scans (scope : DiskDocumentScope) (documents : DocumentMap)
    (scan : List (DocumentKey × LazyDocument)) : Prop where
  ascending : Ascending scope.compareKeys scan
  mem : ∀ entry, entry ∈ scan ↔ scope.matchesKey entry.1 = true ∧
    ∃ document value, documents[entry.1]? = some document ∧
      encodeStoredDocument document = .ok value ∧ entry.2 = .encoded value

theorem exists_project_successor (database : DatabaseName) (rest : List UInt8) :
    ∃ upper, prefixSuccessor (lengthPrefixed database.projectId ++ rest) = some upper := by
  have nonempty : database.projectId ≠ [] := by
    intro empty
    have valid := database.projectValid
    rw [empty] at valid
    cases valid
  obtain ⟨byte, bytes, split⟩ := exists_cons_of_ne_nil (Text.bytes_ne_nil nonempty)
  have member : byte ∈ database.projectId.bytes := by
    rw [split]
    exact mem_cons_self
  apply exists_prefixSuccessor _ (Text.ne_of_mem_bytes member)
  simp only [lengthPrefixed, mem_append]
  tauto

theorem exists_databaseBytes_successor (database : DatabaseName) (rest : List UInt8) :
    ∃ upper, prefixSuccessor (databaseBytes database ++ rest) = some upper := by
  rw [databaseBytes, append_assoc]
  exact exists_project_successor database _

theorem matchesKey_database {database : DatabaseName} {key : DocumentKey} :
    (DiskDocumentScope.database database).matchesKey key = true ↔ key.database = database :=
  beq_iff_eq

variable {scope : DiskDocumentScope}

theorem scannedDocument_eq_some {entry : List UInt8 × List UInt8}
    {key : DocumentKey} (encoded : encodeDocumentKey key = .ok entry.1)
    {found : DocumentKey × LazyDocument} :
    scannedDocument scope entry = some found ↔
      scope.matchesKey key = true ∧ found = (key, .encoded entry.2) := by
  rw [scannedDocument, decodeDocumentKey_of_encode encoded]
  by_cases inScope : scope.matchesKey key = true <;> simp [inScope, eq_comm]

theorem scans_filterMap {encodeKey : DocumentKey → List UInt8 → Prop}
    {encodeWord : DocumentKey → Document → List UInt8 → Prop} {table : Table}
    {documents : DocumentMap} (image : Image encodeKey encodeWord table documents)
    {front : Except DiskError (List UInt8)}
    {listed : List UInt8 × List UInt8 → Option (DocumentKey × LazyDocument)}
    (lists : ∀ {key document bytes word}, documents[key]? = some document → encodeKey key bytes →
      encodeWord key document word → ∀ {found}, listed (bytes, word) = some found ↔
        scope.matchesKey key = true ∧
          ∃ value, encodeStoredDocument document = .ok value ∧ found = (key, .encoded value))
    (starts : ∀ {key bytes}, scope.matchesKey key = true → encodeKey key bytes →
      ∃ start, front = .ok start ∧ ∃ rest, bytes = start ++ rest)
    (bounded : ∀ {start}, front = .ok start → ∃ upper, prefixSuccessor start = some upper)
    (order : ∀ {first second left right}, scope.matchesKey first = true →
      scope.matchesKey second = true → encodeKey first left → encodeKey second right →
        compare left right = scope.compareKeys first second) :
    Scans scope documents (((boundedRange table front).getD []).filterMap listed) := by
  have range : Ascending compare ((boundedRange table front).getD []) ∧
      ∀ entry, entry ∈ (boundedRange table front).getD [] ↔ table[entry.1]? = some entry.2 ∧
        ∃ start, front = .ok start ∧ ∃ rest, entry.1 = start ++ rest := by
    cases front with
    | error error => exact ⟨.nil, by simp [boundedRange, Except.toOption]⟩
    | ok start =>
      obtain ⟨upper, successor⟩ := bounded rfl
      have isRange : boundedRange table (.ok start) = some (table.range start upper) := by
        simp [boundedRange, Except.toOption, successor]
      rw [isRange]
      exact ⟨ascending_range table start upper, fun entry => by
        simp [mem_range_iff_append successor]⟩
  constructor
  · rw [Ascending, pairwise_filterMap]
    refine range.1.imp_of_mem ?_
    intro first second firstMember secondMember less left foundFirst right foundSecond
    obtain ⟨key, _, present, encoded, word⟩ := image.source _ _ ((range.2 first).mp firstMember).1
    obtain ⟨other, _, otherPresent, encodedOther, otherWord⟩ :=
      image.source _ _ ((range.2 second).mp secondMember).1
    obtain ⟨inScope, _, _, rfl⟩ := (lists present encoded word).mp foundFirst
    obtain ⟨otherInScope, _, _, rfl⟩ := (lists otherPresent encodedOther otherWord).mp foundSecond
    rwa [← order inScope otherInScope encoded encodedOther]
  · intro found
    rw [mem_filterMap]
    constructor
    · rintro ⟨entry, member, isFound⟩
      obtain ⟨key, document, present, encoded, word⟩ :=
        image.source _ _ ((range.2 entry).mp member).1
      obtain ⟨inScope, value, encodedValue, rfl⟩ := (lists present encoded word).mp isFound
      exact ⟨inScope, document, value, present, encodedValue, rfl⟩
    · rintro ⟨inScope, document, value, present, encodedValue, isEncoded⟩
      obtain ⟨bytes, word, encoded, encodedWord, inTable⟩ := image.stored found.1 document present
      exact ⟨(bytes, word), (range.2 _).mpr ⟨inTable, starts inScope encoded⟩,
        (lists present encoded encodedWord).mpr
          ⟨inScope, value, encodedValue, Prod.ext rfl isEncoded⟩⟩

theorem scans_database {table : Table} {documents : DocumentMap}
    (stored : DocumentsStored table documents) (database : DatabaseName) :
    Scans (.database database) documents
      (scannedDocuments (.database database)
        (((boundedRange table (databasePrefix database)).map DiskRange.documents).getD .empty)) := by
  have listed : scannedDocuments (.database database)
      (((boundedRange table (databasePrefix database)).map DiskRange.documents).getD .empty) =
        ((boundedRange table (databasePrefix database)).getD []).filterMap
          (scannedDocument (.database database)) := by
    cases boundedRange table (databasePrefix database) <;> rfl
  rw [listed]
  refine scans_filterMap stored ?_ ?_ ?_ ?_
  · intro key document bytes word _ encoded encodedWord found
    have encodes : encodeDocumentKey key = .ok (bytes, word).1 := encoded
    rw [scannedDocument_eq_some encodes, show encodeStoredDocument document = .ok word from encodedWord]
    simp
  · intro key bytes inScope encoded
    obtain ⟨fits, rfl⟩ := encodeDocumentKey_eq_ok.mp encoded
    rw [matchesKey_database.mp inScope] at fits
    exact ⟨_, databasePrefix_eq_ok.mpr ⟨fits, rfl⟩, key.path.bytes,
      by rw [matchesKey_database.mp inScope]⟩
  · intro start isStart
    obtain ⟨_, rfl⟩ := databasePrefix_eq_ok.mp isStart
    simpa using exists_databaseBytes_successor database []
  · intro first second left right inScope otherInScope encoded encodedOther
    exact compare_of_encodeDocumentKey encoded encodedOther
      ((matchesKey_database.mp inScope).trans (matchesKey_database.mp otherInScope).symm)

/-! ## Snapshots -/

namespace DiskSnapshot

variable {snapshot : DiskSnapshot} {documents : DocumentMap}

theorem get_eq (stored : DocumentsStored snapshot.tables.documents documents)
    (key : DocumentKey) : snapshot.get key = snapshot.overlay[key]?.getD documents[key]? := by
  rw [get]
  cases patched : snapshot.overlay[key]? with
  | some document => rfl
  | none =>
    cases encoded : encodeDocumentKey key with
    | error error => exact (stored.absent_of_error encoded).symm
    | ok bytes => exact stored.getElem?_decoded encoded

end DiskSnapshot

def LazyDocument.Shows (scanned : LazyDocument) (document : Document) : Prop :=
  scanned.intoDocument = some document ∧
    ∀ segments, scanned.field segments = nestedValue document.fields segments

theorem shows_decoded (document : Document) : (LazyDocument.decoded document).Shows document :=
  ⟨rfl, fun _ => rfl⟩

variable {document : Document}

theorem shows_encoded {value : List UInt8} (encoded : encodeStoredDocument document = .ok value) :
    (LazyDocument.encoded value).Shows document := by
  obtain ⟨decoded, fields⟩ := encodes_of_encodeStoredDocument encoded
  refine ⟨?_, fields⟩
  rw [LazyDocument.intoDocument, decoded]
  rfl

/-- The scan shows exactly the listed documents, position by position. -/
def ShowsAll (scan : List (DocumentKey × LazyDocument)) (listed : List (DocumentKey × Document)) :
    Prop :=
  Forall₂ (fun scanned entry => scanned.1 = entry.1 ∧ scanned.2.Shows entry.2) scan listed

theorem forall₂_filterMap {α β : Type} {related : α → β → Prop} {f : α → Option β}
    {list : List α} (each : ∀ first ∈ list, ∃ second, f first = some second ∧
      related first second) : Forall₂ related list (list.filterMap f) := by
  induction list with
  | nil => exact .nil
  | cons first list ih =>
    obtain ⟨second, image, here⟩ := each first mem_cons_self
    rw [filterMap_cons_some image]
    exact .cons here (ih (forall_mem_cons.mp each).2)

instance (scope : DiskDocumentScope) : TransCmp scope.compareKeys := by
  cases scope with
  | database name => exact inferInstanceAs (TransCmp (compare (α := DocumentKey)))
  | _ =>
    exact {
      eq_swap := fun {_ _} => @Std.OrientedCmp.eq_swap _ compareResourcePaths _ _ _
      isLE_trans := fun {_ _ _} => @Std.TransCmp.isLE_trans _ compareResourcePaths _ _ _ _ }

/-! ## The overlay of a scope -/

namespace DiskSnapshot

variable {key : DocumentKey} {table : Table} {lower upper : List UInt8}
  {entry : List UInt8 × List UInt8} {rounds : Nat} {database : DatabaseName}

theorem mem_scopedOverlay {snapshot : DiskSnapshot} {shown : Option LazyDocument} :
    (key, shown) ∈ snapshot.scopedOverlay scope ↔ scope.matchesKey key = true ∧
      ∃ document, snapshot.overlay[key]? = some document ∧ shown = document.map .decoded := by
  simp only [scopedOverlay, mem_map, mem_mergeSort, mem_filter, Prod.exists,
    ExtTreeMap.mem_toList_iff_getElem?_eq_some, Prod.mk.injEq]
  constructor
  · rintro ⟨other, document, ⟨patched, inScope⟩, rfl, rfl⟩
    exact ⟨inScope, document, patched, rfl⟩
  · rintro ⟨inScope, document, patched, rfl⟩
    exact ⟨key, document, ⟨patched, inScope⟩, rfl, rfl⟩

theorem sorted_scopedOverlay (snapshot : DiskSnapshot) (scope : DiskDocumentScope) :
    OverlayMerge.Sorted scope.compareKeys (snapshot.scopedOverlay scope) := by
  rw [OverlayMerge.Sorted, scopedOverlay, pairwise_map]
  apply pairwise_mergeSort
  · intro first second third
    exact TransCmp.isLE_trans
  · intro first second
    rw [show scope.compareKeys second.1 first.1 = (scope.compareKeys first.1 second.1).swap from
      OrientedCmp.eq_swap]
    cases scope.compareKeys first.1 second.1 <;> rfl

theorem nodup_scopedOverlay (snapshot : DiskSnapshot) (scope : DiskDocumentScope) :
    ((snapshot.scopedOverlay scope).map Prod.fst).Nodup := by
  rw [scopedOverlay, map_map]
  refine ((mergeSort_perm _ _).map _).nodup_iff.mpr ?_
  have keys : (snapshot.overlay.toList.map Prod.fst).Nodup := by
    rw [ExtTreeMap.map_fst_toList_eq_keys]
    exact ExtTreeMap.nodup_keys
  exact keys.sublist (filter_sublist.map Prod.fst)

/-! ## Iterators -/

variable {snapshot : DiskSnapshot} {documents : DocumentMap} {scope : DiskDocumentScope}
  {source : DiskRange}

section

variable (stored : DocumentsStored snapshot.tables.documents documents)
include stored

section

variable (scans : Scans scope documents (scannedDocuments scope source))
include scans

theorem shows_of_mem_iterator {entry : DocumentKey × LazyDocument}
    (member : entry ∈ snapshot.iterator scope source) :
    scope.matchesKey entry.1 = true ∧
      ∃ document, entry.2.Shows document ∧ snapshot.get entry.1 = some document := by
  obtain ⟨key, scanned⟩ := entry
  rw [iterator, OverlayMerge.mem_merge (snapshot.sorted_scopedOverlay scope) scans.ascending]
    at member
  rcases member with patched | ⟨inScan, visible⟩
  · obtain ⟨inScope, document, patched, isDecoded⟩ := mem_scopedOverlay.mp patched
    obtain ⟨document, rfl, rfl⟩ := Option.map_eq_some_iff.mp isDecoded.symm
    refine ⟨inScope, document, shows_decoded document, ?_⟩
    rw [get_eq stored, patched]
    rfl
  · obtain ⟨inScope, document, value, present, encoded, isEncoded⟩ :=
      (scans.mem (key, scanned)).mp inScan
    cases isEncoded
    refine ⟨inScope, document, shows_encoded encoded, ?_⟩
    rw [get_eq stored]
    cases patched : snapshot.overlay[key]? with
    | none => exact present
    | some patch =>
      exact absurd ReflCmp.compare_self
        (visible _ (mem_scopedOverlay.mpr ⟨inScope, patch, patched, rfl⟩))

variable (unhidden : ∀ key other, documents[key]?.isSome → snapshot.overlay[other]?.isSome →
  scope.matchesKey key = true → scope.matchesKey other = true →
  scope.compareKeys key other = .eq → snapshot.overlay[key]?.isSome)
include unhidden

theorem exists_mem_iterator (inScope : scope.matchesKey key = true)
    (found : snapshot.get key = some document) :
    ∃ scanned, (key, scanned) ∈ snapshot.iterator scope source := by
  simp only [iterator, OverlayMerge.mem_merge (snapshot.sorted_scopedOverlay scope) scans.ascending]
  rw [get_eq stored] at found
  cases patched : snapshot.overlay[key]? with
  | some patch =>
    rw [patched] at found
    subst found
    exact ⟨.decoded document, .inl (mem_scopedOverlay.mpr ⟨inScope, _, patched, rfl⟩)⟩
  | none =>
    rw [patched, Option.getD_none] at found
    obtain ⟨_, value, _, encoded, _⟩ := stored.stored key document found
    refine ⟨.encoded value, .inr ⟨(scans.mem _).mpr
      ⟨inScope, document, value, found, encoded, rfl⟩, ?_⟩⟩
    rintro ⟨other, shown⟩ member equal
    obtain ⟨otherInScope, patch, otherPatched, _⟩ := mem_scopedOverlay.mp member
    have hidden := unhidden key other (by simp [found]) (by simp [otherPatched]) inScope
      otherInScope equal
    simp [patched] at hidden

/-- The iterator lists the documents that point reads find in the scope, in scope
order. -/
theorem exists_listed
    (separate : ∀ first second, (snapshot.get first).isSome → (snapshot.get second).isSome →
      scope.matchesKey first = true → scope.matchesKey second = true →
      scope.compareKeys first second = .eq → first = second) :
    ∃ listed, ShowsAll (snapshot.iterator scope source) listed ∧
      Ascending scope.compareKeys listed ∧ ∀ key document, (key, document) ∈ listed ↔
        scope.matchesKey key = true ∧ snapshot.get key = some document := by
  have ascending : Ascending scope.compareKeys (snapshot.iterator scope source) := by
    apply OverlayMerge.ascending_merge (snapshot.sorted_scopedOverlay scope)
      (snapshot.nodup_scopedOverlay scope) scans.ascending
    intro first firstMember second secondMember
    obtain ⟨firstInScope, _, _, firstFound⟩ := shows_of_mem_iterator stored scans firstMember
    obtain ⟨secondInScope, _, _, secondFound⟩ := shows_of_mem_iterator stored scans secondMember
    exact separate first.1 second.1 (by simp [firstFound]) (by simp [secondFound]) firstInScope
      secondInScope
  let shown (entry : DocumentKey × LazyDocument) : Option (DocumentKey × Document) :=
    (snapshot.get entry.1).map fun document => (entry.1, document)
  have keyOf : ∀ entry listed, shown entry = some listed → listed.1 = entry.1 := by
    rintro entry listed isShown
    obtain ⟨document, _, rfl⟩ := Option.map_eq_some_iff.mp isShown
    rfl
  refine ⟨(snapshot.iterator scope source).filterMap shown, ?_, ?_, ?_⟩
  · apply forall₂_filterMap
    intro entry member
    obtain ⟨_, document, shows, found⟩ := shows_of_mem_iterator stored scans member
    exact ⟨(entry.1, document), by simp [shown, found], rfl, shows⟩
  · rw [Ascending, pairwise_filterMap]
    refine ascending.imp fun less left isLeft right isRight => ?_
    rwa [keyOf _ _ isLeft, keyOf _ _ isRight]
  · intro key document
    rw [mem_filterMap]
    constructor
    · rintro ⟨entry, member, isShown⟩
      obtain ⟨inScope, _⟩ := shows_of_mem_iterator stored scans member
      obtain ⟨other, found, same⟩ := Option.map_eq_some_iff.mp isShown
      cases same
      exact ⟨inScope, found⟩
    · rintro ⟨inScope, found⟩
      obtain ⟨scanned, member⟩ := exists_mem_iterator stored scans unhidden inScope found
      exact ⟨(key, scanned), member, by simp [shown, found]⟩

end

theorem exists_listed_database (database : DatabaseName) :
    ∃ listed, ShowsAll (snapshot.iterDocuments database) listed ∧ Ascending compare listed ∧
      ∀ key document, (key, document) ∈ listed ↔
        key.database = database ∧ snapshot.get key = some document := by
  obtain ⟨listed, shows, ascending, mem⟩ := exists_listed stored
    (scans_database stored database)
    (by
      intro key other _ patched _ _ equal
      rwa [LawfulEqOrd.eq_of_compare (show compare key other = .eq from equal)])
    (fun first second _ _ _ _ equal =>
      LawfulEqOrd.eq_of_compare (show compare first second = .eq from equal))
  refine ⟨listed, shows, ascending, fun key document => ?_⟩
  rw [mem, matchesKey_database]

end

/-! ## Databases of a project -/

theorem length_range_lt {next : List UInt8}
    {first : List UInt8 × List UInt8} (head : (table.range lower upper).head? = some first)
    (past : compare first.1 next = .lt) :
    (table.range next upper).length < (table.range lower upper).length := by
  obtain ⟨rest, split⟩ := head?_eq_some_iff.mp head
  have firstMember : first ∈ table.range lower upper := by
    rw [split]
    exact mem_cons_self
  have raised : (compare lower next).isLE :=
    TransOrd.isLE_trans (mem_range.mp firstMember).2.1 (by rw [past]; rfl)
  have narrowed : table.range next upper =
      (table.range lower upper).filter fun entry => (compare next entry.1).isLE := by
    rw [Table.range, Table.range, filter_filter]
    apply filter_congr
    intro entry _
    by_cases above : (compare next entry.1).isLE
    · simp [TransOrd.isLE_trans raised above]
    · simp [above]
  rw [narrowed, split, filter_cons_of_neg]
  · exact Nat.lt_succ_of_le (length_filter_le _ _)
  · rw [OrientedOrd.eq_swap, past]
    decide

section

variable (stored : DocumentsStored table documents)
include stored

theorem storedDatabasesFrom_succ (head : (table.range lower upper).head? = some entry) :
    ∃ key next, encodeDocumentKey key = .ok entry.1 ∧
      prefixSuccessor (databaseBytes key.database) = some next ∧
      storedDatabasesFrom table upper (rounds + 1) lower =
        key.database :: storedDatabasesFrom table upper rounds next := by
  have member : entry ∈ table.range lower upper := mem_of_head? head
  obtain ⟨inTable, above, below⟩ := mem_range.mp member
  obtain ⟨key, _, _, encoded, _⟩ := stored.source _ _ inTable
  obtain ⟨next, successor⟩ := exists_databaseBytes_successor key.database []
  rw [append_nil] at successor
  have less : compare lower upper = .lt := TransCmp.lt_of_isLE_of_lt above below
  have encodedPrefix : databasePrefix key.database = .ok (databaseBytes key.database) :=
    databasePrefix_eq_ok.mpr ⟨(encodeDocumentKey_eq_ok.mp encoded).1, rfl⟩
  refine ⟨key, next, encoded, successor, ?_⟩
  rw [storedDatabasesFrom, less, if_pos (beq_self_eq_true _), head]
  simp only [decodeDocumentKey_of_encode encoded, encodedPrefix, Except.toOption,
    Option.bind_some, successor]

theorem mem_storedDatabasesFrom (enough : (table.range lower upper).length ≤ rounds)
    (encoded : encodeDocumentKey key = .ok entry.1) (member : entry ∈ table.range lower upper) :
    key.database ∈ storedDatabasesFrom table upper rounds lower := by
  induction rounds generalizing lower with
  | zero =>
    rw [eq_nil_of_length_eq_zero (Nat.le_zero.mp enough)] at member
    cases member
  | succ rounds ih =>
    obtain ⟨first, rest, split⟩ := exists_cons_of_ne_nil (ne_nil_of_mem member)
    have head : (table.range lower upper).head? = some first := by rw [split]; rfl
    obtain ⟨other, next, encodedOther, successor, unfolded⟩ := storedDatabasesFrom_succ stored head
    obtain ⟨otherFits, firstSplit⟩ := encodeDocumentKey_eq_ok.mp encodedOther
    have firstInside := (mem_prefix_range successor first.1).mpr ⟨_, firstSplit⟩
    rw [unfolded, mem_cons]
    by_cases inside : compare entry.1 next = .lt
    · have fromFirst : (compare first.1 entry.1).isLE := by
        have ascending := ascending_range table lower upper
        rw [split] at member ascending
        rcases mem_cons.mp member with rfl | member
        · rw [ReflOrd.compare_self]
          rfl
        · rw [(pairwise_cons.mp ascending).1 entry member]
          rfl
      obtain ⟨rest, extended⟩ := (mem_prefix_range successor entry.1).mp
        ⟨TransOrd.isLE_trans firstInside.1 fromFirst, inside⟩
      obtain ⟨fits, entrySplit⟩ := encodeDocumentKey_eq_ok.mp encoded
      exact .inl (databaseBytes_append_inj fits otherFits (entrySplit.symm.trans extended)).1
    · right
      have shorter := length_range_lt head firstInside.2
      apply ih (by omega)
      obtain ⟨inTable, _, below⟩ := mem_range.mp member
      refine mem_range.mpr ⟨inTable, ?_, below⟩
      rw [OrientedOrd.eq_swap]
      cases order : compare entry.1 next with
      | lt => exact absurd order inside
      | eq => rfl
      | gt => rfl

theorem exists_of_mem_storedDatabasesFrom
    (reported : database ∈ storedDatabasesFrom table upper rounds lower) :
    ∃ key bytes, key.database = database ∧ encodeDocumentKey key = .ok bytes ∧
      (compare lower bytes).isLE ∧ compare bytes upper = .lt := by
  induction rounds generalizing lower with
  | zero => cases reported
  | succ rounds ih =>
    cases head : (table.range lower upper).head? with
    | none =>
      simp only [storedDatabasesFrom, head] at reported
      split_ifs at reported <;> cases reported
    | some first =>
      obtain ⟨key, next, encoded, successor, unfolded⟩ := storedDatabasesFrom_succ stored head
      obtain ⟨_, above, below⟩ := mem_range.mp (mem_of_head? head)
      rw [unfolded] at reported
      rcases mem_cons.mp reported with rfl | reported
      · exact ⟨key, first.1, rfl, encoded, above, below⟩
      · obtain ⟨other, bytes, same, encodedOther, aboveNext, below⟩ := ih reported
        have pastFirst := ((mem_prefix_range successor first.1).mpr
          ⟨_, (encodeDocumentKey_eq_ok.mp encoded).2⟩).2
        have pastNext : (compare lower next).isLE :=
          TransOrd.isLE_trans above (by rw [pastFirst]; rfl)
        exact ⟨other, bytes, same, encodedOther, TransOrd.isLE_trans pastNext aboveNext, below⟩

end

theorem encodeDocumentKey_project {bytes : List UInt8}
    (encoded : encodeDocumentKey key = .ok bytes) :
    key.database.projectId.byteLength < 2 ^ 32 ∧
      ∃ rest, bytes = lengthPrefixed key.database.projectId ++ rest := by
  obtain ⟨fits, rfl⟩ := encodeDocumentKey_eq_ok.mp encoded
  refine ⟨fits.1, lengthPrefixed key.database.databaseId ++ key.path.bytes, ?_⟩
  rw [databaseBytes, append_assoc]

theorem mem_storedDatabases (stored : DocumentsStored table documents)
    (present : documents[key]? = some document) :
    key.database ∈ storedDatabases table key.database.projectId := by
  obtain ⟨bytes, value, encoded, _, inTable⟩ := stored.stored key document present
  obtain ⟨small, extended⟩ := encodeDocumentKey_project encoded
  have encodedPrefix : projectPrefix key.database.projectId =
      .ok (lengthPrefixed key.database.projectId) :=
    pushLengthPrefixed_eq_ok.mpr ⟨small, rfl⟩
  obtain ⟨upper, successor⟩ := exists_project_successor key.database []
  rw [append_nil] at successor
  have bound : (table.range (lengthPrefixed key.database.projectId) upper).length ≤
      table.size + 1 := by
    have := length_filter_le (fun entry : List UInt8 × List UInt8 =>
      (compare (lengthPrefixed key.database.projectId) entry.1).isLE &&
        compare entry.1 upper == .lt) table.toList
    rw [ExtTreeMap.length_toList] at this
    exact Nat.le_succ_of_le this
  simp only [storedDatabases, encodedPrefix, Except.toOption, successor]
  have member : (bytes, value) ∈ table.range (lengthPrefixed key.database.projectId) upper :=
    (mem_range_iff_append successor).mpr ⟨inTable, extended⟩
  exact mem_storedDatabasesFrom stored bound
    (show encodeDocumentKey key = .ok (bytes, value).1 from encoded) member

theorem projectId_of_mem_storedDatabases (stored : DocumentsStored table documents) {project : Text}
    (reported : database ∈ storedDatabases table project) : database.projectId = project := by
  rw [storedDatabases] at reported
  cases encoded : projectPrefix project with
  | error error =>
    rw [encoded] at reported
    cases reported
  | ok lower =>
    obtain ⟨small, rfl⟩ := pushLengthPrefixed_eq_ok.mp encoded
    rw [encoded] at reported
    cases successor : prefixSuccessor ([] ++ lengthPrefixed project) with
    | none =>
      simp only [Except.toOption, successor] at reported
      cases reported
    | some upper =>
      simp only [Except.toOption, successor] at reported
      obtain ⟨key, bytes, rfl, encodedKey, above, below⟩ :=
        exists_of_mem_storedDatabasesFrom stored reported
      obtain ⟨rest, extended⟩ := (mem_prefix_range successor bytes).mp ⟨above, below⟩
      obtain ⟨keySmall, keyRest, keyExtended⟩ := encodeDocumentKey_project encodedKey
      exact (lengthPrefixed_append_inj keySmall small (keyExtended.symm.trans extended)).1

theorem mem_databases (stored : DocumentsStored snapshot.tables.documents documents)
    {project : Text} : database ∈ snapshot.databases project ↔ database.projectId = project ∧
      ∃ key document, key.database = database ∧ snapshot.get key = some document := by
  obtain ⟨listed, shows, _, mem⟩ := exists_listed_database stored database
  have visible : (snapshot.iterDocuments database).isEmpty = false ↔
      ∃ key document, key.database = database ∧ snapshot.get key = some document := by
    simp only [← mem]
    rw [isEmpty_eq_false_iff, ← length_pos_iff, Forall₂.length_eq shows,
      length_pos_iff_exists_mem, Prod.exists]
  simp only [databases, mem_filter, ExtTreeSet.mem_toList, ExtTreeSet.mem_ofList,
    Bool.not_eq_true', visible, contains_iff_mem, mem_append]
  refine and_congr_left ?_
  rintro ⟨key, document, rfl, found⟩
  constructor
  · rintro (restored | reported)
    · obtain ⟨entry, inOverlay, same⟩ := mem_map.mp restored
      have conditions := (mem_filter.mp inOverlay).2
      simp only [Bool.and_eq_true, beq_iff_eq] at conditions
      rw [← same, conditions.2]
    · exact projectId_of_mem_storedDatabases stored reported
  · rintro rfl
    rw [get_eq stored] at found
    cases patched : snapshot.overlay[key]? with
    | none =>
      rw [patched] at found
      exact .inr (mem_storedDatabases stored found)
    | some patch =>
      rw [patched] at found
      subst found
      refine .inl (mem_map.mpr ⟨(key, some document), mem_filter.mpr ⟨?_, ?_⟩, rfl⟩)
      · exact ExtTreeMap.mem_toList_iff_getElem?_eq_some.mpr patched
      · simp

theorem ascending_databases (snapshot : DiskSnapshot) (project : Text) :
    (snapshot.databases project).Pairwise fun left right => compare left right = .lt :=
  ExtTreeSet.ordered_toList.filter _

end DiskSnapshot

end Firenook
