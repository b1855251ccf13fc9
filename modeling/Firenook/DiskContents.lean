import Firenook.DiskTables
import Firenook.EncodedMaps
import Firenook.StoreCommits

/-!
# What the disk tables hold

The documents table is the encoded image of a map of documents.  Mutations and the
loading of the written documents are related to the map through this invariant.
-/

namespace Firenook

open EncodedMaps

variable {tables result : DiskTables}

def KeyBytes (key : DocumentKey) (bytes : List UInt8) : Prop := encodeDocumentKey key = .ok bytes

abbrev DocumentsStored (table : Table) (documents : DocumentMap) : Prop :=
  Image KeyBytes (fun _ document value => encodeStoredDocument document = .ok value) table documents

theorem separated_keyBytes (documents : DocumentMap) : Separated KeyBytes documents :=
  fun _ _ _ _ _ => encodeDocumentKey_inj

theorem functional_ok {α β ε : Type} {encode : α → Except ε β} (value : α) (first second : β)
    (encodedFirst : encode value = .ok first) (encodedSecond : encode value = .ok second) :
    first = second :=
  Except.ok.inj (encodedFirst.symm.trans encodedSecond)

namespace DocumentsStored

variable {table : Table} {documents : DocumentMap}

theorem getElem?_decoded (stored : DocumentsStored table documents) {key : DocumentKey}
    {bytes : List UInt8} (encoded : encodeDocumentKey key = .ok bytes) :
    table[bytes]?.bind (fun value => (decodeStoredDocument value).toOption) = documents[key]? := by
  cases found : table[bytes]? with
  | none =>
    cases present : documents[key]? with
    | none => rfl
    | some document =>
      obtain ⟨other, value, encodedOther, _, atOther⟩ := stored.stored key document present
      rw [functional_ok key other bytes encodedOther encoded, found] at atOther
      cases atOther
  | some value =>
    obtain ⟨other, document, present, encodedOther, encodedValue⟩ := stored.source bytes value found
    obtain rfl := encodeDocumentKey_inj encoded encodedOther
    rw [present, Option.bind_some, (encodes_of_encodeStoredDocument encodedValue).1]
    rfl

theorem absent_of_error (stored : DocumentsStored table documents) {key : DocumentKey}
    {error : DiskError} (failed : encodeDocumentKey key = .error error) :
    documents[key]? = none := by
  cases present : documents[key]? with
  | none => rfl
  | some document =>
    obtain ⟨bytes, _, encoded, _⟩ := stored.stored key document present
    rw [KeyBytes, failed] at encoded
    cases encoded

end DocumentsStored

/-! ## Mutations -/

theorem applyMutation_cases {mutation : PersistedMutation}
    (applied : tables.applyMutation mutation = .ok result) :
    ∃ key collectionKey collectionGroupKey, encodeDocumentKey mutation.key = .ok key ∧
      encodeCollectionIndexKey mutation.key = .ok collectionKey ∧
      encodeCollectionGroupIndexKey mutation.key = .ok collectionGroupKey ∧
      ((∃ document value, mutation.document = some document ∧
          encodeStoredDocument document = .ok value ∧
          result = { tables with
            documents := tables.documents.insert key value
            collections := tables.collections.insert collectionKey key
            collectionGroups := tables.collectionGroups.insert collectionGroupKey key }) ∨
        mutation.document = none ∧ result = { tables with
          documents := tables.documents.erase key
          collections := tables.collections.erase collectionKey
          collectionGroups := tables.collectionGroups.erase collectionGroupKey }) := by
  simp only [DiskTables.applyMutation, bind_eq_ok] at applied
  obtain ⟨key, encodedKey, collectionKey, encodedCollection, groupKey, encodedGroup, applied⟩ :=
    applied
  refine ⟨key, collectionKey, groupKey, encodedKey, encodedCollection, encodedGroup, ?_⟩
  cases present : mutation.document with
  | none =>
    rw [present] at applied
    cases applied
    exact .inr ⟨rfl, rfl⟩
  | some document =>
    rw [present] at applied
    obtain ⟨value, encoded, applied⟩ := bind_eq_ok.mp applied
    cases applied
    exact .inl ⟨document, value, rfl, mapError_eq_ok.mp encoded, rfl⟩

def mutatedDocuments (documents : DocumentMap) (mutations : List PersistedMutation) : DocumentMap :=
  mutations.foldl (fun documents mutation =>
    putDocument documents mutation.key mutation.document) documents

def LoadedFrom (documents : DocumentMap) (keys : List DocumentKey) (loaded : DocumentMap) : Prop :=
  ∀ key, loaded[key]? = if key ∈ keys then documents[key]? else none

section

variable {documents : DocumentMap} (stored : DocumentsStored tables.documents documents)
include stored

theorem DocumentsStored.applyMutation {mutation : PersistedMutation}
    (applied : tables.applyMutation mutation = .ok result) :
    DocumentsStored result.documents (putDocument documents mutation.key mutation.document) := by
  obtain ⟨key, _, _, encodedKey, _, _, change⟩ := applyMutation_cases applied
  rcases change with ⟨document, value, isSome, encoded, rfl⟩ | ⟨isNone, rfl⟩
  · rw [isSome]
    exact Image.insert stored functional_ok encodedKey encoded (separated_keyBytes _)
  · rw [isNone]
    exact Image.erase stored functional_ok encodedKey
      fun other _ encodedOther => encodeDocumentKey_inj encodedOther encodedKey

theorem DocumentsStored.applyMutations {mutations : List PersistedMutation}
    (applied : tables.applyMutations mutations = .ok result) :
    DocumentsStored result.documents (mutatedDocuments documents mutations) := by
  induction mutations generalizing tables documents with
  | nil =>
    cases applied
    exact stored
  | cons mutation mutations ih =>
    obtain ⟨next, first, rest⟩ := bind_eq_ok.mp applied
    exact ih (stored.applyMutation first) rest

/-! ## Loading the written documents -/

theorem LoadedFrom.loadDocument {loaded result : DocumentMap} {keys : List DocumentKey}
    {key : DocumentKey} (before : LoadedFrom documents keys loaded)
    (loads : tables.loadDocument loaded key = .ok result) :
    LoadedFrom documents (key :: keys) result := by
  obtain ⟨bytes, encoded, loads⟩ := bind_eq_ok.mp loads
  have decoded := stored.getElem?_decoded encoded
  intro other
  cases found : tables.documents[bytes]? with
  | none =>
    rw [found] at loads decoded
    cases loads
    rw [before other]
    by_cases same : other = key
    · subst same
      simp [← decoded]
    · simp [same]
  | some value =>
    rw [found, Option.bind_some] at decoded
    rw [found] at loads
    obtain ⟨document, decodes, loads⟩ := bind_eq_ok.mp loads
    cases loads
    rw [mapError_eq_ok.mp decodes] at decoded
    rw [OrderedMaps.getElem?_insert_eq, before other]
    by_cases same : other = key
    · subst same
      simp [← decoded, Except.toOption]
    · simp [same, Ne.symm same]

theorem LoadedFrom.foldlM {loaded result : DocumentMap} {keys more : List DocumentKey}
    (before : LoadedFrom documents keys loaded)
    (loads : more.foldlM tables.loadDocument loaded = .ok result) :
    LoadedFrom documents (more ++ keys) result := by
  induction more generalizing keys loaded with
  | nil =>
    cases loads
    exact before
  | cons key more ih =>
    obtain ⟨next, first, rest⟩ := bind_eq_ok.mp loads
    have after := ih (before.loadDocument stored first) rest
    intro other
    rw [after other]
    simp only [List.mem_append, List.mem_cons]
    congr 1
    exact propext (by tauto)

theorem agreeing_loadWriteDocuments {result : DocumentMap} {writes : List Write}
    (loads : tables.loadWriteDocuments writes = .ok result) :
    ∀ key ∈ writes.map writeKey, result[key]? = documents[key]? := by
  have none : LoadedFrom documents [] ∅ := by
    intro key
    simp
  have loaded := none.foldlM stored loads
  intro key member
  rw [loaded key, if_pos (by simpa using member)]

end

end Firenook
