import Firenook.OrderedMaps
import Firenook.Runs
import Firenook.StoreState

/-!
# What one commit does

A planned commit as a sequence of document transitions.  Each transition is
either logged or silent; a silent one replaces a document by an equal one, so it
changes neither the set of keys nor any logical size.  From this follow the
effects of a whole plan on the collection indexes and on logical usage, and that
undoing the logged changes restores the documents the plan started from.
-/

namespace Firenook

open Std OrderedMaps Value List

/-! ## Equal documents -/

private theorem length_eq_of_isEqv {α : Type} {same : α → α → Bool} {lefts rights : List α}
    (equal : isEqv lefts rights same = true) : lefts.length = rights.length := by
  induction lefts generalizing rights with
  | nil => cases rights <;> simp_all
  | cons left lefts ih =>
    cases rights with
    | nil => simp at equal
    | cons right rights =>
      simp only [isEqv_cons_cons, Bool.and_eq_true] at equal
      simp [ih equal.2]

mutual

theorem valueLogicalBytes_of_eq : ∀ left right : Value, left.eq right = true →
    valueLogicalBytes left = valueLogicalBytes right
  | .array lefts, right, same => by
      cases right with
      | array rights =>
        simpa only [valueLogicalBytes] using valuesLogicalBytes_of_eqAll lefts rights 0 same
      | _ => simp [eq] at same
  | .map lefts, right, same => by
      cases right with
      | map rights =>
        simpa only [valueLogicalBytes] using entriesLogicalBytes_of_eqEntries lefts rights 0 same
      | _ => simp [eq] at same
  | .vector lefts, right, same => by
      cases right with
      | vector rights =>
        simp [valueLogicalBytes, length_eq_of_isEqv same]
      | _ => simp [eq] at same
  | .null, right, same | .boolean _, right, same | .integer _, right, same
  | .double _, right, same | .timestamp _, right, same | .string _, right, same
  | .bytes _, right, same | .reference _, right, same | .geoPoint _ _, right, same =>
    by cases right <;> simp_all [eq, valueLogicalBytes]

theorem valuesLogicalBytes_of_eqAll : ∀ (lefts rights : List Value) (total : Nat),
    eqAll lefts rights = true →
      valuesLogicalBytes total lefts = valuesLogicalBytes total rights
  | [], rights, _, same => by cases rights <;> simp_all [eqAll]
  | left :: lefts, [], _, same => by simp [eqAll] at same
  | left :: lefts, right :: rights, total, same => by
      simp only [eqAll, Bool.and_eq_true] at same
      simp only [valuesLogicalBytes, valueLogicalBytes_of_eq left right same.1]
      exact valuesLogicalBytes_of_eqAll lefts rights _ same.2

theorem entriesLogicalBytes_of_eqEntries : ∀ (lefts rights : List (Text × Value))
    (total : Nat), eqEntries lefts rights = true →
      entriesLogicalBytes total lefts = entriesLogicalBytes total rights
  | [], rights, _, same => by cases rights <;> simp_all [eqEntries]
  | _ :: _, [], _, same => by simp [eqEntries] at same
  | (leftName, left) :: lefts, (rightName, right) :: rights, total, same => by
      simp only [eqEntries, Bool.and_eq_true, beq_iff_eq] at same
      obtain ⟨⟨rfl, sameValue⟩, sameRest⟩ := same
      simp only [entriesLogicalBytes, valueLogicalBytes_of_eq left right sameValue]
      exact entriesLogicalBytes_of_eqEntries lefts rights _ sameRest

end

theorem documentEntryLogicalBytes_of_eq {left right : Document} (same : left.eq right = true)
    (key : DocumentKey) :
    documentEntryLogicalBytes key left = documentEntryLogicalBytes key right := by
  simp only [Document.eq, Bool.and_eq_true] at same
  have fieldsSame := entriesLogicalBytes_of_eqEntries _ _ 0 same.1.1
  simp only [documentEntryLogicalBytes, documentLogicalBytes, fieldsLogicalBytes, fieldsSame]

theorem updateTime_of_eq {left right : Document} (same : left.eq right = true) :
    left.updateTime = right.updateTime := by
  simp only [Document.eq, Bool.and_eq_true, beq_iff_eq] at same
  exact same.2

theorem optionDocumentEq_cases {left right : Option Document}
    (same : optionDocumentEq left right = true) :
    (left = none ∧ right = none) ∨
      ∃ first second, left = some first ∧ right = some second ∧ first.eq second = true := by
  cases left <;> cases right <;> simp_all [optionDocumentEq]

theorem isSome_of_optionDocumentEq {left right : Option Document}
    (same : optionDocumentEq left right = true) : left.isSome = right.isSome := by
  rcases optionDocumentEq_cases same with ⟨rfl, rfl⟩ | ⟨_, _, rfl, rfl, _⟩ <;> rfl

/-! ## Putting documents -/

variable (documents : DocumentMap)

theorem getElem?_putDocument (key other : DocumentKey) (next : Option Document) :
    (putDocument documents key next)[other]? = if key = other then next else documents[other]? := by
  cases next with
  | none => exact getElem?_erase documents key other
  | some document => exact getElem?_insert_eq documents key other document

@[simp]
theorem putDocument_self (key : DocumentKey) :
    putDocument documents key documents[key]? = documents := by
  refine ExtTreeMap.ext_getElem? fun other => ?_
  rw [getElem?_putDocument]
  split_ifs with same
  · rw [same]
  · rfl

theorem putDocument_putDocument (key : DocumentKey) (next : Option Document) :
    putDocument (putDocument documents key next) key documents[key]? = documents := by
  refine ExtTreeMap.ext_getElem? fun other => ?_
  simp only [getElem?_putDocument]
  split_ifs with same
  · rw [same]
  · rfl

variable {key : DocumentKey}

theorem mem_iff_isSome {documents : DocumentMap} :
    key ∈ documents ↔ documents[key]?.isSome = true :=
  ExtTreeMap.mem_iff_isSome_getElem?

/-! ## Logical usage -/

def documentsUsage : LogicalMemoryUsage :=
  ⟨documents.size, total documentEntryLogicalBytes documents⟩

theorem one_le_documentEntryLogicalBytes (key : DocumentKey) (document : Document) :
    1 ≤ documentEntryLogicalBytes key document := by
  simp only [documentEntryLogicalBytes, documentLogicalBytes, saturatingAdd, u64Max]
  omega

section

variable (documents : DocumentMap)

theorem removeUsage_documentsUsage (key : DocumentKey) :
    removeUsage (documentsUsage documents) key documents[key]? =
      documentsUsage (documents.erase key) := by
  cases stored : documents[key]? with
  | none => simp only [removeUsage, erase_of_absent stored]
  | some document =>
    have sizeEq := size_erase_add_one stored
    have totalEq := total_erase_add documentEntryLogicalBytes stored
    simp only [removeUsage, documentsUsage, LogicalMemoryUsage.mk.injEq]
    omega

theorem addUsage_removeUsage (key : DocumentKey) (next : Option Document)
    (fits : (documentsUsage (putDocument documents key next)).logicalBytes ≤ u64Max) :
    addUsage (removeUsage (documentsUsage documents) key documents[key]?) key next =
      documentsUsage (putDocument documents key next) := by
  rw [removeUsage_documentsUsage]
  cases next with
  | none => rfl
  | some document =>
    have entriesFit : (documents.insert key document).size ≤ u64Max :=
      (size_le_total one_le_documentEntryLogicalBytes _).trans fits
    have sizeEq := size_insert documents key document
    have totalEq := total_insert documentEntryLogicalBytes documents key document
    simp only [addUsage, putDocument, documentsUsage, saturatingAdd,
      LogicalMemoryUsage.mk.injEq] at fits ⊢
    omega

theorem removeUsage_addUsage (key : DocumentKey)
    (next : Option Document) (fits : (documentsUsage documents).logicalBytes ≤ u64Max) :
    addUsage (removeUsage (documentsUsage (putDocument documents key next)) key next) key
      documents[key]? = documentsUsage documents := by
  have restored := putDocument_putDocument documents key next
  have moved := addUsage_removeUsage (putDocument documents key next) key documents[key]?
    (by rw [restored]; exact fits)
  rw [restored, getElem?_putDocument, if_pos rfl] at moved
  exact moved

end

variable {next : Option Document}

theorem documentsUsage_putDocument_of_eq {documents : DocumentMap}
    (same : optionDocumentEq documents[key]? next = true) :
    documentsUsage (putDocument documents key next) = documentsUsage documents := by
  rcases optionDocumentEq_cases same with ⟨absent, rfl⟩ | ⟨_, _, stored, rfl, equal⟩
  · simp only [putDocument, erase_of_absent absent]
  · have sizeEq := size_erase_add_one stored
    have totalEq := total_erase_add documentEntryLogicalBytes stored
    have bytesEq := documentEntryLogicalBytes_of_eq equal key
    simp only [putDocument, documentsUsage, size_insert, total_insert, LogicalMemoryUsage.mk.injEq]
    omega

/-! ## Collection indexes -/

structure IndexLists (indexKey : DocumentKey → IndexKey)
    (index : ExtTreeMap IndexKey KeySet) (documents : DocumentMap) : Prop where
  lists : ∀ scope key, key ∈ scopeKeys index scope ↔ key ∈ documents ∧ indexKey key = scope
  nonempty : ∀ (scope : IndexKey) (keys : KeySet), index[scope]? = some keys → keys ≠ ∅

variable (indexKey : DocumentKey → IndexKey)

theorem indexLists_empty : IndexLists indexKey ∅ ∅ where
  lists scope key := by simp [scopeKeys]
  nonempty scope keys stored := by simp at stored

variable {index : ExtTreeMap IndexKey KeySet}

theorem IndexLists.congr {indexKey : DocumentKey → IndexKey} {documents documents' : DocumentMap}
    (lists : IndexLists indexKey index documents)
    (sameKeys : ∀ key, key ∈ documents ↔ key ∈ documents') :
    IndexLists indexKey index documents' where
  lists scope key := by rw [lists.lists, sameKeys]
  nonempty := lists.nonempty

theorem scopeKeys_updateIndex
    (index : ExtTreeMap IndexKey KeySet) (key : DocumentKey) (present : Bool)
    (scope : IndexKey) :
    scopeKeys (updateIndex indexKey index key present) scope =
      if indexKey key = scope then
        if present then (scopeKeys index scope).insert key
        else (scopeKeys index scope).erase key
      else scopeKeys index scope := by
  by_cases same : indexKey key = scope
  · subst same
    rw [if_pos rfl]
    unfold updateIndex
    split_ifs with isPresent
    all_goals
      dsimp only
      split_ifs with empty
      · simpa [scopeKeys] using (ExtTreeSet.isEmpty_iff.mp empty).symm
      · simp [scopeKeys]
  · unfold updateIndex
    dsimp only
    split_ifs
    all_goals simp [scopeKeys, getElem?_insert_eq, getElem?_erase, same]

theorem IndexLists.putDocument {indexKey : DocumentKey → IndexKey} {documents : DocumentMap}
    (lists : IndexLists indexKey index documents) (key : DocumentKey)
    (next : Option Document) :
    IndexLists indexKey (updateIndex indexKey index key next.isSome)
      (Firenook.putDocument documents key next) where
  lists scope other := by
    rw [scopeKeys_updateIndex, mem_iff_isSome, getElem?_putDocument]
    by_cases same : key = other
    · subst same
      rw [if_pos rfl]
      split_ifs with sameScope isPresent
      · simp [isPresent, sameScope]
      · simp [isPresent]
      · simp [lists.lists, sameScope]
    · split_ifs with sameScope isPresent
      all_goals simp [same, lists.lists]
  nonempty scope keys stored := by
    unfold updateIndex at stored
    dsimp only at stored
    split_ifs at stored with isPresent empty empty
    all_goals
      simp only [getElem?_insert_eq, getElem?_erase] at stored
      split_ifs at stored with sameScope
    all_goals
      first
        | exact lists.nonempty scope keys stored
        | cases stored
          exact ExtTreeSet.isEmpty_eq_false_iff.mp (Bool.eq_false_iff.mpr empty)

/-! ## Plans -/

variable {write : Write} {commitTime : Timestamp}

theorem nextDocument_cases {previous next : Option Document}
    (planned : nextDocument previous commitTime write = .ok next) :
    next = previous ∨ next = none ∨
      ∃ document, next = some document ∧ document.updateTime = commitTime := by
  cases write with
  | create key fields =>
    simp only [nextDocument] at planned
    split_ifs at planned
    cases planned
    exact .inr (.inr ⟨_, rfl, rfl⟩)
  | set key fields transforms precondition =>
    obtain ⟨_, _, planned⟩ := bind_eq_ok.mp planned
    obtain ⟨nextFields, _, planned⟩ := bind_eq_ok.mp planned
    split_ifs at planned
    · cases planned
      exact .inl rfl
    · cases planned
      exact .inr (.inr ⟨_, rfl, rfl⟩)
  | patch key fields updateMask transforms precondition =>
    obtain ⟨_, _, planned⟩ := bind_eq_ok.mp planned
    obtain ⟨nextFields, _, planned⟩ := bind_eq_ok.mp planned
    cases planned
    exact .inr (.inr ⟨_, rfl, rfl⟩)
  | delete key precondition =>
    obtain ⟨_, _, planned⟩ := bind_eq_ok.mp planned
    cases planned
    exact .inr (.inl rfl)
  | verify key precondition =>
    obtain ⟨_, _, planned⟩ := bind_eq_ok.mp planned
    cases planned
    exact .inl rfl

/-- Only a document stamped by this commit can be replaced silently. -/
theorem nextDocument_of_silent {previous next : Option Document}
    (applied : nextDocument previous commitTime write = .ok next)
    (same : optionDocumentEq previous next = true)
    (unstamped : ∀ document, previous = some document → document.updateTime ≠ commitTime) :
    next = previous := by
  rcases nextDocument_cases applied with kept | rfl | ⟨document, rfl, stamped⟩
  · exact kept
  · rcases optionDocumentEq_cases same with ⟨absent, _⟩ | ⟨_, _, _, ⟨⟩, _⟩
    exact absent.symm
  · rcases optionDocumentEq_cases same with ⟨_, ⟨⟩⟩ | ⟨old, _, stored, ⟨⟩, equal⟩
    exact absurd ((updateTime_of_eq equal).trans stamped) (unstamped old stored)

inductive Plans (revision : Nat) (commitTime : Timestamp) :
    DocumentMap → List Write → DocumentMap → List Change → Prop
  | nil (documents : DocumentMap) : Plans revision commitTime documents [] documents []
  | silent {documents planned : DocumentMap} {write : Write} {writes : List Write}
      {next : Option Document} {changes : List Change}
      (applied : nextDocument documents[writeKey write]? commitTime write = .ok next)
      (same : optionDocumentEq documents[writeKey write]? next = true)
      (rest : Plans revision commitTime (putDocument documents (writeKey write) next)
        writes planned changes) :
      Plans revision commitTime documents (write :: writes) planned changes
  | logged {documents planned : DocumentMap} {write : Write} {writes : List Write}
      {next : Option Document} {changes : List Change}
      (applied : nextDocument documents[writeKey write]? commitTime write = .ok next)
      (differs : optionDocumentEq documents[writeKey write]? next = false)
      (rest : Plans revision commitTime (putDocument documents (writeKey write) next)
        writes planned changes) :
      Plans revision commitTime documents (write :: writes) planned
        (⟨revision, writeKey write, documents[writeKey write]?, next⟩ :: changes)

theorem plans_of_planWrites {revision : Nat}
    {documents planned : DocumentMap} {writes : List Write} {changes : List Change}
    (success : planWrites revision commitTime documents writes = .ok (planned, changes)) :
    Plans revision commitTime documents writes planned changes := by
  induction writes generalizing documents changes with
  | nil =>
    cases success
    exact .nil _
  | cons write writes ih =>
    obtain ⟨⟨key, next⟩, applied, success⟩ := bind_eq_ok.mp success
    obtain ⟨⟨final, tail⟩, restPlanned, success⟩ := bind_eq_ok.mp success
    obtain ⟨next', applied, sameKey⟩ := bind_eq_ok.mp applied
    cases sameKey
    cases success
    split_ifs with same
    · exact .silent applied same (ih restPlanned)
    · exact .logged applied (by simpa using same) (ih restPlanned)

/-- The documents stay within 64 bits of logical bytes at every write. -/
def DocumentsFit (commitTime : Timestamp) : DocumentMap → List Write → Prop
  | documents, [] => (documentsUsage documents).logicalBytes ≤ u64Max
  | documents, write :: writes =>
    (documentsUsage documents).logicalBytes ≤ u64Max ∧
      match nextDocument documents[writeKey write]? commitTime write with
      | .ok next =>
        DocumentsFit commitTime (putDocument documents (writeKey write) next) writes
      | .error _ => True

instance decidableDocumentsFit (commitTime : Timestamp) :
    ∀ documents writes, Decidable (DocumentsFit commitTime documents writes)
  | _, [] => inferInstanceAs (Decidable (_ ≤ _))
  | documents, write :: writes =>
    match applied : nextDocument documents[writeKey write]? commitTime write with
    | .ok next =>
      have := decidableDocumentsFit commitTime (putDocument documents (writeKey write) next) writes
      decidable_of_iff ((documentsUsage documents).logicalBytes ≤ u64Max ∧
        DocumentsFit commitTime (putDocument documents (writeKey write) next) writes)
        (by rw [DocumentsFit, applied])
    | .error _ =>
      decidable_of_iff ((documentsUsage documents).logicalBytes ≤ u64Max)
        (by rw [DocumentsFit, applied]; simp)

def AlongWrites (commitTime : Timestamp)
    (condition : DocumentMap → DocumentKey → Option Document → Prop) :
    DocumentMap → List Write → Prop
  | _, [] => True
  | documents, write :: writes =>
    match nextDocument documents[writeKey write]? commitTime write with
    | .ok next => condition documents (writeKey write) next ∧
      AlongWrites commitTime condition (putDocument documents (writeKey write) next) writes
    | .error _ => True

section PlanEffects

variable {revision : Nat} {commitTime : Timestamp} {documents planned : DocumentMap}
  {writes : List Write} {changes : List Change}

theorem DocumentsFit.start (fits : DocumentsFit commitTime documents writes) :
    (documentsUsage documents).logicalBytes ≤ u64Max := by
  cases writes with
  | nil => exact fits
  | cons write writes => exact fits.1

theorem DocumentsFit.tail (fits : DocumentsFit commitTime documents (write :: writes))
    (applied : nextDocument documents[writeKey write]? commitTime write = .ok next) :
    DocumentsFit commitTime (putDocument documents (writeKey write) next) writes := by
  have rest := fits.2
  rw [applied] at rest
  exact rest

theorem AlongWrites.cons {condition : DocumentMap → DocumentKey → Option Document → Prop}
    (along : AlongWrites commitTime condition documents (write :: writes))
    (applied : nextDocument documents[writeKey write]? commitTime write = .ok next) :
    condition documents (writeKey write) next ∧
      AlongWrites commitTime condition (putDocument documents (writeKey write) next) writes := by
  rw [AlongWrites, applied] at along
  exact along

section

variable (plans : Plans revision commitTime documents writes planned changes)
include plans

/-- The counters of a plan move between exact usages in both directions. -/
theorem Plans.usage (fits : DocumentsFit commitTime documents writes) :
    changes.foldl applyDocumentTransition (documentsUsage documents) = documentsUsage planned ∧
      changes.reverse.foldl applyReverseDocumentTransition (documentsUsage planned) =
        documentsUsage documents := by
  induction plans with
  | nil => exact ⟨rfl, rfl⟩
  | silent applied same rest ih =>
    have result := ih (fits.tail applied)
    rwa [documentsUsage_putDocument_of_eq same] at result
  | @logged documents planned write writes next changes applied differs rest ih =>
    obtain ⟨forward, backward⟩ := ih (fits.tail applied)
    constructor
    · rw [← forward]
      refine congrArg (fun usage => changes.foldl applyDocumentTransition usage) ?_
      exact addUsage_removeUsage documents _ next (fits.tail applied).start
    · rw [reverse_cons, foldl_append, backward]
      exact removeUsage_addUsage documents _ next fits.start

theorem Plans.indexLists {indexKey : DocumentKey → IndexKey}
    (lists : IndexLists indexKey index documents) :
    IndexLists indexKey (changes.foldl
        (fun index change => updateIndex indexKey index change.key change.after.isSome) index)
      planned := by
  induction plans generalizing index with
  | nil => exact lists
  | @silent documents planned write writes next changes applied same rest ih =>
    refine ih (lists.congr fun key => ?_)
    rw [mem_iff_isSome, mem_iff_isSome, getElem?_putDocument]
    split_ifs with sameKey
    · rw [← sameKey, isSome_of_optionDocumentEq same]
    · rfl
  | logged applied differs rest ih => exact ih (lists.putDocument _ _)

/-- Undoing the logged changes restores every document that the plan did not find
already stamped with its own commit time. -/
theorem Plans.undo_getElem?
    (unstamped : ∀ document, documents[key]? = some document → document.updateTime ≠ commitTime) :
    (changes.reverse.foldl
      (fun documents change => putDocument documents change.key change.before) planned)[key]? =
        documents[key]? := by
  induction plans with
  | nil => rfl
  | @silent documents planned write writes next changes applied same rest ih =>
    have kept : (putDocument documents (writeKey write) next)[key]? = documents[key]? := by
      rw [getElem?_putDocument]
      split_ifs with sameKey
      · subst sameKey
        exact nextDocument_of_silent applied same unstamped
      · rfl
    rw [← kept]
    exact ih (by rwa [kept])
  | @logged documents planned write writes next changes applied differs rest ih =>
    rw [reverse_cons, foldl_append, foldl_cons, foldl_nil, getElem?_putDocument]
    split_ifs with sameKey
    · rw [← sameKey]
    · have kept : (putDocument documents (writeKey write) next)[key]? = documents[key]? := by
        rw [getElem?_putDocument, if_neg sameKey]
      rw [← kept]
      exact ih (by rwa [kept])

theorem Plans.undo (unstamped : ∀ (key : DocumentKey) (document : Document),
      documents[key]? = some document → document.updateTime ≠ commitTime) : changes.reverse.foldl
      (fun documents change => putDocument documents change.key change.before) planned =
        documents :=
  ExtTreeMap.ext_getElem? fun key => plans.undo_getElem? (unstamped key)

theorem Plans.updateTime_le (bounded : ∀ (key : DocumentKey) (document : Document),
      documents[key]? = some document → document.updateTime ≤ commitTime) :
    ∀ (key : DocumentKey) (document : Document),
      planned[key]? = some document → document.updateTime ≤ commitTime := by
  have stepBounded : ∀ {documents : DocumentMap} {write : Write} {next : Option Document},
      nextDocument documents[writeKey write]? commitTime write = .ok next →
      (∀ (key : DocumentKey) (document : Document),
        documents[key]? = some document → document.updateTime ≤ commitTime) →
      ∀ (key : DocumentKey) (document : Document),
        (putDocument documents (writeKey write) next)[key]? = some document →
          document.updateTime ≤ commitTime := by
    intro documents write next applied bounded key document stored
    rw [getElem?_putDocument] at stored
    split_ifs at stored with sameKey
    · rcases nextDocument_cases applied with unchanged | removed | ⟨stamped, isNext, stamp⟩
      · exact bounded _ document (unchanged ▸ stored)
      · simp [removed] at stored
      · cases isNext.symm.trans stored
        rw [stamp]
    · exact bounded key document stored
  induction plans with
  | nil => exact bounded
  | silent applied same rest ih | logged applied differs rest ih =>
    exact ih (stepBounded applied bounded)

theorem Plans.change_revision : ∀ change ∈ changes, change.revision = revision := by
  induction plans with
  | nil => simp
  | silent applied same rest ih => exact ih
  | logged applied differs rest ih => simpa using ih

theorem Plans.change_key_mem : ∀ change ∈ changes, change.key ∈ writes.map writeKey := by
  induction plans with
  | nil => simp
  | silent applied same rest ih =>
    exact fun change member => mem_cons_of_mem _ (ih change member)
  | logged applied differs rest ih =>
    rw [forall_mem_cons]
    exact ⟨mem_cons_self, fun change member => mem_cons_of_mem _ (ih change member)⟩

end

theorem Plans.cons {writes : List Write}
    (plans : Plans revision commitTime documents (write :: writes) planned changes) :
    ∃ next tail, nextDocument documents[writeKey write]? commitTime write = .ok next ∧
      Plans revision commitTime (putDocument documents (writeKey write) next) writes planned
        tail := by
  cases plans with
  | silent applied same rest | logged applied differs rest => exact ⟨_, _, applied, rest⟩

theorem Plans.getElem?_untouched
    (plans : Plans revision commitTime documents writes planned changes)
    (untouched : key ∉ writes.map writeKey) : planned[key]? = documents[key]? := by
  induction writes generalizing documents changes with
  | nil =>
    cases plans
    rfl
  | cons write writes ih =>
    rw [map_cons, mem_cons, not_or] at untouched
    obtain ⟨next, tail, _, rest⟩ := plans.cons
    rw [ih rest untouched.2, getElem?_putDocument, if_neg (Ne.symm untouched.1)]

end PlanEffects

end Firenook
