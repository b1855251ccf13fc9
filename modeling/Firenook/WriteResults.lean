import Firenook.FieldMasks
import Firenook.FirestoreService

/-!
# Results of a write request

A write request commits first and computes the results of its writes from the
snapshot after the commit.  A numeric transform reports the value that its field has
there; when a later write or transform of the same request has removed the field, the
request fails although its writes are installed.
-/

namespace Firenook

variable {transform : FieldTransform} {document : Option Document}

def fieldValue (document : Option Document) (path : FieldPath) : Option Value :=
  document.bind fun document => nestedValue document.fields path.segments

def HasField (document : Option Document) (path : FieldPath) : Prop :=
  (fieldValue document path).isSome = true

/-- The fields of all numeric transforms of a request are there. -/
def FieldsKept (documents : DocumentMap) (requested : List DecodedWrite) : Prop :=
  ∀ decoded ∈ requested, ∀ transform ∈ decoded.transforms,
    transform.operation.isNumeric = true → HasField documents[decoded.key]? transform.path

/-! ## Documents that compare equal -/

def SameFields (first second : Option Document) : Prop :=
  ∀ path, HasField first path ↔ HasField second path

theorem get?_of_eqEntries {lefts rights : List (Text × Value)}
    (same : Value.eqEntries lefts rights = true) (segment : Text) :
    (OrderedEntries.get? Text.cmp segment lefts = none ∧
      OrderedEntries.get? Text.cmp segment rights = none) ∨
    ∃ left right, OrderedEntries.get? Text.cmp segment lefts = some left ∧
      OrderedEntries.get? Text.cmp segment rights = some right ∧ left.eq right = true := by
  induction lefts generalizing rights with
  | nil =>
    cases rights with
    | nil => exact .inl ⟨rfl, rfl⟩
    | cons entry rights => simp [Value.eqEntries] at same
  | cons entry lefts ih =>
    obtain ⟨leftName, left⟩ := entry
    cases rights with
    | nil => simp [Value.eqEntries] at same
    | cons entry rights =>
      obtain ⟨rightName, right⟩ := entry
      simp only [Value.eqEntries, Bool.and_eq_true, beq_iff_eq] at same
      obtain ⟨⟨rfl, sameValue⟩, same⟩ := same
      simp only [OrderedEntries.get?]
      split_ifs
      · exact .inr ⟨left, right, rfl, rfl, sameValue⟩
      · exact ih same

theorem Value.isSome_nested_of_eq {left right : Value} (same : left.eq right = true)
    (path : List Text) : (left.nested path).isSome = (right.nested path).isSome := by
  induction path generalizing left right with
  | nil => rfl
  | cons segment path ih =>
    cases left <;> cases right <;> simp only [Value.eq, Bool.false_eq_true] at same <;> try rfl
    case map lefts rights =>
      rcases get?_of_eqEntries same segment with
        ⟨absent, absent'⟩ | ⟨child, child', found, found', sameChild⟩
      · simp [Value.nested, Value.member, absent, absent']
      · simpa [Value.nested, Value.member, found, found'] using ih sameChild

theorem sameFields_of_eq {first second : Option Document}
    (same : optionDocumentEq first second = true) : SameFields first second := by
  intro path
  rw [HasField, HasField, fieldValue, fieldValue]
  rcases optionDocumentEq_cases same with ⟨rfl, rfl⟩ | ⟨first, second, rfl, rfl, equal⟩
  · rfl
  · simp only [Document.eq, Bool.and_eq_true] at equal
    have sameMap : (Value.map first.fields.entries).eq (Value.map second.fields.entries) =
        true := equal.1.1
    rw [Option.bind_some, Option.bind_some, nestedValue_eq_nested _ path.nonempty.1,
      nestedValue_eq_nested _ path.nonempty.1, Value.isSome_nested_of_eq sameMap]

theorem Plans.related_mutatedDocuments {Related : Option Document → Option Document → Prop}
    (refl : ∀ document, Related document document)
    (kept : ∀ {before next stored}, optionDocumentEq before next = true → Related before stored →
      Related next stored)
    {revision : Nat} {commitTime : Timestamp} {documents planned stored : DocumentMap}
    {writes : List Write} {changes : List Change}
    (plans : Plans revision commitTime documents writes planned changes)
    (related : ∀ key : DocumentKey, Related documents[key]? stored[key]?) (key : DocumentKey) :
    Related planned[key]?
      (mutatedDocuments stored (changes.map fun change => ⟨change.key, change.after⟩))[key]? := by
  induction plans generalizing stored with
  | nil documents => exact related key
  | silent applied equal rest ih =>
    apply ih
    intro other
    rw [getElem?_putDocument]
    split_ifs with isKey
    · subst isKey
      exact kept equal (related _)
    · exact related other
  | logged applied differs rest ih =>
    apply ih
    intro other
    rw [getElem?_putDocument, getElem?_putDocument]
    split_ifs
    · exact refl _
    · exact related other

theorem planWrites_of_plans {revision : Nat} {commitTime : Timestamp}
    {documents planned : DocumentMap} {writes : List Write} {changes : List Change}
    (plans : Plans revision commitTime documents writes planned changes) :
    planWrites revision commitTime documents writes = .ok (planned, changes) := by
  induction plans with
  | nil documents => rfl
  | silent applied same rest ih | logged applied same rest ih =>
    rw [planWrites, applyWrite, applied]
    simp only [bind, Except.bind, pure, Except.pure, same, ih]
    rfl

/-! ## Requests -/

theorem mapM_ok_iff {α β ε : Type} {step : α → Except ε β} {related : α → β → Prop}
    {inputs : List α} :
    (∃ outputs, inputs.mapM step = .ok outputs ∧ List.Forall₂ related inputs outputs) ↔
      ∀ input ∈ inputs, ∃ output, step input = .ok output ∧ related input output := by
  induction inputs with
  | nil => exact ⟨nofun, fun _ => ⟨[], rfl, .nil⟩⟩
  | cons input inputs ih =>
    rw [List.forall_mem_cons, ← ih, List.mapM_cons]
    constructor
    · rintro ⟨outputs, computed, each⟩
      obtain ⟨output, first, computed⟩ := bind_eq_ok.mp computed
      obtain ⟨rest, others, ⟨⟩⟩ := bind_eq_ok.mp computed
      obtain _ | ⟨related, each⟩ := each
      exact ⟨⟨output, first, related⟩, rest, others, each⟩
    · rintro ⟨⟨output, first, related⟩, rest, others, each⟩
      rw [first, others]
      exact ⟨_, rfl, .cons related each⟩

theorem forall₂_of_mapM_ok {α β ε : Type} {step : α → Except ε β} {inputs : List α}
    {outputs : List β} (computed : inputs.mapM step = .ok outputs) :
    List.Forall₂ (fun input output => step input = .ok output) inputs outputs := by
  induction inputs generalizing outputs with
  | nil =>
    cases computed
    exact .nil
  | cons input inputs ih =>
    rw [List.mapM_cons] at computed
    obtain ⟨output, first, computed⟩ := bind_eq_ok.mp computed
    obtain ⟨rest, others, ⟨⟩⟩ := bind_eq_ok.mp computed
    exact .cons first (ih others)

theorem exists_mapM_ok_iff {α β ε : Type} {step : α → Except ε β} {inputs : List α} :
    (∃ outputs, inputs.mapM step = .ok outputs) ↔
      ∀ input ∈ inputs, ∃ output, step input = .ok output := by
  constructor
  · rintro ⟨outputs, computed⟩ input member
    obtain ⟨output, first, _⟩ :=
      mapM_ok_iff.mp ⟨outputs, computed, forall₂_of_mapM_ok computed⟩ input member
    exact ⟨output, first⟩
  · intro each
    obtain ⟨outputs, computed, _⟩ := mapM_ok_iff.mpr fun input member =>
      (each input member).imp fun output first => ⟨first, first⟩
    exact ⟨outputs, computed⟩

theorem transformResult_ok_iff {time : Timestamp} :
    (∃ value, transformResult transform document time = .ok value) ↔
      (transform.operation.isNumeric = true → HasField document transform.path) := by
  obtain ⟨path, operation⟩ := transform
  cases operation with
  | serverTimestamp | arrayUnion elements | arrayRemove elements => exact ⟨nofun, fun _ => ⟨_, rfl⟩⟩
  | increment operand | maximum operand | minimum operand =>
    cases found : fieldValue document path with
    | none =>
      have lacks : ¬HasField document path := by simp [HasField, found]
      refine ⟨fun ⟨value, computed⟩ => ?_, fun has => absurd (has rfl) lacks⟩
      rw [fieldValue] at found
      simp only [transformResult, found] at computed
      cases computed
    | some value =>
      refine ⟨fun _ _ => by simp [HasField, found], fun _ => ⟨value, ?_⟩⟩
      rw [fieldValue] at found
      simp only [transformResult, found]
      rfl

theorem writeResults_ok_iff {snapshot : Snapshot} {result : CommitResult}
    {requested : List DecodedWrite} :
    (∃ results, requested.mapM (writeResult snapshot result) = .ok results) ↔
      ∀ decoded ∈ requested, ∀ transform ∈ decoded.transforms,
        transform.operation.isNumeric = true →
          HasField (snapshot.get decoded.key) transform.path := by
  rw [exists_mapM_ok_iff]
  refine forall₂_congr fun decoded _ => ?_
  have transformed : (∃ written, writeResult snapshot result decoded = .ok written) ↔
      ∃ values, decoded.transforms.mapM
        (transformResult · (snapshot.get decoded.key) result.commitTime) = .ok values := by
    constructor
    · rintro ⟨written, computed⟩
      obtain ⟨values, computed, -⟩ := bind_eq_ok.mp computed
      exact ⟨values, computed⟩
    · rintro ⟨values, computed⟩
      exact ⟨_, bind_eq_ok.mpr ⟨values, computed, rfl⟩⟩
  rw [transformed, exists_mapM_ok_iff]
  exact forall₂_congr fun transform _ => transformResult_ok_iff

structure Unchanged (before after : Store) : Prop where
  bookkeeping : after.bookkeeping = before.bookkeeping
  snapshot : after.snapshot = before.snapshot

/-- A request whose commit fails changes nothing.  One whose commit succeeds fails after it, and
has changed the store, exactly if the field of a numeric transform is missing once the writes have
been applied in turn to the stored documents. -/
theorem failed_writes_change_nothing (crc32c : List UInt8 → UInt32) (service : FirestoreService)
    (documents : DocumentMap) (holds : service.store.Holds documents) (clock : ClockReading)
    (requested : List DecodedWrite) :
    let outcome := service.applyWrites crc32c clock requested
    (∀ next error, service.store.commit crc32c clock (requested.map DecodedWrite.write) =
        (next, .error error) → Unchanged service.store outcome.1.store) ∧
    ∀ next result, service.store.commit crc32c clock (requested.map DecodedWrite.write) =
        (next, .ok result) →
      ((∀ error, outcome.2 = .error error → Unchanged service.store outcome.1.store) ↔
        ∀ planned changes, planWrites (service.store.bookkeeping.revision + 1)
            (service.store.bookkeeping.nextCommitTime clock) documents
            (requested.map DecodedWrite.write) = .ok (planned, changes) →
          FieldsKept planned requested) := by
  intro outcome
  refine ⟨fun next error committed => ?_, fun next result committed => ?_⟩
  · simp only [outcome, FirestoreService.applyWrites, committed]
    obtain ⟨bookkeeping, snapshot⟩ := Store.commit_error committed
    exact ⟨bookkeeping, snapshot⟩
  · obtain ⟨isResult, isRevision, _, planned, changes, final, plans, holdsFinal, isFinal⟩ :=
      Store.commit_ok committed holds
    have sameFields : ∀ key : DocumentKey, SameFields planned[key]? final[key]? := by
      rcases isFinal with rfl | rfl
      · exact fun key path => Iff.rfl
      · exact plans.related_mutatedDocuments (fun _ _ => Iff.rfl)
          (fun equal same path => (sameFields_of_eq equal path).symm.trans (same path))
          fun _ _ => Iff.rfl
    have answers : (∃ results, requested.mapM (writeResult next.snapshot result) = .ok results) ↔
        FieldsKept planned requested := by
      simp only [writeResults_ok_iff, Store.get_snapshot holdsFinal, ← (sameFields _ _), FieldsKept]
    -- the commit has raised the revision, so only an answer keeps the claim
    have moved : ¬Unchanged service.store next := fun unchanged => by
      rw [unchanged.bookkeeping, isResult] at isRevision
      exact (Nat.lt_succ_self _).ne isRevision
    have whole := planWrites_of_plans plans
    rw [isResult] at whole
    simp only [outcome, FirestoreService.applyWrites, committed]
    cases computed : requested.mapM (writeResult next.snapshot result) with
    | ok results =>
      have kept := answers.mp ⟨results, computed⟩
      refine ⟨fun _ other more isPlan => ?_, fun _ _ failed => by cases failed⟩
      cases whole.symm.trans isPlan
      exact kept
    | error error =>
      refine ⟨fun unchanged => absurd (unchanged error rfl) moved, fun kept => ?_⟩
      obtain ⟨results, answered⟩ := answers.mpr (kept planned changes whole)
      cases computed.symm.trans answered

namespace Sample

def emptyService : FirestoreService := ⟨.memory (.new options), ∅, 1⟩

def counter : FieldPath := ⟨["n".toList], by decide⟩

def increment (key : DocumentKey) : DecodedWrite :=
  .of (.patch key .empty [] [⟨counter, .increment ⟨.integer 1, rfl⟩⟩] .none)

def deletion (key : DocumentKey) (precondition : Precondition) : DecodedWrite :=
  .of (.delete key precondition)

end Sample

open Sample

/-- The delete of a missing document fails the whole request; two increments of one field do not
fail it. -/
theorem failed_writes_change_nothing_sample :
    Unchanged emptyService.store (emptyService.applyWrites castagnoli clock
        [increment itemA, deletion itemB (.exists true)]).1.store ∧
      ∀ planned changes, planWrites (emptyService.store.bookkeeping.revision + 1)
          (emptyService.store.bookkeeping.nextCommitTime clock) ∅
          ([increment itemA, increment itemA].map DecodedWrite.write) = .ok (planned, changes) →
        FieldsKept planned [increment itemA, increment itemA] :=
  ⟨(failed_writes_change_nothing castagnoli emptyService ∅ rfl clock
      [increment itemA, deletion itemB (.exists true)]).1 _ _ rfl,
    ((failed_writes_change_nothing castagnoli emptyService ∅ rfl clock
      [increment itemA, increment itemA]).2 _ _ rfl).mp fun _ failed => by cases failed⟩

/-- An increment and a delete of the same document: the request fails with an internal
error after the commit. -/
theorem increment_then_delete_fails_after_commit :
    let outcome := emptyService.applyWrites castagnoli clock
      [increment itemA, deletion itemA .none]
    outcome.2 = .error (.internal "transform result field is missing".toList) ∧
      emptyService.store.bookkeeping.revision = 0 ∧
      outcome.1.store.bookkeeping.revision = 1 ∧
      outcome.1.store.bookkeeping.window.changeLog.length = 2 := by
  refine ⟨rfl, ?_, ?_, ?_⟩ <;> decide +kernel

end Firenook
