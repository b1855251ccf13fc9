import Firenook.WritePlans
import Firenook.WriteResults

/-!
# What a result says about its write

The results of a request are computed from the snapshot after the whole commit.  They describe
the documents as they were right after each write exactly if the later writes of the request, and
the later transforms of the write, leave what the result reports.
-/

namespace Firenook

open List

/-! ## Reports -/

variable {transform : FieldTransform} {after final : Option Document} {time : Timestamp}

/-- What a transform should report of the document right after its write. -/
def expectedResult (after : Option Document) (transform : FieldTransform) : Option Value :=
  match transform.operation with
  | .arrayUnion _ => some .null
  | .arrayRemove _ => some .null
  | _ => fieldValue after transform.path

/-- The result tells the update time of the document and the value of each transformed field
right after the write. -/
structure DescribesWrite (after : Option Document) (decoded : DecodedWrite)
    (result : WriteResult) : Prop where
  updateTime : result.updateTime = after.map Document.updateTime
  transformResults : List.Forall₂
    (fun transform value => expectedResult after transform = some value)
    decoded.transforms result.transformResults

/-- A field that a server timestamp has set is not set again by the same write, and one that a
numeric transform has set still has its value in the end. -/
def FieldStays (time : Timestamp) (after final : Option Document) (transform : FieldTransform) :
    Prop :=
  match transform.operation with
  | .arrayUnion _ => True
  | .arrayRemove _ => True
  | .serverTimestamp => fieldValue after transform.path = some (.timestamp time)
  | _ => HasField after transform.path ∧
    fieldValue final transform.path = fieldValue after transform.path

/-- What the result of a write reports is the same right after the write and in the end. -/
structure Stays (time : Timestamp) (after final : Option Document) (decoded : DecodedWrite) :
    Prop where
  updateTime : final.map Document.updateTime = after.map Document.updateTime
  fields : ∀ transform ∈ decoded.transforms, FieldStays time after final transform

/-! ## Computed results -/

theorem fieldStays_iff : (∃ value, transformResult transform final time = .ok value ∧
    expectedResult after transform = some value) ↔ FieldStays time after final transform := by
  obtain ⟨path, operation⟩ := transform
  cases operation with
  | serverTimestamp =>
    refine ⟨fun ⟨value, computed, expected⟩ => ?_, fun stays => ⟨_, rfl, stays⟩⟩
    cases computed
    exact expected
  | arrayUnion elements | arrayRemove elements => exact ⟨fun _ => trivial, fun _ => ⟨_, rfl, rfl⟩⟩
  | increment operand | maximum operand | minimum operand =>
    constructor
    · rintro ⟨value, computed, expected⟩
      have isAfter : fieldValue after path = some value := expected
      simp only [transformResult] at computed
      split at computed <;> cases computed
      next found => exact ⟨by simp [HasField, isAfter], found.trans isAfter.symm⟩
    · rintro ⟨has, same⟩
      obtain ⟨value, found⟩ := Option.isSome_iff_exists.mp has
      have stored : fieldValue final path = some value := same.trans found
      refine ⟨value, ?_, found⟩
      rw [fieldValue] at stored
      simp only [transformResult, stored]
      rfl

theorem stays_iff {snapshot : Snapshot} {commit : CommitResult} {decoded : DecodedWrite} :
    (∃ written, writeResult snapshot commit decoded = .ok written ∧
      DescribesWrite after decoded written) ↔
      Stays commit.commitTime after (snapshot.get decoded.key) decoded := by
  have fields := @mapM_ok_iff _ _ _
    (transformResult · (snapshot.get decoded.key) commit.commitTime)
    (fun transform value => expectedResult after transform = some value) decoded.transforms
  simp only [fieldStays_iff] at fields
  constructor
  · rintro ⟨written, computed, describes⟩
    obtain ⟨values, transformed, ⟨⟩⟩ := bind_eq_ok.mp computed
    exact ⟨describes.updateTime, fields.mp ⟨values, transformed, describes.transformResults⟩⟩
  · rintro ⟨updateTime, stays⟩
    obtain ⟨values, transformed, expected⟩ := fields.mpr stays
    exact ⟨_, bind_eq_ok.mpr ⟨values, transformed, rfl⟩, updateTime, expected⟩

/-! ## Commits -/

section

variable {revision : Nat} {time : Timestamp} {documents planned : DocumentMap}
  {writes : List Write} {changes : List Change}

/-- No write turns a document into a different one that compares equal to it, such as a zero of
the other sign at the same time. -/
def TellsApart (time : Timestamp) : DocumentMap → List Write → Prop :=
  AlongWrites time fun documents key next =>
    optionDocumentEq documents[key]? next = true → next = documents[key]?

theorem tellsApart_of_unstamped (distinct : (writes.map writeKey).Nodup)
    (unstamped : ∀ key ∈ writes.map writeKey, ∀ document, documents[key]? = some document →
      document.updateTime ≠ time) :
    TellsApart time documents writes := by
  induction writes generalizing documents with
  | nil => trivial
  | cons write writes ih =>
    rw [map_cons, nodup_cons] at distinct
    rw [map_cons, forall_mem_cons] at unstamped
    rw [TellsApart, AlongWrites]
    cases applied : nextDocument documents[writeKey write]? time write with
    | error error => trivial
    | ok next =>
      refine ⟨?_, ih distinct.2 ?_⟩
      · exact fun same => nextDocument_of_silent applied same unstamped.1
      · intro key member document stored
        have other : writeKey write ≠ key := fun same => distinct.1 (same ▸ member)
        rw [getElem?_putDocument, if_neg other] at stored
        exact unstamped.2 key member document stored

theorem exists_planWrites_take {final : DocumentMap × List Change}
    (planned : planWrites revision time documents writes = .ok final) (index : Nat) :
    ∃ after early, planWrites revision time documents (writes.take index) = .ok (after, early) := by
  rw [← take_append_drop index writes, planWrites_append] at planned
  obtain ⟨⟨after, early⟩, first, -⟩ := bind_eq_ok.mp planned
  exact ⟨after, early, first⟩

end

theorem forall₂_getElem? {α β : Type} {related : α → β → Prop} {lefts : List α}
    {rights : List β} (alike : List.Forall₂ related lefts rights) {index : Nat} {left : α}
    {right : β} (atLeft : lefts[index]? = some left) (atRight : rights[index]? = some right) :
    related left right := by
  induction alike generalizing index with
  | nil => cases atLeft
  | cons first rest ih =>
    cases index with
    | zero =>
      cases atLeft
      cases atRight
      exact first
    | succ index => exact ih atLeft atRight

/-- Once the writes are committed, the request answers with one result for each write that
describes the document right after that write, exactly if for each write what its result reports
is the same right after it and after the last write.  A disk store is asked to tell all changes
apart. -/
theorem write_results_describe_writes (crc32c : List UInt8 → UInt32) (service : FirestoreService)
    (documents : DocumentMap) (holds : service.store.Holds documents) (clock : ClockReading)
    (requested : List DecodedWrite) (next : Store) (result : CommitResult)
    (committed : service.store.commit crc32c clock (requested.map DecodedWrite.write) =
      (next, .ok result))
    (apart : TellsApart result.commitTime documents (requested.map DecodedWrite.write)) :
    (∃ response, (service.applyWrites crc32c clock requested).2 = .ok response ∧
      response.writeResults.length = requested.length ∧
      ∀ (index : Nat) (decoded : DecodedWrite) (written : WriteResult),
        requested[index]? = some decoded → response.writeResults[index]? = some written →
        ∃ after changes, planWrites result.revision result.commitTime documents
            ((requested.map DecodedWrite.write).take (index + 1)) = .ok (after, changes) ∧
          DescribesWrite after[decoded.key]? decoded written) ↔
    ∀ (index : Nat) (decoded : DecodedWrite) (after final : DocumentMap × List Change),
      requested[index]? = some decoded →
      planWrites result.revision result.commitTime documents
        ((requested.map DecodedWrite.write).take (index + 1)) = .ok after →
      planWrites result.revision result.commitTime documents
        (requested.map DecodedWrite.write) = .ok final →
      Stays result.commitTime after.1[decoded.key]? final.1[decoded.key]? decoded := by
  obtain ⟨_, _, _, planned, changes, final, plans, holdsFinal, isFinal⟩ :=
    Store.commit_ok committed holds
  have isPlanned : final = planned := by
    rcases isFinal with same | mutated
    · exact same
    · rw [mutated, plans.mutatedDocuments_eq apart]
  subst isPlanned
  have whole := planWrites_of_plans plans
  have stored : ∀ key : DocumentKey, next.snapshot.get key = final[key]? :=
    Store.get_snapshot holdsFinal
  simp only [FirestoreService.applyWrites, committed]
  constructor
  · rintro ⟨response, answers, length, describes⟩ index decoded after last atIndex early isLast
    cases whole.symm.trans isLast
    obtain ⟨results, computed, ⟨⟩⟩ := bind_eq_ok.mp answers
    obtain ⟨within, -⟩ := List.getElem?_eq_some_iff.mp atIndex
    rw [← length] at within
    have atResult : results[index]? = some results[index] := getElem?_eq_getElem _
    obtain ⟨_, _, isAfter, described⟩ := describes index decoded _ atIndex atResult
    cases early.symm.trans isAfter
    rw [← stored]
    exact stays_iff.mp
      ⟨_, forall₂_getElem? (forall₂_of_mapM_ok computed) atIndex atResult, described⟩
  · intro stays
    have each : ∀ index decoded, requested[index]? = some decoded →
        ∃ after early, planWrites result.revision result.commitTime documents
            ((requested.map DecodedWrite.write).take (index + 1)) = .ok (after, early) ∧
          ∃ written, writeResult next.snapshot result decoded = .ok written ∧
            DescribesWrite after[decoded.key]? decoded written := by
      intro index decoded atIndex
      obtain ⟨after, early, isAfter⟩ := exists_planWrites_take whole (index + 1)
      refine ⟨after, early, isAfter, stays_iff.mpr ?_⟩
      rw [stored]
      exact stays index decoded _ _ atIndex isAfter whole
    obtain ⟨results, computed⟩ := exists_mapM_ok_iff.mpr fun decoded member => by
      obtain ⟨index, atIndex⟩ := getElem?_of_mem member
      obtain ⟨_, _, _, written, isWritten, _⟩ := each index decoded atIndex
      exact ⟨written, isWritten⟩
    have answered := forall₂_of_mapM_ok computed
    refine ⟨⟨results, result.commitTime⟩, bind_eq_ok.mpr ⟨results, computed, rfl⟩,
      answered.length_eq.symm, fun index decoded written atIndex atResult => ?_⟩
    obtain ⟨after, early, isAfter, other, isOther, described⟩ := each index decoded atIndex
    cases (forall₂_getElem? answered atIndex atResult).symm.trans isOther
    exact ⟨after, early, isAfter, described⟩

open Sample

def Sample.setAndCount : List DecodedWrite :=
  [.of (.set itemA .empty [] .none), increment itemA]

/-- A document is set, and then a field of it is incremented. -/
theorem write_results_describe_writes_sample :
    ∃ response, (emptyService.applyWrites castagnoli clock setAndCount).2 = .ok response ∧
      response.writeResults.length = 2 := by
  have apart : TellsApart (emptyService.store.bookkeeping.nextCommitTime clock) ∅
      (setAndCount.map DecodedWrite.write) := by
    have differ : ∀ {document next : Option Document}, optionDocumentEq document next = false →
        optionDocumentEq document next = true → next = document := by
      intro document next different same
      cases different.symm.trans same
    exact ⟨differ (by decide +kernel), differ (by decide +kernel), trivial⟩
  have described := write_results_describe_writes castagnoli emptyService ∅ rfl clock setAndCount
    _ _ rfl apart
  obtain ⟨response, answers, length, _⟩ := described.mpr
    fun index decoded after final atIndex early whole => by
      match index, atIndex with
      | 0, atIndex =>
        cases atIndex
        cases early
        cases whole
        exact ⟨rfl, fun _ none => by cases none⟩
      | 1, atIndex =>
        cases atIndex
        cases early.symm.trans whole
        refine ⟨rfl, fun transform member => ?_⟩
        cases List.mem_singleton.mp member
        cases whole
        exact ⟨rfl, rfl⟩
      | index + 2, atIndex => cases atIndex
  exact ⟨response, answers, length⟩

def Sample.integer? : Value → Option Int
  | .integer value => some value.toInt
  | _ => none

variable (requested : List DecodedWrite)

def Sample.reported : Option (List (List (Option Int))) :=
  (emptyService.applyWrites castagnoli clock requested).2.toOption.map fun response =>
    response.writeResults.map fun result => result.transformResults.map integer?

def Sample.counted (count : Nat) : Option (Option Int) :=
  (planWrites 1 (emptyService.store.bookkeeping.nextCommitTime clock) ∅
    ((requested.map DecodedWrite.write).take count)).toOption.map fun plan =>
      plan.1[itemA]?.bind fun document =>
        (nestedValue document.fields counter.segments).bind integer?

/-- Two increments of one field in one request: the counter is one after the first of them,
and both results report two. -/
theorem increments_report_last_value :
    let requested := [increment itemA, increment itemA]
    counted requested 1 = some (some 1) ∧ counted requested 2 = some (some 2) ∧
      reported requested = some [[some 2], [some 2]] := by
  decide +kernel

end Firenook
