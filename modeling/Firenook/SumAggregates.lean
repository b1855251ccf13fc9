import Firenook.QueryEngine
import Firenook.StoreHistory

/-!
# Sums of integers

The integer accumulator of a sum is exact until a partial sum leaves the range of a 64-bit
integer; from there on the sum is a double, also when the total would fit again.
-/

namespace Firenook
namespace QueryEngine

open List

def Fits (number : Int) : Prop := -2 ^ 63 ≤ number ∧ number < 2 ^ 63

def integerOf : Value → Option Int64
  | .integer value => some value
  | _ => none

variable (documents : List QueryDocument) (field : FieldPath)

def terms : List Int :=
  documents.filterMap fun document =>
    ((projectedValue document field).bind integerOf).map Int64.toInt

def PartialSumsFit (numbers : List Int) : Prop := ∀ front, front <+: numbers → Fits front.sum

def IntegersOnly : Prop :=
  ∀ document ∈ documents, ∀ number, projectedValue document field ≠ some (.double number)

theorem toInt_ofInt {number : Int} (fits : Fits number) : (Int64.ofInt number).toInt = number := by
  obtain ⟨low, high⟩ := fits
  exact Int64.toInt_ofInt_of_le low high

theorem fits_toInt (number : Int64) : Fits number.toInt := ⟨number.le_toInt, number.toInt_lt⟩

theorem checkedAdd_of_fits {left right : Int64} (fits : Fits (left.toInt + right.toInt)) :
    Int64.checkedAdd left right = some (Int64.ofInt (left.toInt + right.toInt)) := by
  rw [Int64.checkedAdd, if_pos (toInt_ofInt fits)]

theorem checkedAdd_of_not_fits {left right : Int64}
    (overflows : ¬ Fits (left.toInt + right.toInt)) :
    Int64.checkedAdd left right = none := by
  rw [Int64.checkedAdd, if_neg]
  intro same
  exact overflows (same ▸ fits_toInt _)

def sumLoop (state : SumState) : SumState :=
  documents.foldl (fun state document => sumValue state (projectedValue document field)) state

variable {state : SumState}

theorem hasDouble_sumValue (isDouble : state.hasDouble = true)
    (value : Option Value) : (sumValue state value).hasDouble = true := by
  cases value with
  | none => exact isDouble
  | some value => cases value <;> simp [sumValue, isDouble]

theorem sumValue_of_fits {value : Int64} (isInteger : state.hasDouble = false)
    (fits : Fits (state.integerSum.toInt + value.toInt)) :
    sumValue state (some (.integer value)) =
      { state with integerSum := Int64.ofInt (state.integerSum.toInt + value.toInt) } := by
  simp [sumValue, isInteger, checkedAdd_of_fits fits]

theorem hasDouble_of_not_fits {value : Int64}
    (overflows : ¬ Fits (state.integerSum.toInt + value.toInt)) :
    (sumValue state (some (.integer value))).hasDouble = true := by
  cases isDouble : state.hasDouble <;> simp [sumValue, isDouble, checkedAdd_of_not_fits overflows]

theorem hasDouble_sumLoop
    (isDouble : state.hasDouble = true) : (sumLoop documents field state).hasDouble = true := by
  induction documents generalizing state with
  | nil => exact isDouble
  | cons document documents ih => exact ih (hasDouble_sumValue isDouble _)

theorem partialSumsFit_cons {number : Int} {numbers : List Int} {start : Int} :
    (∀ front, front <+: number :: numbers → Fits (start + front.sum)) ↔
      Fits start ∧ ∀ front, front <+: numbers → Fits (start + number + front.sum) := by
  constructor
  · intro fit
    refine ⟨by simpa using fit [] nil_prefix, fun front isFront => ?_⟩
    have whole := fit (number :: front) ((prefix_cons_inj number).mpr isFront)
    rwa [sum_cons, ← add_assoc] at whole
  · rintro ⟨startFits, fit⟩ front isFront
    cases front with
    | nil => simpa using startFits
    | cons first front =>
      obtain ⟨rfl, isRest⟩ := cons_prefix_cons.mp isFront
      rw [sum_cons, ← add_assoc]
      exact fit front isRest

theorem sumLoop_cons (document : QueryDocument) (documents : List QueryDocument)
    (field : FieldPath) (state : SumState) :
    sumLoop (document :: documents) field state =
      sumLoop documents field (sumValue state (projectedValue document field)) :=
  rfl

theorem sumLoop_integers {documents : List QueryDocument} {field : FieldPath}
    (integers : IntegersOnly documents field) (state : SumState)
    (isInteger : state.hasDouble = false) :
    ((∀ front, front <+: terms documents field → Fits (state.integerSum.toInt + front.sum)) →
      (sumLoop documents field state).hasDouble = false ∧
      (sumLoop documents field state).integerSum.toInt =
        state.integerSum.toInt + (terms documents field).sum) ∧
    (¬ (∀ front, front <+: terms documents field → Fits (state.integerSum.toInt + front.sum)) →
      (sumLoop documents field state).hasDouble = true) := by
  induction documents generalizing state with
  | nil =>
    refine ⟨fun _ => ⟨isInteger, by simp [terms, sumLoop]⟩, fun overflows => ?_⟩
    refine absurd (fun front isFront => ?_) overflows
    rw [prefix_nil.mp isFront, sum_nil, add_zero]
    exact fits_toInt _
  | cons document documents ih =>
    rw [IntegersOnly, forall_mem_cons] at integers
    have rest := ih integers.2
    rw [sumLoop_cons]
    cases isTerm : (projectedValue document field).bind integerOf with
    | none =>
      -- neither an integer nor a double: the value is ignored
      have ignored : sumValue state (projectedValue document field) = state := by
        cases found : projectedValue document field with
        | none => rfl
        | some value =>
          rw [found] at isTerm
          cases value with
          | double number => exact absurd found (integers.1 number)
          | integer value => cases isTerm
          | _ => rfl
      have sameTerms : terms (document :: documents) field = terms documents field := by
        rw [terms, filterMap_cons, isTerm]
        rfl
      rw [ignored, sameTerms]
      exact rest state isInteger
    | some value =>
      have found : projectedValue document field = some (.integer value) := by
        obtain ⟨stored, isStored, isValue⟩ := Option.bind_eq_some_iff.mp isTerm
        cases stored <;> cases isValue
        exact isStored
      have moreTerms : terms (document :: documents) field =
          value.toInt :: terms documents field := by
        rw [terms, filterMap_cons, isTerm]
        rfl
      rw [found, moreTerms, partialSumsFit_cons]
      by_cases fits : Fits (state.integerSum.toInt + value.toInt)
      · rw [sumValue_of_fits isInteger fits]
        have next := rest { state with
          integerSum := Int64.ofInt (state.integerSum.toInt + value.toInt) } isInteger
        simp only [toInt_ofInt fits] at next
        simpa only [fits_toInt, true_and, sum_cons, ← add_assoc] using next
      · refine ⟨fun fit => absurd ?_ fits,
          fun _ => hasDouble_sumLoop _ _ (hasDouble_of_not_fits fits)⟩
        simpa using fit.2 [] nil_prefix

theorem sum_eq :
    sum documents field =
      if (sumLoop documents field {}).hasDouble then
        doubleValue (sumLoop documents field {}).doubleSum
      else ⟨.integer (sumLoop documents field {}).integerSum, rfl⟩ :=
  rfl

theorem sum_of_fit {documents : List QueryDocument} {field : FieldPath}
    (integers : IntegersOnly documents field) (fit : PartialSumsFit (terms documents field)) :
    sum documents field = ⟨.integer (Int64.ofInt (terms documents field).sum), rfl⟩ := by
  obtain ⟨isInteger, isSum⟩ := (sumLoop_integers integers {} rfl).1 (by simpa [PartialSumsFit] using fit)
  have total : (sumLoop documents field {}).integerSum =
      Int64.ofInt (terms documents field).sum := by
    rw [← Int64.ofInt_toInt (sumLoop documents field {}).integerSum, isSum]
    simp
  rw [sum_eq, isInteger, total]
  rfl

theorem sum_of_not_fit {documents : List QueryDocument} {field : FieldPath}
    (integers : IntegersOnly documents field)
    (overflows : ¬ PartialSumsFit (terms documents field)) :
    ∃ number, sum documents field = doubleValue number := by
  have isDouble := (sumLoop_integers integers {} rfl).2 (by simpa [PartialSumsFit] using overflows)
  exact ⟨_, by rw [sum_eq, if_pos isDouble]⟩

theorem sum_eq_total_iff {documents : List QueryDocument} {field : FieldPath}
    (integers : IntegersOnly documents field) :
    sum documents field = ⟨.integer (Int64.ofInt (terms documents field).sum), rfl⟩ ↔
      PartialSumsFit (terms documents field) := by
  refine ⟨fun exact => ?_, sum_of_fit integers⟩
  by_contra overflows
  obtain ⟨number, isDouble⟩ := sum_of_not_fit integers overflows
  cases congrArg Subtype.val (exact.symm.trans isDouble)

/-- Sums of integers whose total fits: two orders give the exact total exactly if every partial sum
fits in both.  A total that does not fit comes as a double in every order. -/
theorem integer_sums_are_exact (documents permuted : List QueryDocument) (field : FieldPath)
    (perm : permuted.Perm documents) (integers : IntegersOnly documents field) :
    (Fits (terms documents field).sum →
      (sum documents field = ⟨.integer (Int64.ofInt (terms documents field).sum), rfl⟩ ∧
          sum permuted field = sum documents field ↔
        PartialSumsFit (terms documents field) ∧ PartialSumsFit (terms permuted field))) ∧
    (¬ Fits (terms documents field).sum →
      ∃ first second, sum documents field = doubleValue first ∧
        sum permuted field = doubleValue second) := by
  have permutedIntegers : IntegersOnly permuted field := fun document member =>
    integers document (perm.mem_iff.mp member)
  have sameTotal : (terms permuted field).sum = (terms documents field).sum :=
    (perm.filterMap _).sum_eq
  refine ⟨fun _ => ?_, fun overflows => ?_⟩
  · rw [← sum_eq_total_iff integers, ← sum_eq_total_iff permutedIntegers, sameTotal]
    exact and_congr_right fun exact => by rw [exact]
  · obtain ⟨first, isFirst⟩ := sum_of_not_fit integers fun fit => overflows (fit _ prefix_rfl)
    obtain ⟨second, isSecond⟩ := sum_of_not_fit permutedIntegers fun fit =>
      overflows (sameTotal ▸ fit _ prefix_rfl)
    exact ⟨first, second, isFirst, isSecond⟩

end QueryEngine

/-! ## Orders that overflow -/

namespace Sample

open QueryEngine

def sumField : QueryEngine.FieldPath := .field ["value".toList]

def integerDocument (value : Int64) : QueryDocument :=
  ⟨itemA, ⟨⟨[("value".toList, .integer value)], by simp [Value.ordered, Value.entriesOrdered,
    OrderedEntries.Ascending]⟩, .epoch, .epoch⟩, none⟩

def downThenUp : List QueryDocument := [2 ^ 63 - 1, -1, 1].map integerDocument

def downFirst : List QueryDocument := [-1, 2 ^ 63 - 1, 1].map integerDocument

def upThenDown : List QueryDocument := [2 ^ 63 - 1, 1, -1].map integerDocument

end Sample

namespace QueryEngine

open Sample

theorem integer_sums_are_exact_sample :
    sum downThenUp sumField = ⟨.integer (Int64.ofInt (terms downThenUp sumField).sum), rfl⟩ ∧
      sum downFirst sumField = sum downThenUp sumField := by
  have integers : IntegersOnly downThenUp sumField := by
    intro document member number isDouble
    obtain ⟨value, _, rfl⟩ := List.mem_map.mp member
    have found : projectedValue (integerDocument value) sumField = some (.integer value) := rfl
    cases found.symm.trans isDouble
  have fit : ∀ front ∈ (terms downThenUp sumField).inits ++ (terms downFirst sumField).inits,
      -2 ^ 63 ≤ front.sum ∧ front.sum < 2 ^ 63 := by
    decide +kernel
  rw [List.forall_mem_append] at fit
  have fits : PartialSumsFit (terms downThenUp sumField) := fun front isFront =>
    fit.1 front ((List.mem_inits ..).mpr isFront)
  exact ((integer_sums_are_exact downThenUp downFirst sumField
    ((List.Perm.swap _ _ _).map integerDocument) integers).1 (fits _ List.prefix_rfl)).mpr
    ⟨fits, fun front isFront => fit.2 front ((List.mem_inits ..).mpr isFront)⟩

/-- The same integers in two orders: an exact sum and a double. -/
theorem sum_depends_on_order :
    upThenDown.Perm downThenUp ∧ terms downThenUp sumField = [2 ^ 63 - 1, -1, 1] ∧
      sum downThenUp sumField = ⟨.integer (2 ^ 63 - 1), rfl⟩ ∧
      ∃ number, sum upThenDown sumField = doubleValue number := by
  refine ⟨?_, by decide +kernel, ?_, ?_⟩
  · exact (List.Perm.cons _ (.swap _ _ _)).map integerDocument
  · have isInteger : (sumLoop downThenUp sumField {}).hasDouble = false := by decide +kernel
    have total : (sumLoop downThenUp sumField {}).integerSum = 2 ^ 63 - 1 := by decide +kernel
    simp only [sum_eq, isInteger, total]
    rfl
  · have isDouble : (sumLoop upThenDown sumField {}).hasDouble = true := by decide +kernel
    exact ⟨_, by rw [sum_eq, if_pos isDouble]⟩

end QueryEngine
end Firenook
