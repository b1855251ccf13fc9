import Firenook.EvaluationLaws

/-!
# Proofs over query constraints

A list request is judged without its result rows: the filter is expanded into conjunctions, the
scope of the query into a domain of paths, and comparisons of constrained fields are decided by
what the predicates imply.
-/

namespace Firenook.Rules

open List

/-! ## Branches -/

/-- What the atomic predicates say of a document: `in` is equality with a listed value, and
`array-contains-any` is `array-contains` of one. -/
structure Interprets (holds : FieldConstraint → Prop) : Prop where
  isIn : ∀ field values, holds ⟨field, .isIn, .list values⟩ ↔
    ∃ value ∈ values, holds ⟨field, .equal, value⟩
  arrayContainsAny : ∀ field values, holds ⟨field, .arrayContainsAny, .list values⟩ ↔
    ∃ value ∈ values, holds ⟨field, .arrayContains, value⟩

section Meaning

variable (holds : FieldConstraint → Prop)

mutual

def QueryFilter.Holds : QueryFilter → Prop
  | .field constraint => holds constraint
  | .and filters => AllHold filters
  | .or filters => AnyHolds filters

def AllHold : List QueryFilter → Prop
  | [] => True
  | filter :: filters => filter.Holds ∧ AllHold filters

def AnyHolds : List QueryFilter → Prop
  | [] => False
  | filter :: filters => filter.Holds ∨ AnyHolds filters

end

def Meets (branches : List (List FieldConstraint)) : Prop :=
  ∃ branch ∈ branches, ∀ constraint ∈ branch, holds constraint

variable (left right : List (List FieldConstraint))

theorem meets_append : Meets holds (left ++ right) ↔ Meets holds left ∨ Meets holds right := by
  simp [Meets, or_and_right, exists_or]

theorem meets_product :
    Meets holds (left.flatMap fun first => right.map fun second => first ++ second) ↔
      Meets holds left ∧ Meets holds right := by
  simp only [Meets, mem_flatMap, mem_map]
  constructor
  · rintro ⟨_, ⟨first, inLeft, second, inRight, rfl⟩, all⟩
    rw [forall_mem_append] at all
    exact ⟨⟨first, inLeft, all.1⟩, second, inRight, all.2⟩
  · rintro ⟨⟨first, inLeft, firstHolds⟩, second, inRight, secondHolds⟩
    exact ⟨_, ⟨first, inLeft, second, inRight, rfl⟩,
      forall_mem_append.mpr ⟨firstHolds, secondHolds⟩⟩

end Meaning

theorem checkSize_eq_ok {size : Nat} : checkSize size = .ok () ↔ size ≤ maxBranches := by
  rw [checkSize]
  split_ifs with large
  · exact ⟨nofun, fun small => absurd small (by omega)⟩
  · exact ⟨fun _ => by omega, fun _ => rfl⟩

theorem bind_checkBranches {expanded : Outcome (List (List FieldConstraint))}
    {branches : List (List FieldConstraint)} : (expanded >>= checkBranches) = .ok branches ↔
      expanded = .ok branches ∧ branches.length ≤ maxBranches ∧ 0 < branches.length := by
  have checked : ∀ found, checkBranches found = .ok branches ↔
      found = branches ∧ found.length ≤ maxBranches ∧ 0 < found.length := by
    intro found
    rw [checkBranches, bind_eq_ok, Unique.exists_iff, checkSize_eq_ok]
    cases found with
    | nil => simp [failure]
    | cons branch branches => simp [and_comm]
  simp only [bind_eq_ok, checked]
  exact ⟨by rintro ⟨_, isFound, rfl, bounds⟩; exact ⟨isFound, bounds⟩,
    fun ⟨isFound, bounds⟩ => ⟨_, isFound, rfl, bounds⟩⟩

variable {holds : FieldConstraint → Prop} {branches result : List (List FieldConstraint)}

theorem meets_fieldBranches (interprets : Interprets holds) {constraint : FieldConstraint}
    (expanded : fieldBranches constraint = .ok branches) :
    holds constraint ↔ Meets holds branches := by
  obtain ⟨field, operator, value⟩ := constraint
  cases operator with
  | isIn | arrayContainsAny =>
    cases value with
    | list values =>
      simp only [fieldBranches] at expanded
      split_ifs at expanded
      · cases expanded
      · obtain ⟨_, _, isResult⟩ := bind_eq_ok.mp expanded
        cases isResult
        simp [interprets.isIn, interprets.arrayContainsAny, Meets]
    | _ => cases expanded
  | _ =>
    cases expanded
    simp [Meets]

mutual

theorem meets_filterBranches (interprets : Interprets holds) :
    ∀ (filter : QueryFilter) {branches}, filterBranches filter = .ok branches →
      (filter.Holds holds ↔ Meets holds branches)
  | .field constraint, branches, expanded => by
    obtain ⟨expanded, -⟩ := bind_checkBranches.mp expanded
    exact meets_fieldBranches interprets expanded
  | .or filters, branches, expanded => by
    obtain ⟨expanded, -⟩ := bind_checkBranches.mp expanded
    rw [meets_orBranches interprets filters expanded, QueryFilter.Holds]
    simp [Meets]
  | .and filters, branches, expanded => by
    obtain ⟨expanded, -⟩ := bind_checkBranches.mp expanded
    rw [meets_andBranches interprets filters expanded, QueryFilter.Holds]
    simp [Meets]

theorem meets_orBranches (interprets : Interprets holds) :
    ∀ (filters : List QueryFilter) {result branches}, orBranches result filters = .ok branches →
      (Meets holds branches ↔ Meets holds result ∨ AnyHolds holds filters)
  | [], result, branches, expanded => by
    cases expanded
    simp [AnyHolds]
  | filter :: filters, result, branches, expanded => by
    obtain ⟨found, inner, expanded⟩ := bind_eq_ok.mp expanded
    obtain ⟨_, _, expanded⟩ := bind_eq_ok.mp expanded
    rw [meets_orBranches interprets filters expanded, meets_append,
      ← meets_filterBranches interprets filter inner, AnyHolds, or_assoc]

theorem meets_andBranches (interprets : Interprets holds) :
    ∀ (filters : List QueryFilter) {result branches}, andBranches result filters = .ok branches →
      (Meets holds branches ↔ Meets holds result ∧ AllHold holds filters)
  | [], result, branches, expanded => by
    cases expanded
    simp [AllHold]
  | filter :: filters, result, branches, expanded => by
    obtain ⟨found, inner, expanded⟩ := bind_eq_ok.mp expanded
    obtain ⟨_, _, expanded⟩ := bind_eq_ok.mp expanded
    rw [meets_andBranches interprets filters expanded, meets_product,
      ← meets_filterBranches interprets filter inner, AllHold, and_assoc]

end

mutual

def QueryFilter.width : QueryFilter → Nat
  | .field ⟨_, .isIn, .list values⟩ | .field ⟨_, .arrayContainsAny, .list values⟩ => values.length
  | .field _ => 1
  | .or filters => orWidth 0 filters
  | .and filters => andWidth 1 filters

def orWidth (before : Nat) : List QueryFilter → Nat
  | [] => before
  | filter :: filters => orWidth (before + filter.width) filters

def andWidth (before : Nat) : List QueryFilter → Nat
  | [] => before
  | filter :: filters => andWidth (before * filter.width) filters

end

mutual

/-- Alternatives and disjunctions are not empty, and no expansion of the first members of a list
exceeds the bound. -/
def QueryFilter.Expands : QueryFilter → Prop
  | .field ⟨_, .isIn, value⟩ | .field ⟨_, .arrayContainsAny, value⟩ =>
    ∃ values, value = .list values ∧ values ≠ [] ∧ values.length ≤ maxBranches
  | .field _ => True
  | .or filters => filters ≠ [] ∧ OrExpands 0 filters
  | .and filters => AndExpands 1 filters

def OrExpands (before : Nat) : List QueryFilter → Prop
  | [] => True
  | filter :: filters => filter.Expands ∧ before + filter.width ≤ maxBranches ∧
    OrExpands (before + filter.width) filters

def AndExpands (before : Nat) : List QueryFilter → Prop
  | [] => True
  | filter :: filters => filter.Expands ∧ before * filter.width ≤ maxBranches ∧
    AndExpands (before * filter.width) filters

end

theorem exists_fieldBranches {constraint : FieldConstraint}
    (expands : (QueryFilter.field constraint).Expands) :
    ∃ branches, fieldBranches constraint = .ok branches ∧
      branches.length = (QueryFilter.field constraint).width ∧ 0 < branches.length ∧
      branches.length ≤ maxBranches := by
  obtain ⟨field, operator, value⟩ := constraint
  cases operator with
  | isIn | arrayContainsAny =>
    obtain ⟨values, rfl, nonempty, small⟩ := expands
    refine ⟨?_, ?_, ?_⟩
    rotate_left
    · simp only [fieldBranches, List.isEmpty_iff, if_neg nonempty, checkSize_eq_ok.mpr small]
      rfl
    · simpa [QueryFilter.width, List.length_pos_iff, nonempty] using small
  | _ => exact ⟨_, rfl, rfl, Nat.one_pos, by simp [maxBranches]⟩

mutual

theorem exists_filterBranches : ∀ filter : QueryFilter, filter.Expands →
    ∃ branches, filterBranches filter = .ok branches ∧ branches.length = filter.width ∧
      0 < branches.length
  | .field constraint, expands => by
    obtain ⟨branches, expanded, width, positive, small⟩ := exists_fieldBranches expands
    exact ⟨branches, bind_checkBranches.mpr ⟨expanded, small, positive⟩, width, positive⟩
  | .or [], expands => absurd rfl expands.1
  | .or (filter :: filters), expands => by
    obtain ⟨branches, expanded, width, grown, small⟩ :=
      @exists_orBranches (filter :: filters) [] expands.2 (Nat.zero_le _)
    have positive : 0 < branches.length := (Nat.succ_pos _).trans_le grown
    exact ⟨branches, bind_checkBranches.mpr ⟨expanded, small, positive⟩, width, positive⟩
  | .and filters, expands => by
    obtain ⟨branches, expanded, width, positive, small⟩ :=
      @exists_andBranches filters [[]] expands (by decide) (by decide)
    exact ⟨branches, bind_checkBranches.mpr ⟨expanded, small, positive⟩, width, positive⟩

theorem exists_orBranches : ∀ (filters : List QueryFilter) {result : List (List FieldConstraint)},
    OrExpands result.length filters → result.length ≤ maxBranches →
    ∃ branches, orBranches result filters = .ok branches ∧
      branches.length = orWidth result.length filters ∧
      result.length + filters.length ≤ branches.length ∧ branches.length ≤ maxBranches
  | [], result, _, small => ⟨result, rfl, rfl, le_rfl, small⟩
  | filter :: filters, result, ⟨expands, fits, rest⟩, _ => by
    obtain ⟨found, expanded, width, positive⟩ := exists_filterBranches filter expands
    rw [← width, ← length_append] at fits rest
    obtain ⟨branches, continued, total, grown, small⟩ := exists_orBranches filters rest fits
    refine ⟨branches, ?_, ?_, ?_, small⟩
    · refine bind_eq_ok.mpr ⟨_, expanded, bind_eq_ok.mpr ⟨(), ?_, continued⟩⟩
      exact checkSize_eq_ok.mpr fits
    · rw [total, orWidth, length_append, width]
    · simp only [length_append, length_cons] at grown ⊢
      omega

theorem exists_andBranches : ∀ (filters : List QueryFilter) {result : List (List FieldConstraint)},
    AndExpands result.length filters → result.length ≤ maxBranches → 0 < result.length →
    ∃ branches, andBranches result filters = .ok branches ∧
      branches.length = andWidth result.length filters ∧
      0 < branches.length ∧ branches.length ≤ maxBranches
  | [], result, _, small, positive => ⟨result, rfl, rfl, positive, small⟩
  | filter :: filters, result, ⟨expands, fits, rest⟩, _, before => by
    obtain ⟨found, expanded, width, positive⟩ := exists_filterBranches filter expands
    have product : (result.flatMap fun left => found.map fun right => left ++ right).length =
        result.length * found.length := by
      simp
    rw [← width] at fits rest
    rw [← product] at rest
    obtain ⟨branches, continued, total, bounds⟩ := exists_andBranches filters rest
      (product.trans_le fits) (product ▸ Nat.mul_pos before positive)
    refine ⟨branches, ?_, ?_, bounds⟩
    · refine bind_eq_ok.mpr ⟨_, expanded, bind_eq_ok.mpr ⟨(), ?_, continued⟩⟩
      exact checkSize_eq_ok.mpr fits
    · rw [total, andWidth, product, width]

end

def FilterHolds (holds : FieldConstraint → Prop) (filter : Option QueryFilter) : Prop :=
  ∀ given, filter = some given → given.Holds holds

theorem branches_are_normal_form (filter : Option QueryFilter) :
    (∀ branches, queryBranches filter = .ok branches →
      (1 ≤ branches.length ∧ branches.length ≤ 30) ∧
        ∀ holds, Interprets holds →
          (FilterHolds holds filter ↔
            ∃ branch ∈ branches, ∀ constraint ∈ branch, holds constraint)) ∧
      ((∀ given, filter = some given → given.Expands) →
        ∃ branches, queryBranches filter = .ok branches) := by
  cases filter with
  | none => exact ⟨by rintro _ ⟨⟩; simp [FilterHolds], fun _ => ⟨_, rfl⟩⟩
  | some filter =>
    refine ⟨fun branches expanded => ⟨?_, fun holds interprets => ?_⟩, fun expands => ?_⟩
    · cases filter <;> exact (bind_checkBranches.mp expanded).2.symm
    · simp only [FilterHolds, Option.some.injEq, forall_eq']
      exact meets_filterBranches interprets filter expanded
    · obtain ⟨branches, expanded, _⟩ := exists_filterBranches filter (expands filter rfl)
      exact ⟨branches, expanded⟩

theorem branches_are_normal_form_sample :
    ∃ branches, queryBranches (some (.and [.field ⟨["a".toList], .equal, .bool true⟩,
      .field ⟨["b".toList], .isIn, .list [.bool true, .bool false]⟩])) = .ok branches ∧
      branches.length ≤ 30 := by
  have normal := branches_are_normal_form (some (.and [.field ⟨["a".toList], .equal, .bool true⟩,
    .field ⟨["b".toList], .isIn, .list [.bool true, .bool false]⟩]))
  obtain ⟨branches, expanded⟩ := normal.2 (by
    rintro _ ⟨⟩
    exact ⟨trivial, by decide, ⟨_, rfl, by simp, by decide⟩, by decide, trivial⟩)
  exact ⟨branches, expanded, (normal.1 branches expanded).1.2⟩

end Firenook.Rules
