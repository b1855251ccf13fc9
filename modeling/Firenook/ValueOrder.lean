import Firenook.ExactDoubles
import Firenook.QueryEngine

/-!
# The query order

Values are ordered by their type first.  Integers and doubles are one type, ordered as exact
numbers; strings and bytes are ordered by the part that is indexed; arrays and maps are
ordered lexicographically.  For each edition this is a total preorder, and so is the order of
candidates by any list of field orders and directions.
-/

namespace Firenook.QueryEngine

open Comparators Binary64 List
open Std.OrientedCmp (eq_swap)

variable {edition : DatabaseEdition}

/-! ## Numbers -/

variable {left right : Value}

def exactNumber : Value → Option (WithBot (WithBot (WithTop ℚ)))
  | .integer value => some (exactInteger value)
  | .double value => some value.exact
  | _ => none

theorem compareDoubles_eq_compare (left right : Binary64) :
    compareDoubles left right = compare left.exact right.exact := by
  unfold compareDoubles
  cases leftNan : left.isNan <;> cases rightNan : right.isNan
  · rw [partialCmp_eq_compare leftNan rightNan]
    rfl
  · rw [exact_of_isNan rightNan]
    exact (compare_gt_iff_gt.mpr (bot_lt_exact leftNan)).symm
  · rw [exact_of_isNan leftNan]
    exact (compare_lt_iff_lt.mpr (bot_lt_exact rightNan)).symm
  · rw [exact_of_isNan leftNan, exact_of_isNan rightNan]
    exact (compare_eq_iff_eq.mpr rfl).symm

theorem compareIntegerDouble_eq_compare (integer : Int64) (double : Binary64) :
    compareIntegerDouble integer double = compare (exactInteger integer) double.exact := by
  unfold compareIntegerDouble
  by_cases nan : double.isNan = true
  · rw [if_pos nan, exact_of_isNan nan]
    exact (compare_gt_iff_gt.mpr (WithBot.bot_lt_coe _)).symm
  · have notNan : double.isNan = false := by simpa using nan
    have unit : (0 : Int) < unit := Int.natCast_pos.mpr unit_pos
    have least := integer.le_toInt
    have greatest := integer.toInt_lt
    rw [if_neg nan, compare_exactInteger notNan integer]
    by_cases high : double.ge .twoPow63 = true
    · rw [if_pos high]
      have above := (compare_twoPow63 notNan).mp high
      exact (Std.compare_eq_lt.mpr (by nlinarith)).symm
    · rw [if_neg high]
      rw [compare_twoPow63 notNan] at high
      by_cases low : double.lt .negTwoPow63 = true
      · rw [if_pos low]
        have below := (compare_negTwoPow63 notNan).mp low
        exact (Std.compare_eq_gt.mpr (by nlinarith)).symm
      · rw [if_neg low]
        rw [compare_negTwoPow63 notNan] at low
        rw [asInt64_of_bounds notNan (by omega) (by omega), compare_scaled]
        cases compare integer.toInt double.whole <;> rfl

theorem compare_toInt (left right : Int64) : compare left.toInt right.toInt =
    compare (exactInteger left) (exactInteger right) := by
  apply eq_of_lt_iff
  · rw [Std.compare_eq_lt, compare_lt_iff_lt, exactInteger, exactInteger,
      WithBot.coe_lt_coe, WithBot.coe_lt_coe, WithTop.coe_lt_coe, Int.cast_lt]
  · rw [Std.compare_eq_gt, compare_gt_iff_gt, exactInteger, exactInteger,
      WithBot.coe_lt_coe, WithBot.coe_lt_coe, WithTop.coe_lt_coe, Int.cast_lt]

/-- Numbers are compared as exact extended rationals, with every NaN equal and least. -/
theorem compareValues_of_exactNumber {leftNumber rightNumber : WithBot (WithBot (WithTop ℚ))}
    (isLeft : exactNumber left = some leftNumber) (isRight : exactNumber right = some rightNumber) :
    compareValues edition left right = compare leftNumber rightNumber := by
  cases left <;> cases isLeft <;> cases right <;> cases isRight <;> rw [compareValues]
  · exact compare_toInt _ _
  · exact compareIntegerDouble_eq_compare _ _
  · rw [compareIntegerDouble_eq_compare, ← swap_compare]
  · exact compareDoubles_eq_compare _ _

/-! ## Atoms -/

instance : Std.TransCmp compareDoubles :=
  transCmp_of_composes
    (fun left right => by
      rw [compareDoubles_eq_compare, compareDoubles_eq_compare, swap_compare])
    (fun first second third => by
      simp only [compareDoubles_eq_compare]
      exact composes_compare _ _ _)

instance (edition : DatabaseEdition) : Std.TransCmp (compareIndexedBytes edition) := by
  cases edition with
  | standard =>
    exact inferInstanceAs (Std.TransCmp fun left right : List UInt8 =>
      compareOn (take standardIndexedValueBytes) left right)
  | enterprise => exact inferInstanceAs (Std.TransCmp fun left right : List UInt8 => compare left right)

instance : Std.TransCmp compareVectors :=
  inferInstanceAs (Std.TransCmp (compareLex (compareOn List.length) (List.compareLex compareDoubles)))

/-! ## Kinds -/

inductive SameKind : Value → Value → Prop
  | null : SameKind .null .null
  | boolean (left right : Bool) : SameKind (.boolean left) (.boolean right)
  | timestamp (left right : Timestamp) : SameKind (.timestamp left) (.timestamp right)
  | string (left right : Text) : SameKind (.string left) (.string right)
  | bytes (left right : List UInt8) : SameKind (.bytes left) (.bytes right)
  | reference (left right : Text) : SameKind (.reference left) (.reference right)
  | geoPoint (left right : Binary64 × Binary64) :
      SameKind (.geoPoint left.1 left.2) (.geoPoint right.1 right.2)
  | array (left right : List Value) : SameKind (.array left) (.array right)
  | vector (left right : List Binary64) : SameKind (.vector left) (.vector right)
  | map (left right : List (Text × Value)) : SameKind (.map left) (.map right)
  | number {left right : Value} {leftNumber rightNumber : WithBot (WithBot (WithTop ℚ))}
      (isLeft : exactNumber left = some leftNumber)
      (isRight : exactNumber right = some rightNumber) : SameKind left right

theorem sameKind_of_typeRank_eq (same : typeRank left = typeRank right) : SameKind left right := by
  cases left <;> cases right <;>
    first
    | (simp [typeRank] at same; done)
    | exact .number rfl rfl
    | exact .geoPoint (_, _) (_, _)
    | constructor

theorem exactNumber_of_sameKind (same : SameKind left right)
    {number : WithBot (WithBot (WithTop ℚ))} (isNumber : exactNumber left = some number) :
    ∃ other, exactNumber right = some other := by
  cases same with
  | number _ isRight => exact ⟨_, isRight⟩
  | _ => cases isNumber

theorem compareValues_of_typeRank_ne (different : typeRank left ≠ typeRank right) :
    compareValues edition left right = compare (typeRank left) (typeRank right) := by
  cases left <;> cases right <;>
    first
    | exact absurd rfl different
    | simp only [compareValues]

def members : Value → List Value
  | .array values => values
  | .map entries => entries.map Prod.snd
  | _ => []

theorem memberInduction {motive : Value → Prop}
    (step : ∀ value, (∀ member ∈ members value, motive member) → motive value) (value : Value) :
    motive value := by
  induction value using Value.inductOn with
  | array values ih => exact step _ ih
  | map entries ih => exact step _ (forall_mem_map.mpr ih)
  | _ => exact step _ (by simp [members])

def compareEntries (edition : DatabaseEdition) (left right : Text × Value) : Ordering :=
  (Text.cmp left.1 right.1).then (compareValues edition left.2 right.2)

theorem compareArrays_eq_compareLex (lefts rights : List Value) :
    compareArrays edition lefts rights = List.compareLex (compareValues edition) lefts rights := by
  induction lefts generalizing rights with
  | nil => cases rights <;> rw [compareArrays] <;> simp [List.compareLex, Nat.compare_eq_lt]
  | cons left lefts ih =>
    cases rights with
    | nil => simp [compareArrays, List.compareLex, Nat.compare_eq_gt]
    | cons right rights =>
      rw [compareArrays, List.compareLex_cons_cons, ih]
      cases compareValues edition left right <;> rfl

theorem compareMaps_eq_compareLex (lefts rights : List (Text × Value)) :
    compareMaps edition lefts rights = List.compareLex (compareEntries edition) lefts rights := by
  induction lefts generalizing rights with
  | nil => cases rights <;> rw [compareMaps] <;> simp [List.compareLex, Nat.compare_eq_lt]
  | cons left lefts ih =>
    cases rights with
    | nil => simp [compareMaps, List.compareLex, Nat.compare_eq_gt]
    | cons right rights =>
      rw [compareMaps, List.compareLex_cons_cons, ih, compareEntries]
      cases Text.cmp left.1 right.1 <;> cases compareValues edition left.2 right.2 <;> rfl

/-! ## A total preorder -/

theorem swap_compareEntries {left : Text × Value}
    (swap : ∀ right, compareValues edition left.2 right = (compareValues edition right left.2).swap)
    (right : Text × Value) :
    compareEntries edition left right = (compareEntries edition right left).swap := by
  rw [compareEntries, compareEntries, swap, Ordering.swap_then,
    @Std.OrientedCmp.eq_swap _ Text.cmp _ left.1 right.1]

theorem swap_compareValues (left right : Value) :
    compareValues edition left right = (compareValues edition right left).swap := by
  induction left using memberInduction generalizing right with
  | step left ih =>
    by_cases same : typeRank left = typeRank right
    · cases sameKind_of_typeRank_eq same with
      | null => rfl
      | boolean left right | timestamp left right | string left right | bytes left right
      | reference left right | vector left right =>
        rw [compareValues]
        exact eq_swap
      | geoPoint left right =>
        rw [compareValues, compareValues, Ordering.swap_then,
          @Std.OrientedCmp.eq_swap _ compareDoubles _ left.1 right.1,
          @Std.OrientedCmp.eq_swap _ compareDoubles _ left.2 right.2]
      | array lefts rights =>
        rw [compareValues, compareValues, compareArrays_eq_compareLex, compareArrays_eq_compareLex]
        exact swap_compareLex ih
      | map lefts rights =>
        rw [compareValues, compareValues, compareMaps_eq_compareLex, compareMaps_eq_compareLex]
        exact swap_compareLex fun entry member =>
          swap_compareEntries (ih entry.2 (mem_map_of_mem member))
      | number isLeft isRight =>
        rw [compareValues_of_exactNumber isLeft isRight,
          compareValues_of_exactNumber isRight isLeft]
        exact swap_compare _ _
    · rw [compareValues_of_typeRank_ne same, compareValues_of_typeRank_ne (Ne.symm same)]
      exact eq_swap

theorem compareValues_eq_then (left right : Value) :
    compareValues edition left right =
      (compare (typeRank left) (typeRank right)).then (compareValues edition left right) := by
  by_cases same : typeRank left = typeRank right
  · rw [same, Std.ReflOrd.compare_self, Ordering.eq_then]
  · rw [compareValues_of_typeRank_ne same, Ordering.then_self]

theorem composes_compareEntries {first : Text × Value}
    (composes : ∀ second third, Composes (compareValues edition first.2 second)
      (compareValues edition second third) (compareValues edition first.2 third))
    (second third : Text × Value) :
    Composes (compareEntries edition first second) (compareEntries edition second third)
      (compareEntries edition first third) :=
  (composes_of_transCmp first.1 second.1 third.1).then fun _ _ => composes second.2 third.2

theorem composes_compareValues (first second third : Value) :
    Composes (compareValues edition first second) (compareValues edition second third)
      (compareValues edition first third) := by
  induction first using memberInduction generalizing second third with
  | step first ih =>
    rw [compareValues_eq_then first second, compareValues_eq_then second third,
      compareValues_eq_then first third]
    apply (composes_of_transCmp (typeRank first) (typeRank second) (typeRank third)).then
    intro firstRank secondRank
    have firstKind := sameKind_of_typeRank_eq (Std.compare_eq_iff_eq.mp firstRank)
    have secondKind := sameKind_of_typeRank_eq (Std.compare_eq_iff_eq.mp secondRank)
    cases firstKind with
    | null =>
      cases secondKind with
      | null => exact .refl _
      | number isSecond => cases isSecond
    | string first second =>
      cases secondKind with
      | string second third =>
        simp only [compareValues]
        exact composes_of_transCmp first.bytes second.bytes third.bytes
      | number isSecond => cases isSecond
    | boolean first second | timestamp first second | bytes first second | reference first second
    | vector first second =>
      cases secondKind with
      | number isSecond => cases isSecond
      | _ =>
        simp only [compareValues]
        exact composes_of_transCmp ..
    | geoPoint first second =>
      obtain ⟨_, _⟩ := second
      cases secondKind with
      | geoPoint second third =>
        exact (composes_of_transCmp first.1 second.1 third.1).then fun _ _ =>
          composes_of_transCmp first.2 second.2 third.2
      | number isSecond => cases isSecond
    | array first second =>
      cases secondKind with
      | array second third =>
        simp only [compareValues, compareArrays_eq_compareLex]
        exact composes_compareLex ih second third
      | number isSecond => cases isSecond
    | map first second =>
      cases secondKind with
      | map second third =>
        simp only [compareValues, compareMaps_eq_compareLex]
        exact composes_compareLex (fun entry member =>
          composes_compareEntries (ih entry.2 (List.mem_map_of_mem member))) second third
      | number isSecond => cases isSecond
    | number isFirst isSecond =>
      obtain ⟨thirdNumber, isThird⟩ := exactNumber_of_sameKind secondKind isSecond
      rw [compareValues_of_exactNumber isFirst isSecond,
        compareValues_of_exactNumber isSecond isThird,
        compareValues_of_exactNumber isFirst isThird]
      exact composes_compare _ _ _

instance (edition : DatabaseEdition) : Std.TransCmp (compareValues edition) :=
  transCmp_of_composes swap_compareValues composes_compareValues

/-! ## Candidates -/

instance (edition : DatabaseEdition) : Std.TransCmp (FieldValue.compareFields edition) := by
  apply transCmp_of_composes
  · rintro (left | left) (right | right) <;> simp only [FieldValue.compareFields]
    · exact eq_swap
    · rfl
    · rfl
    · exact eq_swap
  · rintro (first | first) (second | second) (third | third) <;>
      simp only [FieldValue.compareFields]
    · exact composes_of_transCmp first second third
    · exact ⟨fun _ => rfl, nofun, fun _ _ => rfl, nofun⟩
    · exact ⟨nofun, nofun, nofun, nofun⟩
    · exact ⟨nofun, fun _ => rfl, fun _ _ => rfl, nofun⟩
    · exact ⟨nofun, fun _ => rfl, nofun, fun _ _ => rfl⟩
    · exact ⟨nofun, nofun, nofun, nofun⟩
    · exact ⟨fun _ => rfl, nofun, nofun, fun _ _ => rfl⟩
    · exact composes_of_transCmp first second third

theorem transCmp_applyDirection {α : Type} (cmp : α → α → Ordering) [Std.TransCmp cmp]
    (direction : Direction) :
    Std.TransCmp fun left right => applyDirection (cmp left right) direction := by
  cases direction with
  | ascending => exact inferInstanceAs (Std.TransCmp cmp)
  | descending =>
    apply transCmp_of_composes
    · intro left right
      exact congrArg Ordering.swap eq_swap
    · intro first second third
      exact (composes_of_transCmp first second third).swap

def candidateKey (order : Order) (candidate : DocumentKey × LazyDocument) : FieldValue :=
  orderKey candidate.1 ((fieldValue candidate.1 candidate.2 order.path).bind FieldValue.asValue)

def compareByOrder (edition : DatabaseEdition) (order : Order)
    (left right : DocumentKey × LazyDocument) : Ordering :=
  applyDirection (FieldValue.compareFields edition (candidateKey order left)
    (candidateKey order right)) order.direction

theorem compareCandidates_cons (order : Order) (orders : List Order) :
    compareCandidates edition (order :: orders) =
      compareLex (compareByOrder edition order) (compareCandidates edition orders) :=
  rfl

instance (edition : DatabaseEdition) (order : Order) :
    Std.TransCmp (compareByOrder edition order) :=
  transCmp_onKey (transCmp_applyDirection (FieldValue.compareFields edition) order.direction)
    (candidateKey order)

theorem transCmp_compareCandidates (orders : List Order) :
    Std.TransCmp (compareCandidates edition orders) := by
  induction orders with
  | nil => exact transCmp_of_composes (fun _ _ => rfl) (fun _ _ _ => .refl _)
  | cons order orders ih =>
    rw [compareCandidates_cons]
    infer_instance

/-- Numeric values, and the doubles inside vectors and points, compare as the extended
rationals they stand for. -/
def ComparesNumbersExactly (edition : DatabaseEdition) : Prop :=
  (∀ left right leftNumber rightNumber, exactNumber left = some leftNumber →
    exactNumber right = some rightNumber →
      compareValues edition left right = compare leftNumber rightNumber) ∧
  ∀ left right, compareDoubles left right = compare left.exact right.exact

/-- The number of a double is the least one exactly when it is not a number at all; infinities
are above and below every rational. -/
def NanIsLeast : Prop := ∀ number : Binary64, number.exact = ⊥ ↔ number.isNan = true

/-- The order of values is a total preorder that compares numbers exactly, and so is the
order of candidates by any list of orders. -/
theorem query_order_is_total_preorder (edition : DatabaseEdition) :
    TotalPreorder (compareValues edition) ∧ ComparesNumbersExactly edition ∧ NanIsLeast ∧
      ∀ orders, TotalPreorder (compareCandidates edition orders) := by
  refine ⟨totalPreorder_of_transCmp, ⟨?_, compareDoubles_eq_compare⟩, ?_, ?_⟩
  · intro left right leftNumber rightNumber isLeft isRight
    exact compareValues_of_exactNumber isLeft isRight
  · intro number
    constructor
    · intro least
      by_contra notNan
      have above := bot_lt_exact (Bool.eq_false_of_not_eq_true notNan)
      exact above.ne least.symm
    · exact exact_of_isNan
  · intro orders
    have := @transCmp_compareCandidates edition orders
    exact totalPreorder_of_transCmp

end Firenook.QueryEngine
