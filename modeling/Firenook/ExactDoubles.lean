import Firenook.Binary64
import Firenook.Comparators

/-!
# Doubles as exact numbers

Every finite double is a whole multiple of the least positive one.  The bits of the magnitude
count up through these multiples, so that comparing signed magnitudes compares exact values,
and comparing with an integer by its whole part and the sign of the rest is exact as well.
-/

namespace Firenook

open Nat

namespace Binary64

open WithBot (coe_lt_coe)

/-! ## Magnitudes -/

@[irreducible]
def places : Nat := 1074

theorem places_eq : places = 1074 := by
  unfold places
  rfl

def unit : Nat := 2 ^ places

theorem unit_pos : 0 < unit := by
  exact Nat.two_pow_pos places

/-- The multiple of the least positive double that magnitude bits stand for. -/
def multiple (magnitude : Nat) : Nat :=
  if magnitude < 2 ^ 52 then magnitude
  else (2 ^ 52 + magnitude % 2 ^ 52) * 2 ^ (magnitude / 2 ^ 52 - 1)

variable (number : Binary64)

theorem significand_mul :
    number.significand * 2 ^ (number.exponent - 1) = multiple number.magnitude := by
  unfold significand exponent multiple
  by_cases subnormal : number.magnitude < 2 ^ 52
  · rw [if_pos subnormal, if_pos subnormal, div_eq_of_lt subnormal]
    simp
  · rw [if_neg subnormal, if_neg subnormal]
    have normal : 1 ≤ number.magnitude / 2 ^ 52 := by omega
    rw [max_eq_right normal]

theorem multiple_lt_succ (magnitude : Nat) : multiple magnitude < multiple (magnitude + 1) := by
  unfold multiple
  by_cases subnormal : magnitude + 1 < 2 ^ 52
  · rw [if_pos (by omega), if_pos subnormal]
    omega
  · rw [if_neg subnormal]
    by_cases last : magnitude < 2 ^ 52
    · -- the least normal number follows the greatest subnormal one
      obtain rfl : magnitude = 2 ^ 52 - 1 := by omega
      norm_num
    · rw [if_neg last]
      have positive : 0 < 2 ^ (magnitude / 2 ^ 52 - 1) := by positivity
      by_cases carries : magnitude % 2 ^ 52 + 1 < 2 ^ 52
      · have sameExponent : (magnitude + 1) / 2 ^ 52 = magnitude / 2 ^ 52 := by omega
        rw [sameExponent]
        exact mul_lt_mul_of_pos_right (by omega) positive
      · have nextExponent : (magnitude + 1) / 2 ^ 52 - 1 = magnitude / 2 ^ 52 - 1 + 1 := by omega
        have noFraction : (magnitude + 1) % 2 ^ 52 = 0 := by omega
        rw [nextExponent, noFraction]
        calc (2 ^ 52 + magnitude % 2 ^ 52) * 2 ^ (magnitude / 2 ^ 52 - 1)
            < (2 * 2 ^ 52) * 2 ^ (magnitude / 2 ^ 52 - 1) :=
              mul_lt_mul_of_pos_right (by omega) positive
          _ = (2 ^ 52 + 0) * 2 ^ (magnitude / 2 ^ 52 - 1 + 1) := by
              ring

theorem multiple_strictMono : StrictMono multiple := strictMono_nat_of_lt_succ multiple_lt_succ

def scaled : Int :=
  if number.isSignNegative then -(multiple number.magnitude : Int)
  else multiple number.magnitude

theorem position_lt_iff (left right : Binary64) :
    left.position < right.position ↔ left.scaled < right.scaled := by
  have order := multiple_strictMono.lt_iff_lt (a := left.magnitude) (b := right.magnitude)
  have reverse := multiple_strictMono.lt_iff_lt (a := right.magnitude) (b := left.magnitude)
  have leftZero : multiple left.magnitude = 0 ↔ left.magnitude = 0 :=
    multiple_strictMono.injective.eq_iff (a := left.magnitude) (b := 0)
  unfold position scaled
  split_ifs <;> omega

/-! ## Exact values -/

/-- The number a double stands for: not a number, which is below everything, or an extended
rational. -/
def exact : WithBot (WithBot (WithTop ℚ)) :=
  if number.isNan then ⊥
  else if number.isFinite then (((number.scaled / unit : ℚ) : WithTop ℚ) : WithBot (WithTop ℚ))
  else if number.isSignNegative then (⊥ : WithBot (WithTop ℚ))
  else ((⊤ : WithTop ℚ) : WithBot (WithTop ℚ))

def exactInteger (integer : Int64) : WithBot (WithBot (WithTop ℚ)) :=
  (((integer.toInt : ℚ) : WithTop ℚ) : WithBot (WithTop ℚ))

variable {left right number : Binary64}

theorem exact_of_isNan (nan : number.isNan = true) : number.exact = ⊥ := by
  rw [exact, if_pos nan]

theorem exact_of_isFinite (notNan : number.isNan = false) (finite : number.isFinite = true) :
    number.exact = (((number.scaled / unit : ℚ) : WithTop ℚ) : WithBot (WithTop ℚ)) := by
  rw [exact, if_neg (by simp [notNan]), if_pos finite]

theorem multiple_twoPow63 : multiple twoPow63.magnitude = 2 ^ 63 * unit := by
  have bits : twoPow63.magnitude = 0x43E0000000000000 := by decide
  have fraction : 0x43E0000000000000 % 2 ^ 52 = 0 := by norm_num
  have exponent : 0x43E0000000000000 / 2 ^ 52 - 1 = 1085 := by norm_num
  rw [bits, multiple, if_neg (by norm_num), fraction, exponent, add_zero, unit, ← pow_add,
    ← pow_add, places_eq]

theorem exact_cases : ∃ infinity : Int, 2 ^ 63 * (unit : Int) < infinity ∧ ∀ number : Binary64,
    number.isNan = false →
      (number.exact = (((number.scaled / unit : ℚ) : WithTop ℚ) : WithBot (WithTop ℚ)) ∧
        number.isFinite = true ∧ -infinity < number.scaled ∧ number.scaled < infinity) ∨
      (number.exact = ((⊥ : WithBot (WithTop ℚ)) : WithBot (WithBot (WithTop ℚ))) ∧
        number.scaled = -infinity) ∨
      (number.exact = (((⊤ : WithTop ℚ) : WithBot (WithTop ℚ)) : WithBot (WithBot (WithTop ℚ))) ∧
        number.scaled = infinity) := by
  refine ⟨multiple 0x7FF0000000000000, ?_, ?_⟩
  · have past : multiple twoPow63.magnitude < multiple 0x7FF0000000000000 :=
      multiple_strictMono (by decide)
    rw [multiple_twoPow63] at past
    exact_mod_cast past
  · intro number notNan
    by_cases finite : number.isFinite = true
    · have bound : multiple number.magnitude < multiple 0x7FF0000000000000 :=
        multiple_strictMono (by simpa [isFinite] using finite)
      refine .inl ⟨exact_of_isFinite notNan finite, finite, ?_⟩
      rw [scaled]
      split_ifs <;> omega
    · have bits : number.magnitude = 0x7FF0000000000000 := by
        simp only [isNan, isFinite, decide_eq_false_iff_not, decide_eq_true_eq] at notNan finite
        omega
      rw [scaled, bits, exact, if_neg (by simp [notNan]), if_neg finite]
      by_cases negative : number.isSignNegative = true
      · rw [if_pos negative, if_pos negative]
        exact .inr (.inl ⟨rfl, rfl⟩)
      · rw [if_neg negative, if_neg negative]
        exact .inr (.inr ⟨rfl, rfl⟩)

theorem bot_lt_exact (notNan : number.isNan = false) : ⊥ < number.exact := by
  obtain ⟨_, _, cases⟩ := exact_cases
  rcases cases number notNan with ⟨isExact, _⟩ | ⟨isExact, _⟩ | ⟨isExact, _⟩ <;>
    rw [isExact] <;> exact WithBot.bot_lt_coe _

theorem exact_lt_iff (leftNumber : left.isNan = false) (rightNumber : right.isNan = false) :
    left.exact < right.exact ↔ left.scaled < right.scaled := by
  have positiveUnit : (0 : ℚ) < unit := cast_pos.mpr unit_pos
  obtain ⟨infinity, large, cases⟩ := exact_cases
  rcases cases left leftNumber with
      ⟨isLeft, _, leftBounds⟩ | ⟨isLeft, leftScaled⟩ | ⟨isLeft, leftScaled⟩ <;>
    rcases cases right rightNumber with
      ⟨isRight, _, rightBounds⟩ | ⟨isRight, rightScaled⟩ | ⟨isRight, rightScaled⟩ <;>
    rw [isLeft, isRight, coe_lt_coe]
  · rw [coe_lt_coe, WithTop.coe_lt_coe, div_lt_div_iff_of_pos_right positiveUnit, Int.cast_lt]
  all_goals simp only [coe_lt_coe, WithTop.coe_lt_top, WithBot.not_lt_bot,
    WithBot.bot_lt_coe, not_top_lt, true_iff, false_iff]
  all_goals omega

/-! ## Comparisons are exact -/

theorem partialCmp_eq_compare (leftNumber : left.isNan = false) (rightNumber : right.isNan = false) :
    left.partialCmp right = some (compare left.exact right.exact) := by
  rw [partialCmp, leftNumber, rightNumber]
  refine congrArg some (Comparators.eq_of_lt_iff ?_ ?_)
  · rw [Std.compare_eq_lt, compare_lt_iff_lt, position_lt_iff, exact_lt_iff leftNumber rightNumber]
  · rw [Std.compare_eq_gt, compare_gt_iff_gt, position_lt_iff, exact_lt_iff rightNumber leftNumber]

/-! ## Whole parts -/

theorem one_le_exponent (number : Binary64) : 1 ≤ number.exponent := le_max_left _ _

theorem unit_eq_mul {exponent : Nat} (least : 1 ≤ exponent) (small : ¬ 1075 ≤ exponent) :
    unit = 2 ^ (exponent - 1) * 2 ^ (1075 - exponent) := by
  have split : places = (exponent - 1) + (1075 - exponent) := by
    rw [places_eq]
    omega
  rw [unit, ← pow_add, ← split]

theorem multiple_of_large {number : Binary64} (large : 1075 ≤ number.exponent) :
    multiple number.magnitude = number.significand * 2 ^ (number.exponent - 1075) * unit := by
  have split : number.exponent - 1 = (number.exponent - 1075) + places := by
    rw [places_eq]
    omega
  rw [← significand_mul, unit, split, pow_add, mul_assoc]

theorem wholeMagnitude_eq_div (number : Binary64) :
    number.wholeMagnitude = multiple number.magnitude / unit := by
  rw [wholeMagnitude]
  split_ifs with large
  · rw [multiple_of_large large, Nat.mul_div_cancel _ unit_pos]
  · rw [← significand_mul, unit_eq_mul number.one_le_exponent large,
      Nat.mul_comm number.significand, Nat.mul_div_mul_left _ _ (Nat.two_pow_pos _)]

theorem hasFraction_iff (number : Binary64) :
    number.hasFraction = true ↔ multiple number.magnitude % unit ≠ 0 := by
  rw [hasFraction, Bool.and_eq_true, decide_eq_true_eq]
  by_cases large : 1075 ≤ number.exponent
  · rw [multiple_of_large large, Nat.mul_mod_left]
    omega
  · have positive : 2 ^ (number.exponent - 1) ≠ 0 := (Nat.two_pow_pos _).ne'
    rw [← significand_mul, unit_eq_mul number.one_le_exponent large,
      Nat.mul_comm number.significand, Nat.mul_mod_mul_left]
    simp only [bne_iff_ne, ne_eq, Nat.mul_eq_zero]
    omega

theorem compare_mul_add {unit : Int} (positive : 0 < unit) (integer whole : Int) {rest : Int}
    (nonnegative : 0 ≤ rest) (below : rest < unit) :
    compare (integer * unit) (whole * unit + rest) =
      (compare integer whole).then (if rest = 0 then .eq else .lt) := by
  rcases lt_trichotomy integer whole with less | rfl | greater
  · have scaledLess : integer * unit < whole * unit + rest := by nlinarith
    rw [Std.compare_eq_lt.mpr scaledLess, Std.compare_eq_lt.mpr less]
    rfl
  · rw [Std.ReflOrd.compare_self, Ordering.eq_then]
    split_ifs with none
    · rw [none, add_zero, Std.ReflOrd.compare_self]
    · rw [Std.compare_eq_lt]
      omega
  · have scaledGreater : whole * unit + rest < integer * unit := by nlinarith
    rw [Std.compare_eq_gt.mpr scaledGreater, Std.compare_eq_gt.mpr greater]
    rfl

theorem compare_neg_right (left right : Int) : compare left (-right) = (compare (-left) right).swap := by
  rcases lt_trichotomy left (-right) with less | equal | greater
  · rw [Std.compare_eq_lt.mpr less, Std.compare_eq_gt.mpr (show right < -left by omega)]
    rfl
  · rw [Std.compare_eq_iff_eq.mpr equal, Std.compare_eq_iff_eq.mpr (show -left = right by omega)]
    rfl
  · rw [Std.compare_eq_gt.mpr greater, Std.compare_eq_lt.mpr (show -left < right by omega)]
    rfl

theorem compare_scaled (integer : Int) (number : Binary64) :
    compare (integer * unit) number.scaled =
      (compare integer number.whole).then
        (if number.hasFraction then if number.isSignNegative then .gt else .lt else .eq) := by
  have split : (multiple number.magnitude : Int) =
      (number.wholeMagnitude : Int) * unit + ((multiple number.magnitude % unit : Nat) : Int) := by
    rw [wholeMagnitude_eq_div]
    exact_mod_cast (div_add_mod' (multiple number.magnitude) unit).symm
  have below : ((multiple number.magnitude % unit : Nat) : Int) < unit := by
    exact_mod_cast mod_lt _ unit_pos
  have exactly := fun value : Int => compare_mul_add (Int.natCast_pos.mpr unit_pos) value
    number.wholeMagnitude (Int.natCast_nonneg _) below
  have rest : (if ((multiple number.magnitude % unit : Nat) : Int) = 0 then Ordering.eq else .lt) =
      if number.hasFraction then .lt else .eq := by
    by_cases fraction : number.hasFraction = true
    · have some := number.hasFraction_iff.mp fraction
      rw [if_pos fraction, if_neg (by omega)]
    · have none : multiple number.magnitude % unit = 0 := by
        by_contra some
        exact fraction (number.hasFraction_iff.mpr some)
      rw [if_neg fraction, none]
      rfl
  rw [scaled, whole, split]
  by_cases negative : number.isSignNegative = true
  · rw [if_pos negative, if_pos negative, compare_neg_right, ← neg_mul, exactly,
      rest, compare_neg_right, Ordering.swap_then]
    split_ifs <;> rfl
  · rw [if_neg negative, if_neg negative, if_neg negative, exactly, rest]

section

variable (notNan : number.isNan = false)
include notNan

theorem compare_exactInteger (integer : Int64) :
    compare (exactInteger integer) number.exact = compare (integer.toInt * unit) number.scaled := by
  have positive : (0 : ℚ) < unit := cast_pos.mpr unit_pos
  have least : (0 : Int) < unit := Int.natCast_pos.mpr unit_pos
  obtain ⟨infinity, large, cases⟩ := exact_cases
  have low : -(2 ^ 63 * unit) ≤ integer.toInt * unit := by
    have bound := integer.le_toInt
    nlinarith
  have high : integer.toInt * unit < 2 ^ 63 * unit := by
    have bound := integer.toInt_lt
    nlinarith
  rw [exactInteger]
  rcases cases number notNan with ⟨isExact, _, _⟩ | ⟨isExact, isScaled⟩ | ⟨isExact, isScaled⟩
  · rw [isExact]
    have less : (integer.toInt : ℚ) < number.scaled / unit ↔ integer.toInt * unit < number.scaled := by
      rw [lt_div_iff₀ positive]
      exact_mod_cast Iff.rfl
    have greater : number.scaled / unit < (integer.toInt : ℚ) ↔
        number.scaled < integer.toInt * unit := by
      rw [div_lt_iff₀ positive]
      exact_mod_cast Iff.rfl
    apply Comparators.eq_of_lt_iff
    · rw [compare_lt_iff_lt, Std.compare_eq_lt, coe_lt_coe, coe_lt_coe,
        WithTop.coe_lt_coe, less]
    · rw [compare_gt_iff_gt, Std.compare_eq_gt, coe_lt_coe, coe_lt_coe,
        WithTop.coe_lt_coe, greater]
  · have below : -infinity < integer.toInt * unit := by linarith
    rw [isExact, isScaled, Std.compare_eq_gt.mpr below, compare_gt_iff_gt, coe_lt_coe]
    exact WithBot.bot_lt_coe _
  · have above : integer.toInt * unit < infinity := by linarith
    rw [isExact, isScaled, Std.compare_eq_lt.mpr above, compare_lt_iff_lt, coe_lt_coe,
      coe_lt_coe]
    exact WithTop.coe_lt_top _

theorem compare_twoPow63 : number.ge twoPow63 = true ↔ 2 ^ 63 * (unit : Int) ≤ number.scaled := by
  have isScaled : twoPow63.scaled = 2 ^ 63 * (unit : Int) := by
    rw [scaled, multiple_twoPow63]
    rfl
  rw [ge, partialCmp, notNan, show twoPow63.isNan = false by decide]
  simp only [Bool.or_self, Bool.false_eq_true, if_false, Bool.or_eq_true, beq_iff_eq,
    Option.some.injEq, Std.compare_eq_gt, Std.compare_eq_iff_eq]
  have order := position_lt_iff number twoPow63
  omega

theorem compare_negTwoPow63 :
    number.lt negTwoPow63 = true ↔ number.scaled < -(2 ^ 63 * (unit : Int)) := by
  have bits : negTwoPow63.magnitude = twoPow63.magnitude := by decide
  have isScaled : negTwoPow63.scaled = -(2 ^ 63 * (unit : Int)) := by
    rw [scaled, bits, multiple_twoPow63]
    rfl
  rw [lt, partialCmp, notNan, show negTwoPow63.isNan = false by decide, ← isScaled]
  simp only [Bool.or_self, Bool.false_eq_true, if_false, beq_iff_eq, Option.some.injEq,
    Std.compare_eq_lt, position_lt_iff]

theorem asInt64_of_bounds
    (low : -(2 ^ 63 * (unit : Int)) ≤ number.scaled) (high : number.scaled < 2 ^ 63 * (unit : Int)) :
    number.asInt64 = number.whole := by
  obtain ⟨infinity, large, cases⟩ := exact_cases
  have finite : number.isFinite = true := by
    rcases cases number notNan with ⟨_, finite, _⟩ | ⟨_, isScaled⟩ | ⟨_, isScaled⟩
    · exact finite
    · omega
    · omega
  have bounds : -2 ^ 63 ≤ number.whole ∧ number.whole ≤ 2 ^ 63 - 1 := by
    rw [whole, wholeMagnitude_eq_div]
    rw [scaled] at low high
    split_ifs at low high ⊢
    · have small : multiple number.magnitude / unit ≤ 2 ^ 63 :=
        Nat.div_le_of_le_mul (by omega)
      generalize multiple number.magnitude / unit = quotient at small ⊢
      omega
    · have small : multiple number.magnitude / unit < 2 ^ 63 :=
        (div_lt_iff_lt_mul unit_pos).mpr (by zify; exact high)
      generalize multiple number.magnitude / unit = quotient at small ⊢
      omega
  rw [asInt64, if_neg (by simp [notNan]), if_neg (by simp [finite])]
  omega

end

end Binary64

end Firenook
