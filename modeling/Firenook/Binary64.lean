import Firenook.Text

/-!
# IEEE 754 binary64 numbers

Doubles are kept as bit patterns, so that two zeros and the different NaNs stay
different values while the comparison operators identify or reject them as the
hardware does.  Comparisons and integer parts are computed exactly from the bits;
only the rounding operations are left to the runtime's own doubles.
-/

namespace Firenook

/-- A double, identified by its bit pattern. -/
structure Binary64 where
  bits : UInt64
  deriving DecidableEq

namespace Binary64

variable (number : Binary64)

def magnitude : Nat := number.bits.toNat % 2 ^ 63

def isSignNegative : Bool := 2 ^ 63 ≤ number.bits.toNat

def isNan : Bool := 0x7FF0000000000000 < number.magnitude

def isFinite : Bool := number.magnitude < 0x7FF0000000000000

/-- Numbers other than NaN are ordered by their signed magnitude bits. -/
def position : Int :=
  if number.isSignNegative then -(number.magnitude : Int) else number.magnitude

variable (left right : Binary64)

def partialCmp : Option Ordering :=
  if left.isNan || right.isNan then none
  else some (compare left.position right.position)

def eq : Bool := left.partialCmp right == some .eq

def lt : Bool := left.partialCmp right == some .lt

def ge : Bool :=
  left.partialCmp right == some .gt || left.partialCmp right == some .eq

/-- Exponent bits, with the subnormal exponent raised to the least normal one. -/
def exponent : Nat := max 1 (number.magnitude / 2 ^ 52)

/-- A finite number is `±significand * 2 ^ (exponent - 1075)`. -/
def significand : Nat :=
  if number.magnitude < 2 ^ 52 then number.magnitude
  else 2 ^ 52 + number.magnitude % 2 ^ 52

/-- Integer part of the absolute value of a finite number. -/
def wholeMagnitude : Nat :=
  if 1075 ≤ number.exponent then
    number.significand * 2 ^ (number.exponent - 1075)
  else number.significand / 2 ^ (1075 - number.exponent)

def hasFraction : Bool :=
  number.exponent < 1075 && number.significand % 2 ^ (1075 - number.exponent) != 0

def whole : Int :=
  if number.isSignNegative then -(number.wholeMagnitude : Int)
  else number.wholeMagnitude

/-- `as i64`: NaN becomes zero and the result is clamped to the range. -/
def asInt64 : Int :=
  if number.isNan then 0
  else if !number.isFinite then
    if number.isSignNegative then -2 ^ 63 else 2 ^ 63 - 1
  else max (-2 ^ 63) (min (2 ^ 63 - 1) number.whole)

def twoPow63 : Binary64 := ⟨0x43E0000000000000⟩

def negTwoPow63 : Binary64 := ⟨0xC3E0000000000000⟩

/-- `f64::add`, rounded by the runtime. -/
def add : Binary64 :=
  ⟨(Float.ofBits left.bits + Float.ofBits right.bits).toBits⟩

/-- `i64 as f64`, rounded by the runtime. -/
def ofInt64 (integer : Int64) : Binary64 := ⟨integer.toFloat.toBits⟩

end Binary64
end Firenook
