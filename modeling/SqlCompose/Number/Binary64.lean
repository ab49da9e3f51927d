import SqlCompose.Number.Power
import SqlCompose.Text.Digits

/-!
Double-precision numbers as bit patterns. A pattern consists of a sign bit, eleven exponent bits
and fifty-two fraction bits, and a finite one denotes the rational number
`significand * 2 ^ power` with its sign. All arithmetic here is on that exact rational: a quotient
of natural numbers is rounded once, to the nearest double and to the even one of two equally near,
so the results are those of correctly rounded hardware arithmetic without any appeal to it.
-/

set_option autoImplicit false
set_option relaxedAutoImplicit false

namespace SqlCompose

/-- A double-precision number, given by its sixty-four bits. -/
structure Binary64 where
  bits : UInt64
deriving DecidableEq, Repr, Inhabited

namespace Binary64

/-! ### The parts of a bit pattern -/

/-- The sign bit; it also tells `-0.0` from `0.0`. -/
def isNegative (x : Binary64) : Bool :=
  decide (twoTo 63 ≤ x.bits.toNat)

/-- The eleven exponent bits as a number. -/
def biasedExponent (x : Binary64) : Nat :=
  x.bits.toNat / twoTo 52 % twoTo 11

/-- The fifty-two fraction bits as a number. -/
def fraction (x : Binary64) : Nat :=
  x.bits.toNat % twoTo 52

/-- The positive infinity. -/
def infinity : Binary64 := ⟨0x7ff0000000000000⟩

/-- The positive quiet NaN without payload. -/
def nan : Binary64 := ⟨0x7ff8000000000000⟩

/-- Neither an infinity nor a NaN. -/
def isFinite (x : Binary64) : Bool :=
  x.biasedExponent != 2047

/-- The pattern denotes no number at all. -/
def isNaN (x : Binary64) : Bool :=
  x.biasedExponent == 2047 && x.fraction != 0

/-- The integer part of the magnitude's representation: the fraction bits, preceded by an implicit
one bit unless the number is subnormal. -/
def significand (x : Binary64) : Nat :=
  if x.biasedExponent = 0 then x.fraction else twoTo 52 + x.fraction

/-- The power of two that multiplies the significand. -/
def power (x : Binary64) : Int :=
  if x.biasedExponent = 0 then -1074 else (x.biasedExponent : Int) - 1075

/-- Both zeros. -/
def isZero (x : Binary64) : Bool :=
  x.isFinite && x.significand == 0

/-- The magnitude as a fraction of natural numbers. -/
def numerator (x : Binary64) : Nat :=
  x.significand * twoTo x.power.toNat

/-- The denominator that goes with `numerator`. -/
def denominator (x : Binary64) : Nat :=
  twoTo (-x.power).toNat

/-! ### Rounding a fraction to a double -/

/-- The integer nearest to a quotient; of two equally near integers the even one. -/
def nearestQuotient (dividend divisor : Nat) : Nat :=
  let quotient := dividend / divisor
  let doubledRest := 2 * (dividend % divisor)
  if doubledRest < divisor then quotient
  else if divisor < doubledRest then quotient + 1
  else quotient + quotient % 2

/-- A fraction divided by a power of two, again as a fraction. -/
def dividedByPower (numerator denominator : Nat) (power : Int) : Nat × Nat :=
  (numerator * twoTo (-power).toNat, denominator * twoTo power.toNat)

/-- The power of two whose multiples the doubles near the given fraction are: the fraction lies
between `2 ^ 52` and `2 ^ 53` of these units, unless it is too small for that. -/
def unitPower (numerator denominator : Nat) : Int :=
  let estimate : Int := (numerator.log2 : Int) - (denominator.log2 : Int) - 52
  let (dividend, divisor) := dividedByPower numerator denominator estimate
  max (-1074) (if twoTo 52 * divisor ≤ dividend then estimate else estimate - 1)

/-- The bits below the sign bit of the double nearest to a fraction, an infinity when the fraction
is beyond the largest finite double. Counting units in the exponent field makes a significand that
was rounded up to `2 ^ 53` carry into the next exponent by itself. -/
def magnitudeBits (numerator denominator : Nat) : Nat :=
  if numerator = 0 then 0
  else
    let power := unitPower numerator denominator
    let (dividend, divisor) := dividedByPower numerator denominator power
    min (2047 * twoTo 52) ((power + 1074).toNat * twoTo 52 + nearestQuotient dividend divisor)

/-- The double nearest to a fraction, with the given sign. -/
def ofFraction (negative : Bool) (numerator denominator : Nat) : Binary64 :=
  ⟨UInt64.ofNat ((if negative then twoTo 63 else 0) + magnitudeBits numerator denominator)⟩

/-- The double nearest to an integer. -/
def ofInt (number : Int) : Binary64 :=
  ofFraction (decide (number < 0)) number.natAbs 1

/-- The double nearest to `10 ^ exponent`. -/
def powerOfTen (exponent : Nat) : Binary64 :=
  ofFraction false (tenTo exponent) 1

/-! ### Arithmetic on magnitudes -/

/-- The rounded product of two finite magnitudes, without sign. -/
def product (x y : Binary64) : Binary64 :=
  ofFraction false (x.numerator * y.numerator) (x.denominator * y.denominator)

/-- The rounded quotient of two finite magnitudes, without sign. -/
def quotient (x y : Binary64) : Binary64 :=
  ofFraction false (x.numerator * y.denominator) (x.denominator * y.numerator)

/-- The same magnitude with the given sign. -/
def withSign (negative : Bool) (x : Binary64) : Binary64 :=
  ⟨UInt64.ofNat ((if negative then twoTo 63 else 0) + x.bits.toNat % twoTo 63)⟩

end Binary64

end SqlCompose
