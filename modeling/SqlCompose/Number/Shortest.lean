import SqlCompose.Number.Binary64

/-!
The fewest decimal digits that identify a double. Every double is the nearest one to an interval of
real numbers around it, which includes its two ends exactly when the significand is even. The digits
chosen are those of the coarsest decimal grid with a point in that interval, and of the two grid
points next to the number the nearer one; which of two equally near points is taken is left to the
format that asks. The search is in exact integer arithmetic.
-/

set_option autoImplicit false
set_option relaxedAutoImplicit false

namespace SqlCompose

/-- What becomes of a number that lies exactly halfway between two candidates. -/
inductive TieRule
  /-- The candidate with the even last digit. -/
  | toEven
  /-- The larger candidate. -/
  | upward
deriving DecidableEq, Repr

/-- The number `coefficient * 10 ^ exponent`. -/
structure DecimalDigits where
  coefficient : Nat
  exponent : Int
deriving DecidableEq, Repr

namespace Binary64

/-- The interval of reals that round to a number, measured in some common unit. -/
structure Neighbourhood where
  low : Nat
  centre : Nat
  high : Nat
  closed : Bool

/-- Membership of a point in the interval. -/
def Neighbourhood.contains (interval : Neighbourhood) (point : Nat) : Bool :=
  if interval.closed then interval.low ≤ point && point ≤ interval.high
  else interval.low < point && point < interval.high

/-- The multiple of `step` in the interval that is nearest to its centre, counted in steps. -/
def Neighbourhood.nearestMultiple (interval : Neighbourhood) (tie : TieRule) (step : Nat) :
    Option Nat :=
  let below := interval.centre / step
  let doubledRest := 2 * (interval.centre % step)
  match interval.contains (below * step), interval.contains ((below + 1) * step) with
  | false, false => none
  | true, false => some below
  | false, true => some (below + 1)
  | true, true =>
    if doubledRest < step then some below
    else if step < doubledRest then some (below + 1)
    else match tie with
      | .toEven => some (below + below % 2)
      | .upward => some (below + 1)

/-- The interval of a finite double in units of a quarter of its last place, multiplied by
`unit`. Below a power of two the doubles lie twice as dense, so there the lower half is shorter. -/
def neighbourhood (x : Binary64) (unit : Nat) : Neighbourhood :=
  let lowerGap := if x.fraction = 0 ∧ 1 < x.biasedExponent then 1 else 2
  { low := (4 * x.significand - lowerGap) * unit
    centre := 4 * x.significand * unit
    high := (4 * x.significand + 2) * unit
    closed := x.significand % 2 == 0 }

/-- The place of the leading digit: `10 ^ leadingPlace` is the largest power of ten that does not
exceed the magnitude. -/
def leadingPlace (x : Binary64) : Int :=
  if x.denominator ≤ x.numerator then
    (Text.digitCount (x.numerator / x.denominator) : Int) - 1
  else
    -(Text.digitCount ((x.denominator - 1) / x.numerator) : Int)

/-- The candidate on the grid of multiples of `10 ^ place`. -/
def digitsAtPlace (tie : TieRule) (x : Binary64) (place : Int) : Option DecimalDigits :=
  let quarter := x.power - 2
  let interval := x.neighbourhood (twoTo quarter.toNat * tenTo (-place).toNat)
  let step := tenTo place.toNat * twoTo (-quarter).toNat
  (interval.nearestMultiple tie step).map fun coefficient ↦ ⟨coefficient, place⟩

/-- The shortest digits of a finite double that is not zero: the first grid, from coarse to fine,
with a point in the interval. Seventeen digits are always enough. -/
def shortestDigits (tie : TieRule) (x : Binary64) : DecimalDigits :=
  let found := (List.range 17).findSome? fun (further : Nat) ↦
    digitsAtPlace tie x (x.leadingPlace - further)
  match found with
  | none => ⟨0, 0⟩
  | some digits =>
    if digits.coefficient = 10 then ⟨1, digits.exponent + 1⟩ else digits

end Binary64

end SqlCompose
