import SqlCompose.Number.Layout
import Mathlib.Algebra.Order.Field.Power
import Mathlib.Algebra.Order.Ring.Rat
import Mathlib.Order.Monotone.Basic
import Mathlib.Tactic.Linarith
import Mathlib.Tactic.Positivity
import Mathlib.Tactic.Ring

/-!
Which numbers round to a double. Without their signs the doubles are ordered as their bits, so each
has a rank, and the interval of numbers that round to the doubles of a rank ends where that of the
next rank begins (`upperEnd_eq_lowerEnd_succ`). An end belongs to the interval with the even
significand, and ranks and significands are even together; hence no number rounds to two ranks
(`RoundsTo.rank_eq`).

The shortest digits of a double denote a number that rounds to it (`roundsTo_shortestDigits`). That
digits are found at all rests on the width of the interval: with seventeen places the grid is finer
than that.
-/

set_option autoImplicit false
set_option relaxedAutoImplicit false

namespace SqlCompose

/-! ### Powers as rational numbers -/

theorem cast_twoTo (exponent : Nat) : ((twoTo exponent : Nat) : ℚ) = 2 ^ exponent := by
  change ((2 ^ exponent : Nat) : ℚ) = 2 ^ exponent
  push_cast
  rfl

theorem cast_tenTo (exponent : Nat) : ((tenTo exponent : Nat) : ℚ) = 10 ^ exponent := by
  change ((10 ^ exponent : Nat) : ℚ) = 10 ^ exponent
  push_cast
  rfl

/-- A power is a fraction of powers with natural exponents. -/
theorem zpow_mul_pow_toNat {base : ℚ} (hbase : base ≠ 0) (exponent : Int) :
    base ^ exponent * base ^ (-exponent).toNat = base ^ exponent.toNat := by
  rw [← zpow_natCast, ← zpow_natCast, ← zpow_add₀ hbase]
  congr 1
  omega

namespace Binary64

/-! ### Ranks -/

/-- The place of a double in the order of magnitudes, which is given by its bits below the sign. -/
def rank (x : Binary64) : Nat :=
  x.bits.toNat % twoTo 63

/-- The significand of the doubles of a rank. -/
def significandAt (rank : Nat) : Nat :=
  if rank / twoTo 52 = 0 then rank % twoTo 52 else twoTo 52 + rank % twoTo 52

/-- The power of two that multiplies the significand of the doubles of a rank. -/
def powerAt (rank : Nat) : Int :=
  if rank / twoTo 52 = 0 then -1074 else ((rank / twoTo 52 : Nat) : Int) - 1075

/-- How far the interval of a rank extends below, in quarters of a last place. -/
def lowerGapAt (rank : Nat) : Nat :=
  if rank % twoTo 52 = 0 ∧ 1 < rank / twoTo 52 then 1 else 2

/-- The lower end of the interval of a rank. -/
def lowerEnd (rank : Nat) : ℚ :=
  (4 * significandAt rank - lowerGapAt rank) * 2 ^ (powerAt rank - 2)

/-- The upper end of the interval of a rank. -/
def upperEnd (rank : Nat) : ℚ :=
  (4 * significandAt rank + 2) * 2 ^ (powerAt rank - 2)

/-- A number rounds to the doubles of a rank: it is in their interval, which includes its ends
exactly when the significand is even. -/
def RoundsTo (number : ℚ) (rank : Nat) : Prop :=
  if significandAt rank % 2 = 0 then lowerEnd rank ≤ number ∧ number ≤ upperEnd rank
  else lowerEnd rank < number ∧ number < upperEnd rank

theorem biasedExponent_eq (x : Binary64) : x.biasedExponent = x.rank / twoTo 52 := by
  have hbits := x.bits.toNat_lt
  change x.bits.toNat / 4503599627370496 % 2048 =
    x.bits.toNat % 9223372036854775808 / 4503599627370496
  omega

theorem fraction_eq (x : Binary64) : x.fraction = x.rank % twoTo 52 := by
  change x.bits.toNat % 4503599627370496 = x.bits.toNat % 9223372036854775808 % 4503599627370496
  omega

theorem significand_eq (x : Binary64) : x.significand = significandAt x.rank := by
  rw [significand, significandAt, biasedExponent_eq, fraction_eq]

theorem power_eq (x : Binary64) : x.power = powerAt x.rank := by
  rw [power, powerAt, biasedExponent_eq]

/-- Sign and rank are all of a double. -/
theorem eq_of_rank_eq {x y : Binary64} (hsign : x.isNegative = y.isNegative)
    (hrank : x.rank = y.rank) : x = y := by
  have hbits := x.bits.toNat_lt
  have hbits' := y.bits.toNat_lt
  have hhalf : twoTo 63 = 9223372036854775808 := rfl
  unfold isNegative at hsign
  unfold rank at hrank
  rw [hhalf] at hsign hrank
  rw [decide_eq_decide] at hsign
  have hequal : x.bits.toNat = y.bits.toNat := by omega
  exact congrArg Binary64.mk (UInt64.toNat_inj.mp hequal)

/-- The significand is even together with the rank. -/
theorem significandAt_mod_two (rank : Nat) : significandAt rank % 2 = rank % 2 := by
  have hunit : twoTo 52 = 4503599627370496 := rfl
  unfold significandAt
  rw [hunit]
  split <;> omega

/-! ### Intervals of successive ranks -/

/-- The interval of a rank ends where that of the next rank begins. Behind a full fraction the next
rank has the next exponent and an empty fraction. -/
theorem upperEnd_eq_lowerEnd_succ (rank : Nat) : upperEnd rank = lowerEnd (rank + 1) := by
  have hunit : twoTo 52 = 4503599627370496 := rfl
  unfold upperEnd lowerEnd significandAt powerAt lowerGapAt
  rw [hunit]
  by_cases hlast : rank % 4503599627370496 = 4503599627370495
  · have hfraction : (rank + 1) % 4503599627370496 = 0 := by omega
    have hexponent : (rank + 1) / 4503599627370496 = rank / 4503599627370496 + 1 := by omega
    rw [hfraction, hexponent, hlast]
    by_cases hzero : rank / 4503599627370496 = 0
    · rw [hzero]
      norm_num
    · have hgap : 1 < rank / 4503599627370496 + 1 := by omega
      have hpower : ((rank / 4503599627370496 + 1 : Nat) : Int) - 1075 - 2 =
          (rank / 4503599627370496 : Nat) - 1075 - 2 + 1 := by omega
      rw [if_neg hzero, if_neg hzero, if_neg (Nat.succ_ne_zero _), if_neg (Nat.succ_ne_zero _),
        if_pos ⟨rfl, hgap⟩, hpower, zpow_add_one₀ (by norm_num)]
      push_cast
      ring
  · have hfraction : (rank + 1) % 4503599627370496 = rank % 4503599627370496 + 1 := by omega
    have hexponent : (rank + 1) / 4503599627370496 = rank / 4503599627370496 := by omega
    have hgap : ¬(rank % 4503599627370496 + 1 = 0 ∧ 1 < rank / 4503599627370496) := by omega
    rw [hfraction, hexponent, if_neg hgap]
    congr 1
    split <;> push_cast <;> ring

theorem lowerEnd_lt_upperEnd (rank : Nat) : lowerEnd rank < upperEnd rank := by
  refine mul_lt_mul_of_pos_right ?_ (by positivity)
  have hgap : (0 : ℚ) ≤ lowerGapAt rank := Nat.cast_nonneg _
  linarith

theorem strictMono_lowerEnd : StrictMono lowerEnd :=
  strictMono_nat_of_lt_succ fun rank ↦
    upperEnd_eq_lowerEnd_succ rank ▸ lowerEnd_lt_upperEnd rank

theorem RoundsTo.bounds {number : ℚ} {rank : Nat} (hnumber : RoundsTo number rank) :
    lowerEnd rank ≤ number ∧ number ≤ upperEnd rank := by
  unfold RoundsTo at hnumber
  split at hnumber
  · exact hnumber
  · exact ⟨hnumber.1.le, hnumber.2.le⟩

/-- An end of the interval rounds to an even rank only. -/
theorem RoundsTo.even_of_eq {number : ℚ} {rank : Nat} (hnumber : RoundsTo number rank)
    (hend : number = lowerEnd rank ∨ number = upperEnd rank) : rank % 2 = 0 := by
  rw [← significandAt_mod_two]
  by_contra hodd
  rw [RoundsTo, if_neg hodd] at hnumber
  rcases hend with rfl | rfl
  · exact lt_irrefl _ hnumber.1
  · exact lt_irrefl _ hnumber.2

/-- A number that rounds to a rank does not round to a higher one: it would be an end of both
intervals, so the ranks would be neighbours and both would have to be even. -/
theorem RoundsTo.rank_le {number : ℚ} {rank other : Nat} (hnumber : RoundsTo number rank)
    (hother : RoundsTo number other) : other ≤ rank := by
  by_contra hle
  have hlt : rank < other := not_le.mp hle
  have hupper : number ≤ lowerEnd (rank + 1) :=
    upperEnd_eq_lowerEnd_succ rank ▸ hnumber.bounds.2
  have hsteps : lowerEnd (rank + 1) ≤ lowerEnd other := strictMono_lowerEnd.monotone hlt
  have hlower : lowerEnd other ≤ number := hother.bounds.1
  have hnext : rank + 1 = other := strictMono_lowerEnd.injective (by linarith)
  have heven := hnumber.even_of_eq (Or.inr (by rw [upperEnd_eq_lowerEnd_succ]; linarith))
  have hothereven := hother.even_of_eq (Or.inl (by linarith))
  omega

/-- No number rounds to two ranks. -/
theorem RoundsTo.rank_eq {number : ℚ} {rank other : Nat} (hnumber : RoundsTo number rank)
    (hother : RoundsTo number other) : rank = other :=
  le_antisymm (hother.rank_le hnumber) (hnumber.rank_le hother)

/-! ### Multiples in an interval -/

namespace Neighbourhood

theorem contains_of_nearestMultiple {interval : Neighbourhood} {tie : TieRule}
    {step multiple : Nat} (hfound : interval.nearestMultiple tie step = some multiple) :
    interval.contains (multiple * step) = true := by
  cases hbelow : interval.contains (interval.centre / step * step) <;>
    cases habove : interval.contains ((interval.centre / step + 1) * step) <;>
    simp only [nearestMultiple, hbelow, habove] at hfound
  · cases hfound
  · cases hfound
    exact habove
  · cases hfound
    exact hbelow
  · split_ifs at hfound with hnearer hfurther
    · cases hfound
      exact hbelow
    · cases hfound
      exact habove
    · cases tie with
      | upward =>
        cases hfound
        exact habove
      | toEven =>
        cases hfound
        rcases Nat.mod_two_eq_zero_or_one (interval.centre / step) with heven | hodd
        · rw [heven]
          exact hbelow
        · rw [hodd]
          exact habove

theorem contains_of_between {interval : Neighbourhood} {point : Nat}
    (hlow : interval.low < point) (hhigh : point < interval.high) :
    interval.contains point = true := by
  unfold contains
  split
  · simp [hlow.le, hhigh.le]
  · simp [hlow, hhigh]

/-- An interval that is wider than the step contains one of the two multiples around its
centre. -/
theorem exists_nearestMultiple {interval : Neighbourhood} (tie : TieRule) {step : Nat}
    (hstep : 0 < step) (hlow : interval.low < interval.centre)
    (hhigh : interval.centre < interval.high) (hwide : interval.low + step < interval.high) :
    ∃ multiple, interval.nearestMultiple tie step = some multiple := by
  have hbelow : interval.centre / step * step ≤ interval.centre := Nat.div_mul_le_self _ _
  have habove : interval.centre < (interval.centre / step + 1) * step :=
    Nat.lt_mul_of_div_lt (Nat.lt_succ_self _) hstep
  cases hfirst : interval.contains (interval.centre / step * step) <;>
    cases hsecond : interval.contains ((interval.centre / step + 1) * step) <;>
    simp only [nearestMultiple, hfirst, hsecond]
  · rw [Nat.succ_mul] at habove hsecond
    by_cases hinside : interval.low < interval.centre / step * step
    · rw [contains_of_between hinside (by omega)] at hfirst
      cases hfirst
    · rw [contains_of_between (by omega) (by omega)] at hsecond
      cases hsecond
  · exact ⟨_, rfl⟩
  · exact ⟨_, rfl⟩
  · cases tie <;> split <;> (try split) <;> exact ⟨_, rfl⟩

end Neighbourhood

/-! ### The interval of a double -/

/-- The magnitude of a double as a number. -/
theorem significand_mul_denominator (x : Binary64) :
    (x.significand : ℚ) * 2 ^ x.power * x.denominator = x.numerator := by
  rw [denominator, numerator, Nat.cast_mul, cast_twoTo, cast_twoTo, mul_assoc,
    zpow_mul_pow_toNat (by norm_num)]

/-- The factor by which an interval is scaled for the search among the multiples of
`10 ^ place`. -/
def scaling (x : Binary64) (place : Int) : ℚ :=
  2 ^ (-(x.power - 2)).toNat * 10 ^ (-place).toNat

theorem scaling_pos (x : Binary64) (place : Int) : 0 < x.scaling place := by
  unfold scaling
  positivity

/-- The interval as the search sees it. -/
def scaledNeighbourhood (x : Binary64) (place : Int) : Neighbourhood :=
  x.neighbourhood (twoTo (x.power - 2).toNat * tenTo (-place).toNat)

/-- The distance of two multiples of `10 ^ place` as the search sees it. -/
def scaledStep (x : Binary64) (place : Int) : Nat :=
  tenTo place.toNat * twoTo (-(x.power - 2)).toNat

theorem digitsAtPlace_eq (tie : TieRule) (x : Binary64) (place : Int) :
    digitsAtPlace tie x place =
      ((x.scaledNeighbourhood place).nearestMultiple tie (x.scaledStep place)).map
        fun coefficient ↦ ⟨coefficient, place⟩ := rfl

section Scaled

variable (x : Binary64) (place : Int)

/-- A number of quarters of a last place, scaled. -/
theorem cast_mul_unit (quarters : Nat) :
    ((quarters * (twoTo (x.power - 2).toNat * tenTo (-place).toNat) : Nat) : ℚ) =
      quarters * 2 ^ (x.power - 2) * x.scaling place := by
  rw [Nat.cast_mul, Nat.cast_mul, cast_twoTo, cast_tenTo, scaling,
    ← zpow_mul_pow_toNat (by norm_num : (2 : ℚ) ≠ 0) (x.power - 2)]
  ring

theorem cast_mul_scaledStep (multiple : Nat) :
    ((multiple * x.scaledStep place : Nat) : ℚ) = multiple * 10 ^ place * x.scaling place := by
  rw [Nat.cast_mul, scaledStep, Nat.cast_mul, cast_twoTo, cast_tenTo, scaling,
    ← zpow_mul_pow_toNat (by norm_num : (10 : ℚ) ≠ 0) place]
  ring

theorem lowerGapAt_le (rank : Nat) : lowerGapAt rank ≤ 2 := by
  unfold lowerGapAt
  split <;> decide

theorem cast_low (hsignificand : 0 < x.significand) :
    ((x.scaledNeighbourhood place).low : ℚ) = lowerEnd x.rank * x.scaling place := by
  have hgap := lowerGapAt_le x.rank
  change (((4 * x.significand - if x.fraction = 0 ∧ 1 < x.biasedExponent then 1 else 2) *
    (twoTo (x.power - 2).toNat * tenTo (-place).toNat) : Nat) : ℚ) = _
  rw [cast_mul_unit, lowerEnd, power_eq, fraction_eq, biasedExponent_eq, significand_eq]
  rw [significand_eq] at hsignificand
  change ((4 * significandAt x.rank - lowerGapAt x.rank : Nat) : ℚ) * _ * _ = _
  rw [Nat.cast_sub (by omega)]
  push_cast
  rfl

theorem cast_high :
    ((x.scaledNeighbourhood place).high : ℚ) = upperEnd x.rank * x.scaling place := by
  change (((4 * x.significand + 2) * (twoTo (x.power - 2).toNat * tenTo (-place).toNat) : Nat) : ℚ)
    = _
  rw [cast_mul_unit, upperEnd, power_eq, significand_eq]
  push_cast
  rfl

/-- The search tests whether a multiple of `10 ^ place` rounds to the double. -/
theorem contains_iff_roundsTo (hsignificand : 0 < x.significand) (multiple : Nat) :
    (x.scaledNeighbourhood place).contains (multiple * x.scaledStep place) = true ↔
      RoundsTo (multiple * 10 ^ place) x.rank := by
  have hscaling := x.scaling_pos place
  have hclosed : (x.scaledNeighbourhood place).closed = (significandAt x.rank % 2 == 0) := by
    rw [← significand_eq]
    rfl
  unfold Neighbourhood.contains RoundsTo
  rw [hclosed]
  simp only [beq_iff_eq]
  split
  · rw [Bool.and_eq_true, decide_eq_true_eq, decide_eq_true_eq, ← Nat.cast_le (α := ℚ),
      ← Nat.cast_le (α := ℚ), cast_low x place hsignificand, cast_high, cast_mul_scaledStep,
      mul_le_mul_iff_left₀ hscaling, mul_le_mul_iff_left₀ hscaling]
  · rw [Bool.and_eq_true, decide_eq_true_eq, decide_eq_true_eq, ← Nat.cast_lt (α := ℚ),
      ← Nat.cast_lt (α := ℚ), cast_low x place hsignificand, cast_high, cast_mul_scaledStep,
      mul_lt_mul_iff_left₀ hscaling, mul_lt_mul_iff_left₀ hscaling]

end Scaled

/-! ### Digits are always found -/

theorem lt_tenTo_digitCount (number : Nat) : number < tenTo (Text.digitCount number) := by
  have hpos : 0 < Text.digitCount number := List.length_pos_of_ne_nil Nat.toDigits_ne_nil
  exact (Nat.length_toDigits_le_iff (by decide) hpos).mp le_rfl

theorem tenTo_le_of_digitCount {number count : Nat} (hcount : Text.digitCount number = count + 1)
    (hnumber : 0 < number) : tenTo count ≤ number := by
  by_contra hlt
  rw [not_le] at hlt
  cases count with
  | zero => exact absurd hlt (by simpa [tenTo] using hnumber.ne')
  | succ count =>
    have hle := (Nat.length_toDigits_le_iff (by decide) (Nat.succ_pos count)).mpr hlt
    change Text.digitCount number ≤ count + 1 at hle
    omega

theorem denominator_pos (x : Binary64) : 0 < x.denominator :=
  Nat.pow_pos (by decide)

theorem numerator_pos {x : Binary64} (hsignificand : 0 < x.significand) : 0 < x.numerator :=
  Nat.mul_pos hsignificand (Nat.pow_pos (by decide))

/-- The power of ten at the leading place does not exceed the magnitude. -/
theorem leadingPlace_le {x : Binary64} (hsignificand : 0 < x.significand) :
    (10 : ℚ) ^ x.leadingPlace ≤ x.significand * 2 ^ x.power := by
  have hdenominator : (0 : ℚ) < x.denominator := Nat.cast_pos.mpr x.denominator_pos
  refine le_of_mul_le_mul_right ?_ hdenominator
  rw [significand_mul_denominator]
  unfold leadingPlace
  split_ifs with hle
  · have hquotient : 0 < x.numerator / x.denominator := Nat.div_pos hle x.denominator_pos
    obtain ⟨count, hcount⟩ : ∃ count, Text.digitCount (x.numerator / x.denominator) = count + 1 :=
      ⟨_, (Nat.succ_pred_eq_of_pos (List.length_pos_of_ne_nil Nat.toDigits_ne_nil)).symm⟩
    have hpower : tenTo count * x.denominator ≤ x.numerator :=
      (Nat.le_div_iff_mul_le x.denominator_pos).mp (tenTo_le_of_digitCount hcount hquotient)
    rw [hcount, Nat.cast_add_one, add_sub_cancel_right, zpow_natCast, ← cast_tenTo]
    exact_mod_cast hpower
  · have hpower : x.denominator ≤
        x.numerator * tenTo (Text.digitCount ((x.denominator - 1) / x.numerator)) := by
      have hlt := (Nat.div_lt_iff_lt_mul (numerator_pos hsignificand)).mp
        (lt_tenTo_digitCount ((x.denominator - 1) / x.numerator))
      rw [Nat.mul_comm] at hlt
      omega
    rw [zpow_neg, zpow_natCast, ← cast_tenTo, inv_mul_le_iff₀ (by rw [cast_tenTo]; positivity)]
    rw [mul_comm]
    exact_mod_cast hpower

/-- Seventeen digits are enough: sixteen places below the leading one, the multiples of the power of
ten lie closer together than the ends of the interval. -/
theorem lowerEnd_add_lt_upperEnd {x : Binary64} (hsignificand : 0 < x.significand) :
    lowerEnd x.rank + 10 ^ (x.leadingPlace - 16) < upperEnd x.rank := by
  have hleading := leadingPlace_le hsignificand
  have hplace : (10 : ℚ) ^ x.leadingPlace = 10 ^ (x.leadingPlace - 16) * 10 ^ 16 := by
    rw [← zpow_natCast, ← zpow_add₀ (by norm_num)]
    congr 1
    omega
  have hpower : (2 : ℚ) ^ x.power = 2 ^ (x.power - 2) * 4 := by
    rw [show (4 : ℚ) = 2 ^ (2 : Int) by norm_num, ← zpow_add₀ (by norm_num)]
    congr 1
    omega
  have hquarter : (0 : ℚ) < 2 ^ (x.power - 2) := by positivity
  have hwidth : 4 * significandAt x.rank < (lowerGapAt x.rank + 2) * tenTo 16 := by
    have hunit : twoTo 52 = 4503599627370496 := rfl
    have hten : tenTo 16 = 10000000000000000 := rfl
    unfold significandAt lowerGapAt
    rw [hunit, hten]
    split <;> split <;> omega
  have hwidthRat : (4 * significandAt x.rank : ℚ) < (lowerGapAt x.rank + 2) * 10 ^ 16 := by
    rw [← cast_tenTo]
    exact_mod_cast hwidth
  rw [hplace, hpower, significand_eq] at hleading
  unfold lowerEnd upperEnd
  rw [← power_eq]
  linarith [mul_lt_mul_of_pos_right hwidthRat hquarter]

theorem exists_digitsAtPlace (tie : TieRule) {x : Binary64} (hsignificand : 0 < x.significand) :
    ∃ digits, digitsAtPlace tie x (x.leadingPlace - 16) = some digits := by
  generalize hplace : x.leadingPlace - 16 = place
  have hunit : 0 < twoTo (x.power - 2).toNat * tenTo (-place).toNat :=
    Nat.mul_pos (Nat.pow_pos (by decide)) (Nat.pow_pos (by decide))
  have hstep : 0 < x.scaledStep place :=
    Nat.mul_pos (Nat.pow_pos (by decide)) (Nat.pow_pos (by decide))
  have hlow : (x.scaledNeighbourhood place).low < (x.scaledNeighbourhood place).centre := by
    refine Nat.mul_lt_mul_of_pos_right ?_ hunit
    split <;> omega
  have hhigh : (x.scaledNeighbourhood place).centre < (x.scaledNeighbourhood place).high :=
    Nat.mul_lt_mul_of_pos_right (by omega) hunit
  have hwide : (x.scaledNeighbourhood place).low + x.scaledStep place <
      (x.scaledNeighbourhood place).high := by
    have hends := lowerEnd_add_lt_upperEnd hsignificand
    rw [hplace] at hends
    have hscaled := mul_lt_mul_of_pos_right hends (x.scaling_pos place)
    have hone := cast_mul_scaledStep x place 1
    rw [Nat.one_mul, Nat.cast_one, one_mul] at hone
    rw [add_mul, ← cast_low x place hsignificand, ← hone, ← cast_high] at hscaled
    exact_mod_cast hscaled
  obtain ⟨multiple, hmultiple⟩ := Neighbourhood.exists_nearestMultiple tie hstep hlow hhigh hwide
  exact ⟨_, by rw [digitsAtPlace_eq, hmultiple, Option.map_some]⟩

theorem roundsTo_of_digitsAtPlace {tie : TieRule} {x : Binary64} (hsignificand : 0 < x.significand)
    {place : Int} {digits : DecimalDigits} (hdigits : digitsAtPlace tie x place = some digits) :
    RoundsTo (digits.coefficient * 10 ^ digits.exponent) x.rank := by
  rw [digitsAtPlace_eq, Option.map_eq_some_iff] at hdigits
  obtain ⟨multiple, hmultiple, rfl⟩ := hdigits
  exact (contains_iff_roundsTo x place hsignificand multiple).mp
    (Neighbourhood.contains_of_nearestMultiple hmultiple)

/-- The shortest digits of a double denote a number that rounds to it. -/
theorem roundsTo_shortestDigits (tie : TieRule) {x : Binary64}
    (hsignificand : 0 < x.significand) :
    RoundsTo ((x.shortestDigits tie).coefficient * 10 ^ (x.shortestDigits tie).exponent)
      x.rank := by
  unfold shortestDigits
  simp only
  cases hfound : (List.range 17).findSome? fun (further : Nat) ↦
      digitsAtPlace tie x (x.leadingPlace - further) with
  | none =>
    obtain ⟨digits, hdigits⟩ := exists_digitsAtPlace tie hsignificand
    rw [List.findSome?_eq_none_iff] at hfound
    have hlast := hfound 16 (by simp)
    rw [Nat.cast_ofNat, hdigits] at hlast
    cases hlast
  | some digits =>
    obtain ⟨further, -, hfurther⟩ := List.exists_of_findSome?_eq_some hfound
    have hrounds := roundsTo_of_digitsAtPlace hsignificand hfurther
    simp only
    split_ifs with hten
    · rw [hten] at hrounds
      rwa [zpow_add_one₀ (by norm_num), Nat.cast_one, one_mul, mul_comm]
    · exact hrounds

end Binary64

end SqlCompose
