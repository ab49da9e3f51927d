import SqlCompose.Text.Digits

/-!
Spans of time as six independent components. No component is carried into another, and each may be
negative on its own.
-/

set_option autoImplicit false
set_option relaxedAutoImplicit false

namespace SqlCompose

/-- A span of years, months, days, hours, minutes and seconds. -/
structure Interval where
  years : Int32 := 0
  months : Int32 := 0
  days : Int32 := 0
  hours : Int32 := 0
  minutes : Int32 := 0
  seconds : Int32 := 0
deriving DecidableEq, Repr

/-- The span in the alternative format of ISO 8601, `P` date `T` time, with unpadded components. -/
def Interval.text (interval : Interval) : List Char :=
  let component := fun (value : Int32) ↦ Text.signedDecimal value.toInt
  'P' :: (component interval.years ++ '-' :: (component interval.months ++ '-' ::
    (component interval.days ++ 'T' :: (component interval.hours ++ ':' ::
      (component interval.minutes ++ ':' :: component interval.seconds)))))

end SqlCompose
