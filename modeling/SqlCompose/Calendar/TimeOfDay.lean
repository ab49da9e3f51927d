import SqlCompose.Calendar.Scan
import SqlCompose.Number.Power

/-!
Times of day to the nanosecond. A leap second is held as the second before it with a thousand
million or more nanoseconds, and is written as the second after that: at the end of a minute as
second 60, inside a minute like the ordinary second that follows. Times are put together from parts
and read from texts with leap seconds at the end of a minute only. The fraction of a second is
written with three, six or nine digits, the fewest that are exact, and not at all when it is zero.
-/

set_option autoImplicit false
set_option relaxedAutoImplicit false

namespace SqlCompose

/-- A thousand million, the number of nanoseconds in a second. -/
def nanosecondsPerSecond : Nat := 1000000000

/-- A time of day. -/
structure TimeOfDay where
  hour : Nat
  minute : Nat
  second : Nat
  nanosecond : Nat
  hour_lt : hour < 24
  minute_lt : minute < 60
  second_lt : second < 60
  nanosecond_lt : nanosecond < 2 * nanosecondsPerSecond
deriving DecidableEq, Repr

namespace TimeOfDay

/-- The time of day with the given parts, if there is one; a leap second has to end a minute. -/
def ofParts? (hour minute second nanosecond : Nat) : Option TimeOfDay :=
  if h : hour < 24 ∧ minute < 60 ∧ second < 60 ∧ nanosecond < 2 * nanosecondsPerSecond ∧
      (nanosecondsPerSecond ≤ nanosecond → second = 59) then
    some ⟨hour, minute, second, nanosecond, h.1, h.2.1, h.2.2.1, h.2.2.2.1⟩
  else none

/-- The fraction of a second, with its point. -/
def fractionText (nanosecond : Nat) : List Char :=
  if nanosecond = 0 then []
  else if nanosecond % 1000000 = 0 then '.' :: Text.padded 3 (nanosecond / 1000000)
  else if nanosecond % 1000 = 0 then '.' :: Text.padded 6 (nanosecond / 1000)
  else '.' :: Text.padded 9 nanosecond

/-- The written form of a time of day. -/
def text (time : TimeOfDay) : List Char :=
  let second := time.second + time.nanosecond / nanosecondsPerSecond
  Text.padded 2 time.hour ++ ':' :: (Text.padded 2 time.minute ++ ':' :: (Text.padded 2 second ++
    fractionText (time.nanosecond % nanosecondsPerSecond)))

/-- The nanoseconds that the digits after a point denote; digits after the ninth are cut off. -/
def nanosecondsOf (digits : List Char) : Nat :=
  let kept := digits.take 9
  Text.decimalValue kept * tenTo (9 - kept.length)

/-- A fraction of a second at the front of a text; without a point it is zero. -/
def scanFraction? : List Char → Option (Nat × List Char)
  | '.' :: text =>
    let (digits, rest) := Text.spanDigits text
    if digits.isEmpty then none else some (nanosecondsOf digits, rest)
  | text => some (0, text)

/-- The time with a second that was written as 0 to 60, where 60 is a leap second. -/
def ofWrittenParts? (hour minute second nanosecond : Nat) : Option TimeOfDay :=
  if second = 60 then ofParts? hour minute 59 (nanosecond + nanosecondsPerSecond)
  else ofParts? hour minute second nanosecond

/-- Hours and minutes at the front of a text. -/
def scanMinutes? (text : List Char) : Option (Nat × Nat × List Char) := do
  let (hour, text) ← Calendar.number? 2 text
  let text ← Calendar.mark? ':' text
  let (minute, text) ← Calendar.number? 2 text
  pure (hour, minute, text)

/-- A colon, seconds and their fraction at the front of a text. -/
def scanSeconds? (text : List Char) : Option (Nat × Nat × List Char) := do
  let text ← Calendar.mark? ':' text
  let (second, text) ← Calendar.number? 2 text
  let (nanosecond, text) ← scanFraction? text
  pure (second, nanosecond, text)

/-- A time of day with seconds at the front of a text. -/
def scan? (text : List Char) : Option (TimeOfDay × List Char) := do
  let (hour, minute, text) ← scanMinutes? text
  let (second, nanosecond, text) ← scanSeconds? text
  let time ← ofWrittenParts? hour minute second nanosecond
  pure (time, text)

/-- A text that is a time of day, with or without seconds, and nothing else. -/
def ofText? (text : List Char) : Option TimeOfDay := do
  let (hour, minute, rest) ← scanMinutes? text
  if (Calendar.skipBlank rest).isEmpty then ofParts? hour minute 0 0
  else
    let (second, nanosecond, rest) ← scanSeconds? rest
    if (Calendar.skipBlank rest).isEmpty then ofWrittenParts? hour minute second nanosecond
    else none

end TimeOfDay

end SqlCompose
