import SqlCompose.Calendar.Scan

/-!
Days of the proleptic Gregorian calendar. A date is a year, a month and a day that exist together;
years run from -262143 to 262142. It is written `YYYY-MM-DD`, with an explicit sign on years that
four digits without sign cannot express.
-/

set_option autoImplicit false
set_option relaxedAutoImplicit false

namespace SqlCompose

/-- Years divisible by four, except centuries not divisible by four hundred. -/
def isLeapYear (year : Int) : Bool :=
  year % 4 == 0 && (year % 100 != 0 || year % 400 == 0)

/-- The number of days of a month; no days for a month that does not exist. -/
def daysInMonth (year : Int) (month : Nat) : Nat :=
  match month with
  | 1 | 3 | 5 | 7 | 8 | 10 | 12 => 31
  | 4 | 6 | 9 | 11 => 30
  | 2 => if isLeapYear year then 29 else 28
  | _ => 0

/-- A day of the calendar. -/
structure Date where
  year : Int
  month : Nat
  day : Nat
  year_ge : -262143 ≤ year
  year_le : year ≤ 262142
  day_pos : 1 ≤ day
  day_le : day ≤ daysInMonth year month
deriving DecidableEq, Repr

namespace Date

/-- The date with the given parts, if there is one. -/
def ofParts? (year : Int) (month day : Nat) : Option Date :=
  if h : -262143 ≤ year ∧ year ≤ 262142 ∧ 1 ≤ day ∧ day ≤ daysInMonth year month then
    some ⟨year, month, day, h.1, h.2.1, h.2.2.1, h.2.2.2⟩
  else none

/-- Four digits for the years 0 to 9999; any other year has a sign and at least four digits. -/
def yearText (year : Int) : List Char :=
  if 0 ≤ year ∧ year ≤ 9999 then Text.padded 4 year.toNat
  else (if year < 0 then '-' else '+') :: Text.padded 4 year.natAbs

/-- The written form of a date. -/
def text (date : Date) : List Char :=
  yearText date.year ++ '-' :: (Text.padded 2 date.month ++ '-' :: Text.padded 2 date.day)

/-- A date at the front of a text, and what follows it. -/
def scan? (text : List Char) : Option (Date × List Char) := do
  let (year, text) ← Calendar.signedNumber? 4 text
  let text ← Calendar.mark? '-' text
  let (month, text) ← Calendar.number? 2 text
  let text ← Calendar.mark? '-' text
  let (day, text) ← Calendar.number? 2 text
  let date ← ofParts? year month day
  pure (date, text)

/-- A text that is a date and nothing else. -/
def ofText? (text : List Char) : Option Date := do
  let (date, rest) ← scan? text
  if (Calendar.skipBlank rest).isEmpty then some date else none

end Date

end SqlCompose
