import SqlCompose.Calendar.Date
import SqlCompose.Calendar.TimeOfDay

/-!
A date together with a time of day. The two halves are separated by a `T` where timestamps are
exchanged and by a space inside statements; reading accepts the `T` only and asks for seconds.
-/

set_option autoImplicit false
set_option relaxedAutoImplicit false

namespace SqlCompose

/-- A moment without time zone. -/
structure Timestamp where
  date : Date
  time : TimeOfDay
deriving DecidableEq, Repr

namespace Timestamp

/-- Date and time with the given mark between them. -/
def text (separator : Char) (timestamp : Timestamp) : List Char :=
  timestamp.date.text ++ separator :: timestamp.time.text

/-- A text that is a timestamp and nothing else. -/
def ofText? (text : List Char) : Option Timestamp := do
  let (date, text) ← Date.scan? text
  let text ← Calendar.mark? 'T' text
  let (time, rest) ← TimeOfDay.scan? text
  if (Calendar.skipBlank rest).isEmpty then some ⟨date, time⟩ else none

end Timestamp

end SqlCompose
