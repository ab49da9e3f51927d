import SqlCompose.Calendar.Date
import SqlCompose.Toml.Value

/-!
Scalars of TOML that stand without quotation marks: truth values, integers in four bases, floating
point numbers, dates and times. Underscores may separate digits; a decimal integer part has no
superfluous zeros and only it may carry a sign.

A scalar is recognized first and evaluated second. Recognition looks at the first digits, at the
marks of a fraction, an exponent, a date or a time, and at what surrounds the underscores. So a
number may be recognized that has no value, such as a base without digits, digits that go on in
letters after an underscore, or a number out of range: it is `unreadable`, which only matters
where the value is asked for.
-/

set_option autoImplicit false
set_option relaxedAutoImplicit false

namespace SqlCompose.Toml

/-! ### Numbers -/

/-- Every underscore is followed by a digit and comes after a digit, or first where that is
allowed. -/
def isGrouped (isDigit : Char → Bool) (first : Bool) : List Char → Bool
  | [] => true
  | '_' :: next :: rest => first && isDigit next && isGrouped isDigit true rest
  | c :: rest => c != '_' && isGrouped isDigit (isDigit c) rest

/-- The digits of a run without its underscores. -/
def ungrouped (text : List Char) : List Char :=
  text.filter (· != '_')

/-- An integer, unless it needs more than 128 bits. -/
def ofInteger (value : Int) : Toml :=
  if -(twoTo 127 : Int) ≤ value ∧ value < twoTo 128 then integer value else unreadable

/-- A hexadecimal digit of either case. -/
def isHexDigit (c : Char) : Bool :=
  (Text.hexDigit? c).isSome

/-- An integer in another base after its mark. It has no value without digits. -/
def basedInteger? (base : Nat) (text : List Char) : Option Toml :=
  let digits := ungrouped text
  if digits.all (fun c ↦ (Text.hexDigit? c).any (· < base)) && isGrouped isHexDigit false text then
    some (if digits.isEmpty then unreadable
      else ofInteger (Text.valueOf base (digits.filterMap Text.hexDigit?)))
  else none

/-- A decimal integer after its sign. It has no value if anything but digits follows an
underscore. -/
def decimalInteger? (signed negative : Bool) (text : List Char) : Option Toml :=
  if text.isEmpty || text.head? == some '0' && text.length != 1 ||
      !isGrouped isHexDigit signed text then none
  else
    let digits := ungrouped text
    let magnitude : Int := Text.decimalValue digits
    some (if digits.all Char.isDigit then ofInteger (if negative then -magnitude else magnitude)
      else unreadable)

/-- The double nearest to a decimal number, unless that is beyond the range. Exponents so large or
small that the digits do not matter are settled without computing the power. -/
def ofDecimalFloat (negative : Bool) (digits : List Char) (exponent : Int) : Toml :=
  let coefficient := Text.decimalValue digits
  let size := (digits.length : Int) + exponent
  let value :=
    if coefficient = 0 || size < -400 then Binary64.ofFraction negative 0 1
    else if 400 < exponent then Binary64.infinity
    else Binary64.ofFraction negative (coefficient * tenTo exponent.toNat) (tenTo (-exponent).toNat)
  if value.isFinite then float value else unreadable

/-- Digits and underscores at the start of a text, and what follows them. There is at least one
digit. -/
def digitRun? (text : List Char) : Option (List Char × List Char) :=
  let run := text.takeWhile fun c ↦ c.isDigit || c == '_'
  if (ungrouped run).isEmpty then none else some (run, text.drop run.length)

/-- The decimals of a number, none if there is no point, and what follows them. -/
def decimals? : List Char → Option (List Char × List Char)
  | '.' :: text => (digitRun? text).map fun (run, rest) ↦ (ungrouped run, rest)
  | text => some ([], text)

/-- The exponent at the end of a number, zero if there is none. -/
def exponent? : List Char → Option Int
  | [] => some 0
  | mark :: text => do
    let (negative, start) := Text.splitSign text
    let (run, rest) ← digitRun? start
    let value : Int := Text.decimalValue (ungrouped run)
    if (mark == 'e' || mark == 'E') && rest.isEmpty then some (if negative then -value else value)
    else none

/-- A decimal number with a fraction or an exponent, after its sign. -/
def decimalFloat? (signed negative : Bool) (text : List Char) : Option Toml := do
  let (whole, rest) ← digitRun? text
  let (decimals, rest) ← decimals? rest
  let exponent ← exponent? rest
  let digits := ungrouped whole
  if whole.head? == some '0' && digits.length != 1 || !isGrouped Char.isDigit signed text then none
  else some (ofDecimalFloat negative (digits ++ decimals) (exponent - decimals.length))

/-- A decimal number after its sign. After the first digits nothing else follows, or an underscore
that continues an integer, or a fraction or an exponent is to come. -/
def decimalNumber? (signed negative : Bool) (text : List Char) : Option Toml :=
  let rest := text.dropWhile Char.isDigit
  if text = "inf".toList then some (float (Binary64.infinity.withSign negative))
  else if text = "nan".toList then some (float (Binary64.nan.withSign negative))
  else if rest.contains ' ' then none
  else if rest.any (fun c ↦ c == '.' || c == 'e' || c == 'E') then
    decimalFloat? signed negative text
  else if rest.head?.all (· == '_') then decimalInteger? signed negative text
  else none

/-- A number in any notation. -/
def number? : List Char → Option Toml
  | '0' :: 'x' :: digits => basedInteger? 16 digits
  | '0' :: 'o' :: digits => basedInteger? 8 digits
  | '0' :: 'b' :: digits => basedInteger? 2 digits
  | '+' :: text => decimalNumber? true false text
  | '-' :: text => decimalNumber? true true text
  | text => decimalNumber? false false text

/-! ### Dates and times -/

/-- A number of exactly two digits with an upper bound. -/
def twoDigits? (bound : Nat) : List Char → Option (List Char)
  | first :: second :: rest =>
    if first.isDigit && second.isDigit && Text.decimalValue [first, second] ≤ bound then some rest
    else none
  | _ => none

/-- A mark. -/
def mark? (mark : Char) : List Char → Option (List Char)
  | c :: rest => if c = mark then some rest else none
  | [] => none

/-- Seconds and their fraction, if the text continues with a colon. -/
def seconds? : List Char → Option (List Char)
  | ':' :: text => do
    match ← twoDigits? 60 text with
    | '.' :: fraction =>
      let (digits, rest) := Text.spanDigits fraction
      if digits.isEmpty then none else some rest
    | rest => some rest
  | text => some text

/-- What follows a time of day. -/
def timeOfDay? (text : List Char) : Option (List Char) := do
  seconds? (← twoDigits? 59 (← mark? ':' (← twoDigits? 23 text)))

/-- What follows a date that exists. -/
def date? : List Char → Option (List Char)
  | a :: b :: c :: d :: '-' :: e :: f :: '-' :: g :: h :: rest =>
    if [a, b, c, d, e, f, g, h].all Char.isDigit &&
        (Date.ofParts? (Text.decimalValue [a, b, c, d]) (Text.decimalValue [e, f])
          (Text.decimalValue [g, h])).isSome
    then some rest
    else none
  | _ => none

/-- Nothing, or an offset from universal time. -/
def isOffset : List Char → Bool
  | [] => true
  | ['Z'] | ['z'] => true
  | '+' :: text | '-' :: text =>
    ((twoDigits? 23 text).bind (mark? ':')).bind (twoDigits? 59) == some []
  | _ => false

/-- A date, a time or a date with a time and possibly an offset. -/
def isDateTime (text : List Char) : Bool :=
  match date? text with
  | none => timeOfDay? text == some []
  | some [] => true
  | some (c :: time) => (c == 'T' || c == 't' || c == ' ') && (timeOfDay? time).any isOffset

/-- The value of an unquoted scalar. -/
def scalar? (text : List Char) : Option Toml :=
  if text = "true".toList then some (boolean true)
  else if text = "false".toList then some (boolean false)
  else if isDateTime text then some (dateTime (String.ofList text))
  else number? text

end SqlCompose.Toml
