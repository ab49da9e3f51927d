import SqlCompose.Number.Layout

/-!
Exact decimal numbers of bounded size. A decimal is an integer of at most ninety-six bits divided by
a power of ten with exponent at most twenty-eight; the exponent, its scale, is part of the value, so
`3.50` and `3.5` are two decimals.

Reading takes digits from the left for as long as they fit. The first digit after the point that
does not fit rounds the number, half away from zero, and what follows it may only be more digits; a
digit before the point that does not fit is refused. Zero is read without its sign. `ofText?` also
admits an exponent after a number that could not be read on its own; places that a negative exponent
moves beyond the largest scale are rounded off likewise, and what is left keeps the sign of the
number.
-/

set_option autoImplicit false
set_option relaxedAutoImplicit false

namespace SqlCompose

/-- A signed integer of at most ninety-six bits over a power of ten. -/
structure Decimal where
  negative : Bool
  mantissa : Nat
  scale : Nat
  mantissa_lt : mantissa < twoTo 96
  scale_le : scale ≤ 28
deriving DecidableEq, Repr

namespace Decimal

/-- The decimal with the given sign, mantissa and scale, if they are within the bounds. -/
def ofParts? (negative : Bool) (mantissa scale : Nat) : Option Decimal :=
  if hmantissa : mantissa < twoTo 96 then
    if hscale : scale ≤ 28 then
      some { negative, mantissa, scale, mantissa_lt := hmantissa, scale_le := hscale }
    else none
  else none

/-- The decimal without fraction that equals an integer, if it is within the bounds. -/
def ofInt? (number : Int) : Option Decimal :=
  ofParts? (decide (number < 0)) number.natAbs 0

/-- The sign, the integer part without superfluous zeros and, at a positive scale, a point and
exactly as many digits as the scale says. -/
def text (number : Decimal) : List Char :=
  let digits := Text.padded (number.scale + 1) number.mantissa
  let whole := digits.take (digits.length - number.scale)
  let unsigned := if number.scale = 0 then whole
    else whole ++ '.' :: digits.drop (digits.length - number.scale)
  if number.negative then '-' :: unsigned else unsigned

/-! ### Reading -/

/-- The mantissa and scale after the first digit that does not fit. Rounding up may itself leave
the range, and then costs one more place. -/
def roundedBy (digit mantissa scale : Nat) : Option (Nat × Nat) :=
  if digit < 5 then some (mantissa, scale)
  else if mantissa + 1 < twoTo 96 then some (mantissa + 1, scale)
  else if scale = 0 then none
  else some ((mantissa + 5) / 10, scale - 1)

/-- Mantissa and scale of a number of which a digit does not fit, if nothing but digits and
underscores follows. -/
def stoppedAt (digit mantissa scale : Nat) (rest : List Char) : Option (Nat × Nat) :=
  if rest.all fun c ↦ c.isDigit || c == '_' then roundedBy digit mantissa scale else none

/-- Mantissa and scale of an unsigned number. `started` says that a digit was seen and `pointed`
that the point was; underscores after the first digit are passed over. -/
def scan (mantissa scale : Nat) (started pointed : Bool) : List Char → Option (Nat × Nat)
  | [] => if started then some (mantissa, scale) else none
  | c :: rest =>
    match Text.digit? c with
    | some digit =>
      if mantissa * 10 + digit < twoTo 96 ∧ (pointed = false ∨ scale < 28) then
        scan (mantissa * 10 + digit) (if pointed then scale + 1 else scale) true pointed rest
      else if pointed then stoppedAt digit mantissa scale rest
      else none
    | none =>
      if c = '.' ∧ pointed = false then scan mantissa scale started true rest
      else if c = '_' ∧ started = true then scan mantissa scale started pointed rest
      else none

/-- A number without exponent: an optional sign, digits and at most one point. -/
def ofPlainText? (text : List Char) : Option Decimal :=
  let (negative, unsigned) := Text.splitSign text
  (scan 0 0 false false unsigned).bind fun (mantissa, scale) ↦
    ofParts? (negative && mantissa != 0) mantissa scale

/-- A run of decimal digits, possibly after a plus sign, as a number. -/
def naturalOf? (text : List Char) : Option Nat :=
  let digits := match text with
    | '+' :: rest => rest
    | rest => rest
  if digits.isEmpty || !digits.all Char.isDigit then none else some (Text.decimalValue digits)

/-- The number times a power of ten. A power up to the scale moves the point; a larger one leaves a
number without fraction. -/
def timesPowerOfTen? (number : Decimal) (exponent : Nat) : Option Decimal :=
  if exponent ≤ number.scale then
    ofParts? number.negative number.mantissa (number.scale - exponent)
  else if exponent ≤ 28 then
    ofParts? number.negative (number.mantissa * tenTo (exponent - number.scale)) 0
  else none

/-- The mantissa without its last digits, rounded half up. -/
def roundedOff (mantissa : Nat) : Nat → Nat
  | 0 => mantissa
  | dropped + 1 =>
    let kept := mantissa / tenTo dropped
    kept / 10 + if kept % 10 < 5 then 0 else 1

/-- The number divided by a power of ten, which moves the point to the left. Places beyond the
largest scale are rounded off. -/
def dividedByPowerOfTen? (number : Decimal) (exponent : Nat) : Option Decimal :=
  let scale := number.scale + exponent
  if exponent ≤ 28 then
    ofParts? number.negative (roundedOff number.mantissa (scale - 28)) (min scale 28)
  else none

/-- A number, an `e` of either case and an exponent. -/
def ofScientificText? (text : List Char) : Option Decimal :=
  let isMark := fun c ↦ c == 'e' || c == 'E'
  match text.dropWhile (fun c ↦ !isMark c) with
  | [] => none
  | _ :: exponent => do
    let number ← ofPlainText? (text.takeWhile fun c ↦ !isMark c)
    match exponent with
    | '-' :: digits => number.dividedByPowerOfTen? (← naturalOf? digits)
    | digits => number.timesPowerOfTen? (← naturalOf? digits)

/-- A number with or without exponent. -/
def ofText? (text : List Char) : Option Decimal :=
  (ofPlainText? text).orElse fun _ ↦ ofScientificText? text

/-- The decimal that the shortest digits of a finite double denote. -/
def ofBinary64? (x : Binary64) : Option Decimal :=
  ofPlainText? (FloatLayout.writtenOutInFull.write x).toList

end Decimal

end SqlCompose
