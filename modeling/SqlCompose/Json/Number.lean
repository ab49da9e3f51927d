import SqlCompose.Json.Value

/-!
Numbers in JSON texts. The grammar is that of the standard: an optional minus sign, an integer part
without superfluous zeros, and optionally decimals and an exponent, each with at least one digit.

A number that is no integer is read in double arithmetic. Its leading digits are taken for as long
as they fit into sixty-four bits, the double nearest to them is multiplied or divided by the double
nearest to the remaining power of ten, and powers beyond the largest such double are divided out in
several steps.
-/

set_option autoImplicit false
set_option relaxedAutoImplicit false

namespace SqlCompose.Json

/-- A number as it is written: its parts in digits, without sign mark, point and exponent mark. -/
structure Numeral where
  negative : Bool
  whole : List Char
  decimals : List Char := []
  /-- The exponent, if there is one. -/
  exponent : Option Int := none
deriving DecidableEq, Repr

/-- The exponent after its mark. -/
def scanExponent? (text : List Char) : Option (Int × List Char) :=
  let (negative, start) := Text.splitSign text
  let (digits, after) := Text.spanDigits start
  let value : Int := Text.decimalValue digits
  if digits.isEmpty then none else some (if negative then -value else value, after)

/-- The exponent of a number, if the text continues with one. -/
def scanScaled? (numeral : Numeral) (text : List Char) : Option (Numeral × List Char) :=
  match text with
  | 'e' :: rest | 'E' :: rest =>
    (scanExponent? rest).map fun (exponent, after) ↦
      ({ numeral with exponent := some exponent }, after)
  | _ => some (numeral, text)

/-- The decimals and the exponent of a number, as far as the text continues with them. -/
def scanDecimals? (numeral : Numeral) (text : List Char) : Option (Numeral × List Char) :=
  match text with
  | '.' :: rest =>
    let (digits, after) := Text.spanDigits rest
    if digits.isEmpty then none else scanScaled? { numeral with decimals := digits } after
  | _ => scanScaled? numeral text

/-- A number without sign at the front of a text. -/
def scanUnsigned? (negative : Bool) (text : List Char) : Option (Numeral × List Char) :=
  let (whole, after) := Text.spanDigits text
  if whole.isEmpty || (whole.head? == some '0' && whole.length != 1) then none
  else scanDecimals? { negative, whole } after

/-- A number at the front of a text, and what follows it. -/
def scanNumeral? : List Char → Option (Numeral × List Char)
  | '-' :: rest => scanUnsigned? true rest
  | text => scanUnsigned? false text

/-! ### The value of a number -/

/-- Takes digits into a significand for as long as it fits into sixty-four bits; also says how many
were taken. -/
def absorb (significand taken : Nat) : List Char → Nat × Nat
  | [] => (significand, taken)
  | digit :: rest =>
    let next := significand * 10 + (digit.toNat - '0'.toNat)
    if next < twoTo 64 then absorb next (taken + 1) rest else (significand, taken)

/-- A magnitude divided by a power of ten in double arithmetic. -/
def dividedByPowerOfTen (x : Binary64) (exponent : Nat) : Binary64 :=
  if exponent ≤ 308 then x.quotient (.powerOfTen exponent)
  else if x.isZero then x
  else dividedByPowerOfTen (x.quotient (.powerOfTen 308)) (exponent - 308)
termination_by exponent

/-- A significand times a power of ten in double arithmetic, unless the result is too large. -/
def scaled? (significand : Nat) (exponent : Int) : Option Binary64 :=
  let x := Binary64.ofInt significand
  if exponent < 0 then some (dividedByPowerOfTen x exponent.natAbs)
  else if exponent ≤ 308 then
    let result := x.product (.powerOfTen exponent.toNat)
    if result.isFinite then some result else none
  else if x.isZero then some x
  else none

/-- The double that a number denotes. -/
def Numeral.float? (numeral : Numeral) : Option Binary64 :=
  let (leading, wholeTaken) := absorb 0 0 numeral.whole
  let (significand, decimalsTaken) := absorb leading 0 numeral.decimals
  let exponent := (numeral.whole.length : Int) - wholeTaken - decimalsTaken +
    numeral.exponent.getD 0
  (scaled? significand exponent).map (Binary64.withSign numeral.negative)

/-- The integer that a number denotes, if it is written as one and fits into sixty-four bits. A
negative zero is no integer. -/
def Numeral.integer? (numeral : Numeral) : Option Int :=
  let magnitude := Text.decimalValue numeral.whole
  if !numeral.decimals.isEmpty || numeral.exponent.isSome then none
  else if numeral.negative then
    if 0 < magnitude ∧ magnitude ≤ twoTo 63 then some (-(magnitude : Int)) else none
  else if magnitude < twoTo 64 then some magnitude
  else none

/-- The value of a number. -/
def Numeral.value (numeral : Numeral) : Json :=
  match numeral.integer? with
  | some value => integer value
  | none =>
    match numeral.float? with
    | some value => float value
    | none => unreadable

end SqlCompose.Json
