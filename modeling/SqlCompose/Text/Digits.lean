/-!
Numerals. A natural number is written with its decimal digits, padded on the left where a format
fixes the width, and a run of digits is read back as the number it denotes. Only the ten ASCII
digits count as digits; letters of either case are read as hexadecimal digits where a format
admits them.
-/

set_option autoImplicit false
set_option relaxedAutoImplicit false

namespace SqlCompose.Text

/-- The value of an ASCII decimal digit. -/
def digit? (c : Char) : Option Nat :=
  if c.isDigit then some (c.toNat - '0'.toNat) else none

/-- The value of an ASCII hexadecimal digit of either case. -/
def hexDigit? (c : Char) : Option Nat :=
  if c.isDigit then some (c.toNat - '0'.toNat)
  else if 'a' ≤ c ∧ c ≤ 'f' then some (c.toNat - 'a'.toNat + 10)
  else if 'A' ≤ c ∧ c ≤ 'F' then some (c.toNat - 'A'.toNat + 10)
  else none

/-- The number that a run of digits denotes in the given base. -/
def valueOf (base : Nat) (digits : List Nat) : Nat :=
  digits.foldl (fun value digit ↦ value * base + digit) 0

/-- The number that a run of decimal digits denotes. -/
def decimalValue (digits : List Char) : Nat :=
  valueOf 10 (digits.map fun c ↦ c.toNat - '0'.toNat)

/-- The decimal digits of a natural number, most significant first and without leading zeros. -/
def decimal (number : Nat) : List Char :=
  Nat.toDigits 10 number

/-- How many decimal digits a number has. -/
def digitCount (number : Nat) : Nat :=
  (decimal number).length

/-- The decimal digits of a number, filled up with zeros on the left to at least the given width. -/
def padded (width number : Nat) : List Char :=
  List.replicate (width - digitCount number) '0' ++ decimal number

/-- An integer in decimal, with a minus sign when it is negative. -/
def signedDecimal (number : Int) : List Char :=
  if number < 0 then '-' :: decimal number.natAbs else decimal number.natAbs

/-- The run of decimal digits at the front of a text, and what follows it. -/
def spanDigits (text : List Char) : List Char × List Char :=
  (text.takeWhile Char.isDigit, text.dropWhile Char.isDigit)

/-- Whether a text begins with a minus sign, and the text after a sign of either kind. -/
def splitSign : List Char → Bool × List Char
  | '-' :: rest => (true, rest)
  | '+' :: rest => (false, rest)
  | text => (false, text)

theorem length_spanDigits (text : List Char) :
    (spanDigits text).1.length + (spanDigits text).2.length = text.length := by
  rw [← List.length_append, spanDigits, List.takeWhile_append_dropWhile]

theorem length_splitSign_le (text : List Char) : (splitSign text).2.length ≤ text.length := by
  unfold splitSign
  split <;> simp

end SqlCompose.Text
