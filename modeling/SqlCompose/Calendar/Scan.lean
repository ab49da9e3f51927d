import SqlCompose.Text.Digits

/-!
The pieces of which dates and times are read: blank space, numbers of bounded width and single
marks. Each step takes its piece off the front of a text and returns what follows. Blank space may
stand before any number and before any mark; it is the white space of the Unicode standard.
-/

set_option autoImplicit false
set_option relaxedAutoImplicit false

namespace SqlCompose.Calendar

/-- White space in the sense of the Unicode property of that name. -/
def isBlank (c : Char) : Bool :=
  let code := c.toNat
  (9 ≤ code && code ≤ 13) || code == 0x20 || code == 0x85 || code == 0xA0 || code == 0x1680 ||
    (0x2000 ≤ code && code ≤ 0x200A) || code == 0x2028 || code == 0x2029 || code == 0x202F ||
    code == 0x205F || code == 0x3000

/-- What remains after leading blank space. -/
def skipBlank (text : List Char) : List Char :=
  text.dropWhile isBlank

/-- A number of one to `width` digits, after blank space. -/
def number? (width : Nat) (text : List Char) : Option (Nat × List Char) :=
  let start := skipBlank text
  let digits := (start.take width).takeWhile Char.isDigit
  if digits.isEmpty then none else some (Text.decimalValue digits, start.drop digits.length)

/-- A number with an explicit sign and any number of digits, or else of one to `width` digits. -/
def signedNumber? (width : Nat) (text : List Char) : Option (Int × List Char) :=
  let unbounded := fun (rest : List Char) ↦
    let (digits, after) := Text.spanDigits rest
    if digits.isEmpty then none else some (Text.decimalValue digits, after)
  match skipBlank text with
  | '-' :: rest => (unbounded rest).map fun (value, after) ↦ (-(value : Int), after)
  | '+' :: rest => (unbounded rest).map fun (value, after) ↦ ((value : Int), after)
  | rest => (number? width rest).map fun (value, after) ↦ ((value : Int), after)

/-- A single mark, after blank space. -/
def mark? (mark : Char) (text : List Char) : Option (List Char) :=
  match skipBlank text with
  | c :: rest => if c = mark then some rest else none
  | [] => none

end SqlCompose.Calendar
