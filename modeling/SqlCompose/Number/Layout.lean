import SqlCompose.Number.Shortest

/-!
How the digits of a double are laid out as text. A layout says for which positions of the decimal
point the number is written out in full, whether a number without fraction keeps a `.0`, how a
positive exponent is introduced and which way a tie between two shortest candidates goes. Three
layouts are in use: one for statements, one for JSON texts and one that never uses an exponent.
-/

set_option autoImplicit false
set_option relaxedAutoImplicit false

namespace SqlCompose

/-- The decisions of a textual format for doubles. -/
structure FloatLayout where
  /-- Whether a number is written out in full, by the position of its point: the number is
  `0.d₁d₂… * 10 ^ position`. -/
  writtenOut : Int → Bool
  /-- Whether a number without fraction still gets one digit after the point. -/
  keepsPoint : Bool
  /-- What stands before the digits of a positive exponent. -/
  positiveExponent : List Char
  /-- Which of two equally near shortest candidates is taken. -/
  tie : TieRule

namespace FloatLayout

/-- Statements write a number out in full from `1e-5` to below `1e16`. -/
def statement : FloatLayout where
  writtenOut position := decide (-5 < position ∧ position ≤ 16)
  keepsPoint := true
  positiveExponent := []
  tie := .toEven

/-- JSON texts use the bounds of statements and a plus sign before a positive exponent. -/
def json : FloatLayout :=
  { statement with positiveExponent := ['+'] }

/-- Without exponent at any size, and without point when there is no fraction. -/
def writtenOutInFull : FloatLayout where
  writtenOut _ := true
  keepsPoint := false
  positiveExponent := []
  tie := .upward

/-- Digits with the decimal point at the given position, filled up with zeros on either side. -/
def positional (layout : FloatLayout) (digits : List Char) (position : Int) : List Char :=
  let whole := digits.take position.toNat
  let shown := if whole.isEmpty then ['0']
    else whole ++ List.replicate (position.toNat - digits.length) '0'
  let decimals := List.replicate (-position).toNat '0' ++ digits.drop position.toNat
  if decimals.isEmpty then (if layout.keepsPoint then shown ++ ['.', '0'] else shown)
  else shown ++ '.' :: decimals

/-- One digit, the remaining ones after a point if there are any, and the exponent. -/
def scientific (layout : FloatLayout) (digits : List Char) (position : Int) : List Char :=
  let exponent := position - 1
  let lead := if digits.length ≤ 1 then digits else digits.take 1 ++ '.' :: digits.drop 1
  let marked := if exponent < 0 then Text.signedDecimal exponent
    else layout.positiveExponent ++ Text.decimal exponent.toNat
  lead ++ 'e' :: marked

/-- The magnitude of a finite double. -/
def magnitude (layout : FloatLayout) (x : Binary64) : List Char :=
  if x.significand = 0 then layout.positional ['0'] 1
  else
    let shortest := x.shortestDigits layout.tie
    let digits := Text.decimal shortest.coefficient
    let position := (digits.length : Int) + shortest.exponent
    if layout.writtenOut position then layout.positional digits position
    else layout.scientific digits position

/-- The text of a double; the three patterns without finite value have fixed names. -/
def write (layout : FloatLayout) (x : Binary64) : String :=
  if x.isNaN then "NaN"
  else
    let unsigned := if x.isFinite then layout.magnitude x else "inf".toList
    String.ofList (if x.isNegative then '-' :: unsigned else unsigned)

end FloatLayout

end SqlCompose
