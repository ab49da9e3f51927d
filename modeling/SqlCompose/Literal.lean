import SqlCompose.Calendar.Interval
import SqlCompose.Calendar.Timestamp
import SqlCompose.Number.Decimal
import SqlCompose.ValueType

/-!
Constant values. A literal is null, a scalar of one of the base types or an array of literals with
the type of its elements, which alone tells the type of an empty array.
-/

set_option autoImplicit false
set_option relaxedAutoImplicit false

namespace SqlCompose

/-- A constant value. -/
inductive Literal
  | null
  | boolean (value : Bool)
  | text (value : String)
  | integer (value : Int64)
  | float (value : Binary64)
  | decimal (value : Decimal)
  | binary (bytes : List UInt8)
  | date (value : Date)
  | time (value : TimeOfDay)
  | timestamp (value : Timestamp)
  | interval (value : Interval)
  | array (elements : List Literal) (elementType : ValueType)
deriving Repr, Inhabited

namespace Literal

/-- The null literal. -/
def isNull : Literal → Bool
  | null => true
  | _ => false

/-- A number that is written with a leading minus sign. -/
def isNegative : Literal → Bool
  | integer value => decide (value < 0)
  | float value => value.isNegative
  | decimal value => value.negative
  | _ => false

/-- The integer literal of a smaller integer. -/
def ofInt32 (value : Int32) : Literal :=
  integer value.toInt64

/-- The literal of a value that may be absent: absence is null. -/
def ofOption {α : Type} (literal : α → Literal) : Option α → Literal
  | none => null
  | some value => literal value

end Literal

end SqlCompose
