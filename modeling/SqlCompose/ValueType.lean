/-!
The types of values that statements name in casts: ten base types and arrays over any type.
-/

set_option autoImplicit false
set_option relaxedAutoImplicit false

namespace SqlCompose

/-- The type of a value. -/
inductive ValueType
  | boolean
  | text
  | integer
  | float
  | decimal
  | binary
  | date
  | time
  | timestamp
  | interval
  | array (element : ValueType)
deriving DecidableEq, Repr, Inhabited

end SqlCompose
