import SqlCompose.Literal

/-!
Expressions over the sources of a statement. An expression refers to a source by its position alone,
never by a table name or an alias, so it can be moved between statements; operators and functions
are calls whose written form the catalog decides. Besides the type this module has the combinators
by which expressions are put together.
-/

set_option autoImplicit false
set_option relaxedAutoImplicit false

namespace SqlCompose

/-- The part of a timestamp that is kept. -/
inductive Truncation
  | date
  | time
deriving DecidableEq, Repr

/-- The type of a truncated timestamp. -/
def Truncation.valueType : Truncation → ValueType
  | date => .date
  | time => .time

/-- An expression. -/
inductive Expr
  /-- A field of the source at a position. -/
  | field (source : UInt64) (name : String)
  /-- All fields of the source at a position. -/
  | source (index : UInt64)
  | not (operand : Expr)
  /-- Equality or its negation; against null, the null test. -/
  | equals (left right : Expr) (negated : Bool)
  /-- Membership in a range or in an array. -/
  | isIn (left right : Expr)
  /-- The values from one bound to another, both included. -/
  | range (first last : Expr)
  | div (left right : Expr)
  | truncate (unit : Truncation) (operand : Expr)
  /-- An operator or function applied to arguments. -/
  | call (name : String) (arguments : List Expr)
  | literal (value : Literal)
  | array (elements : List Expr) (elementType : ValueType)
deriving Repr, Inhabited

namespace Expr

/-! ### Combinators -/

/-- The null constant. -/
def null : Expr := literal .null

/-- The current time. -/
def now : Expr := call "now" []

/-- Both sides are equal. -/
def eq (left right : Expr) : Expr := equals left right false

/-- The sides differ. -/
def ne (left right : Expr) : Expr := equals left right true

/-- The operand is null. -/
def isNull (operand : Expr) : Expr := operand.eq null

/-- The operand is not null. -/
def isNotNull (operand : Expr) : Expr := operand.ne null

/-- A call with two arguments. -/
def binary (name : String) (left right : Expr) : Expr := call name [left, right]

/-- The left side is the greater one. -/
def gt : Expr → Expr → Expr := binary ">"

/-- The left side is not the smaller one. -/
def gte : Expr → Expr → Expr := binary ">="

/-- The left side is the smaller one. -/
def lt : Expr → Expr → Expr := binary "<"

/-- The left side is not the greater one. -/
def lte : Expr → Expr → Expr := binary "<="

/-- Conjunction. -/
def and : Expr → Expr → Expr := binary "and"

/-- Disjunction. -/
def or : Expr → Expr → Expr := binary "or"

/-- Sum. -/
def add : Expr → Expr → Expr := binary "+"

/-- Difference. -/
def sub : Expr → Expr → Expr := binary "-"

/-- Product. -/
def mul : Expr → Expr → Expr := binary "*"

/-- Pattern match. -/
def like : Expr → Expr → Expr := binary "like"

/-- Pattern match that ignores case. -/
def ilike : Expr → Expr → Expr := binary "ilike"

/-- Concatenation. -/
def concat : Expr → Expr → Expr := binary "concat"

/-- The value lies between two bounds, both included. -/
def between (value first last : Expr) : Expr := value.isIn (range first last)

/-- The date of a timestamp. -/
def toDate : Expr → Expr := truncate .date

/-- The time of day of a timestamp. -/
def toTime : Expr → Expr := truncate .time

end Expr

end SqlCompose
