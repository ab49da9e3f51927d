import SqlCompose.Json.Value

/-!
Taking JSON values apart. A value of a structure type is an object with its fields as keys, in any
order and possibly among other keys, or an array of the fields in order with some left off at the
end. A value of a sum type is the name of the alternative, or an object with that name as its only
key. Readers of values that contain others are told how many arrays and objects they may still open,
one inside the other; a scalar opens none.
-/

set_option autoImplicit false
set_option relaxedAutoImplicit false

namespace SqlCompose.Json

/-- How deep arrays and objects may be nested in a text. -/
def nestingLimit : Nat := 127

/-! ### Scalars -/

/-- A string. -/
def text? : Json → Option String
  | string value => some value
  | _ => none

/-- A truth value. -/
def boolean? : Json → Option Bool
  | boolean value => some value
  | _ => none

/-- An integer of at least `low` and at most `high`. -/
def integerBetween? (low high : Int) : Json → Option Int
  | integer value => if low ≤ value ∧ value ≤ high then some value else none
  | _ => none

/-- An integer of eight bits without sign. -/
def byte? (value : Json) : Option UInt8 :=
  (integerBetween? 0 255 value).map fun number ↦ UInt8.ofNat number.toNat

/-- An integer of thirty-two bits with sign. -/
def int32? (value : Json) : Option Int32 :=
  (integerBetween? (-2147483648) 2147483647 value).map Int32.ofInt

/-- An integer of sixty-four bits with sign. -/
def int64? (value : Json) : Option Int64 :=
  (integerBetween? (-9223372036854775808) 9223372036854775807 value).map Int64.ofInt

/-- An integer of sixty-four bits without sign. -/
def uint64? (value : Json) : Option UInt64 :=
  (integerBetween? 0 18446744073709551615 value).map fun number ↦ UInt64.ofNat number.toNat

/-- A double; an integer stands for the double nearest to it. -/
def float? : Json → Option Binary64
  | float value => some value
  | integer value => some (Binary64.ofInt value)
  | _ => none

/-- The content of a string, if it has the form that is asked for. -/
def parsed? {α : Type} (parse : List Char → Option α) (value : Json) : Option α :=
  value.text?.bind fun text ↦ parse text.toList

/-- Null, or else a value of the given kind. -/
def optional? {α : Type} (read : Json → Option α) : Json → Option (Option α)
  | null => some none
  | value => (read value).map some

/-! ### Arrays and objects -/

/-- The items of an array. -/
def items? : Json → Option (List Json)
  | array items => some items
  | _ => none

/-- An array of values of one kind, which opens one level. -/
def listOf? {α : Type} (read : Nat → Json → Option α) (levels : Nat) (value : Json) :
    Option (List α) :=
  match levels with
  | 0 => none
  | inner + 1 => value.items?.bind fun items ↦ items.mapM (read inner)

/-- The value of a key, absent if the key is; a key that occurs more than once is refused. -/
def member? (members : List (String × Json)) (key : String) : Option (Option Json) :=
  match members.filter fun entry ↦ entry.1 == key with
  | [] => some none
  | [(_, value)] => some (some value)
  | _ => none

/-- The fields of a structure in the order of their names, absent ones without value. -/
def fields? (names : List String) : Json → Option (List (Option Json))
  | array items =>
    if items.length ≤ names.length then
      some (items.map some ++ List.replicate (names.length - items.length) none)
    else none
  | object members => names.mapM (member? members)
  | _ => none

/-- An object with no other keys than the given ones, or anything that is not an object. -/
def hasOnlyKeys (names : List String) : Json → Bool
  | object members => members.all fun entry ↦ names.contains entry.1
  | _ => true

/-- A field that may not be absent. -/
def required? {α : Type} (read : Json → Option α) (field : Option Json) : Option α :=
  field.bind read

/-- A field with a value to fall back on. -/
def withDefault? {α : Type} (fallback : α) (read : Json → Option α) : Option Json → Option α
  | none => some fallback
  | some value => read value

/-- An alternative without content: its name, or an object from its name to null. -/
def name? (levels : Nat) : Json → Option String
  | string name => some name
  | object [(name, null)] => if levels = 0 then none else some name
  | _ => none

end SqlCompose.Json
