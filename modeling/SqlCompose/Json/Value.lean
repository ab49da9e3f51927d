import SqlCompose.Number.Layout

/-!
JSON values. Numbers without fraction and exponent that fit into sixty-four bits are integers, all
others are doubles. A text may be grammatical and still have no value: a number beyond the range of
doubles, a string with half of a surrogate pair, an object with such a string as a key. These are
`unreadable`; they do no harm where a value is ignored.
-/

set_option autoImplicit false
set_option relaxedAutoImplicit false

namespace SqlCompose

/-- A JSON value. -/
inductive Json
  | null
  | boolean (value : Bool)
  | integer (value : Int)
  | float (value : Binary64)
  | string (value : String)
  | array (items : List Json)
  /-- The members in the order of the text; a key may occur more than once. -/
  | object (members : List (String × Json))
  /-- Grammatical, but without a value. -/
  | unreadable
deriving Repr, Inhabited

namespace Json

/-- A double as a value: a number if it is finite, and null otherwise. -/
def ofBinary64 (value : Binary64) : Json :=
  if value.isFinite then float value else null

/-- Some text as a value. -/
def ofText? : Option String → Json
  | some text => string text
  | none => unreadable

/-- Members with possibly unreadable keys as a value. -/
def ofMembers? (members : List (Option String × Json)) : Json :=
  match members.mapM fun (key, value) ↦ key.map fun key ↦ (key, value) with
  | some members => object members
  | none => unreadable

end Json

end SqlCompose
