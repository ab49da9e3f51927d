import SqlCompose.Json.Shape
import SqlCompose.Literal

/-!
Types and literals in JSON. A base type is its name and an array type an object around its element
type. A literal is an object from its kind to its content, only null is a bare name; decimals, dates
and times are strings in their written form, bytes are arrays of numbers and intervals are
structures whose absent components are zero. A double that is no number is written as null, which
is not read as a double.
-/

set_option autoImplicit false
set_option relaxedAutoImplicit false

namespace SqlCompose

namespace ValueType

/-- The name of a base type. -/
def ofName? : String → Option ValueType
  | "boolean" => some boolean
  | "string" => some text
  | "integer" => some integer
  | "float" => some float
  | "decimal" => some decimal
  | "binary" => some binary
  | "date" => some date
  | "time" => some time
  | "timestamp" => some timestamp
  | "interval" => some interval
  | _ => none

/-- Reads a type. -/
def ofJson? : Nat → Json → Option ValueType
  | levels + 1, .object [("array", element)] => (ofJson? levels element).map array
  | levels, value => (value.name? levels).bind ofName?

/-- Writes a type. -/
def toJson : ValueType → Json
  | boolean => .string "boolean"
  | text => .string "string"
  | integer => .string "integer"
  | float => .string "float"
  | decimal => .string "decimal"
  | binary => .string "binary"
  | date => .string "date"
  | time => .string "time"
  | timestamp => .string "timestamp"
  | interval => .string "interval"
  | array element => .object [("array", element.toJson)]

end ValueType

namespace Interval

/-- The names of the components. -/
def fieldNames : List String :=
  ["years", "months", "days", "hours", "minutes", "seconds"]

/-- Reads an interval. -/
def ofJson? (levels : Nat) (value : Json) : Option Interval :=
  if levels = 0 then none
  else do
    let fields ← value.fields? fieldNames
    match ← fields.mapM (Json.withDefault? 0 Json.int32?) with
    | [years, months, days, hours, minutes, seconds] =>
      some { years, months, days, hours, minutes, seconds }
    | _ => none

/-- Writes an interval. -/
def toJson (interval : Interval) : Json :=
  .object (fieldNames.zip ([interval.years, interval.months, interval.days, interval.hours,
    interval.minutes, interval.seconds].map fun component ↦ .integer component.toInt))

end Interval

/-- Reads a decimal: a string, an integer, or a double through its shortest digits. -/
def Decimal.ofJson? : Json → Option Decimal
  | .string value => ofText? value.toList
  | .integer value => ofInt? value
  | .float value => ofBinary64? value
  | _ => none

namespace Literal

/-- Reads a literal whose content is neither null nor an array of literals. -/
def ofContent? (levels : Nat) (kind : String) (content : Json) : Option Literal :=
  match kind with
  | "bool" => content.boolean?.map boolean
  | "string" => content.text?.map text
  | "integer" => content.int64?.map integer
  | "float" => content.float?.map float
  | "decimal" => (Decimal.ofJson? content).map decimal
  | "binary" => (Json.listOf? (fun _ ↦ Json.byte?) levels content).map binary
  | "date" => (content.parsed? Date.ofText?).map date
  | "time" => (content.parsed? TimeOfDay.ofText?).map time
  | "timestamp" => (content.parsed? Timestamp.ofText?).map timestamp
  | "interval" => (Interval.ofJson? levels content).map interval
  | _ => none

/-- Reads a literal. An array of literals opens three levels: its kind, its structure and its list
of elements. -/
def ofJson? : Nat → Json → Option Literal
  | inner + 3, .object [("array", content)] => do
    match ← content.fields? ["elements", "element_type"] with
    | [some elements, some elementType] =>
      let items ← elements.items?
      let literals ← items.mapM (ofJson? inner)
      let type ← ValueType.ofJson? (inner + 1) elementType
      some (array literals type)
    | _ => none
  | levels, value =>
    if value.name? levels = some "null" then some null
    else
      match levels, value with
      | levels + 1, .object [(kind, content)] => ofContent? levels kind content
      | _, _ => none

mutual

/-- Writes a literal. -/
def toJson : Literal → Json
  | null => .string "null"
  | boolean value => .object [("bool", .boolean value)]
  | text value => .object [("string", .string value)]
  | integer value => .object [("integer", .integer value.toInt)]
  | float value => .object [("float", .ofBinary64 value)]
  | decimal value => .object [("decimal", .string (String.ofList value.text))]
  | binary bytes =>
    .object [("binary", .array (bytes.map fun byte ↦ .integer byte.toNat))]
  | date value => .object [("date", .string (String.ofList value.text))]
  | time value => .object [("time", .string (String.ofList value.text))]
  | timestamp value => .object [("timestamp", .string (String.ofList (value.text 'T')))]
  | interval value => .object [("interval", value.toJson)]
  | array elements elementType =>
    .object [("array", .object
      [("elements", .array (listToJson elements)), ("element_type", elementType.toJson)])]

/-- Writes several literals. -/
def listToJson : List Literal → List Json
  | [] => []
  | literal :: rest => toJson literal :: listToJson rest

end

end Literal

end SqlCompose
