import SqlCompose.Expr
import SqlCompose.Json.Forms.Literal

/-!
Expressions in JSON: an object from the kind of the expression to its content. The content is a
position, a single expression or literal, or a structure.
-/

set_option autoImplicit false
set_option relaxedAutoImplicit false

namespace SqlCompose

namespace Truncation

/-- Reads the part that is kept. -/
def ofJson? (levels : Nat) (value : Json) : Option Truncation :=
  match value.name? levels with
  | some "date" => some date
  | some "time" => some time
  | _ => none

/-- Writes the part that is kept. -/
def toJson : Truncation → Json
  | date => .string "date"
  | time => .string "time"

end Truncation

namespace Expr

/-- The field names of the structure inside an expression, by its kind. -/
def fieldNames : String → List String
  | "field" => ["source", "field"]
  | "equals" => ["left", "right", "negated"]
  | "in" | "div" => ["left", "right"]
  | "range" => ["first", "last"]
  | "truncate" => ["unit", "expr"]
  | "call" => ["name", "args"]
  | "array" => ["elements", "element_type"]
  | _ => []

/-- Reads an expression. The structure inside it and a list inside that structure each open a
further level. -/
def ofJson? : Nat → Json → Option Expr
  | outer + 1, .object [(kind, content)] =>
    match kind with
    | "source" => content.uint64?.map source
    | "literal" => (Literal.ofJson? outer content).map literal
    | "not" => (ofJson? outer content).map not
    | _ =>
      match outer with
      | 0 => none
      | inner + 1 =>
        let list? : Json → Option (List Expr) := fun value ↦
          match inner with
          | 0 => none
          | innermost + 1 => value.items?.bind fun items ↦ items.mapM (ofJson? innermost)
        match kind, content.fields? (fieldNames kind) with
        | "field", some [some position, some name] => do
          some (field (← position.uint64?) (← name.text?))
        | "equals", some [some left, some right, negated] => do
          some (equals (← ofJson? inner left) (← ofJson? inner right)
            (← Json.withDefault? false Json.boolean? negated))
        | "in", some [some left, some right] => do
          some (isIn (← ofJson? inner left) (← ofJson? inner right))
        | "range", some [some first, some last] => do
          some (range (← ofJson? inner first) (← ofJson? inner last))
        | "div", some [some left, some right] => do
          some (div (← ofJson? inner left) (← ofJson? inner right))
        | "truncate", some [some unit, some operand] => do
          some (truncate (← Truncation.ofJson? inner unit) (← ofJson? inner operand))
        | "call", some [some name, arguments] => do
          some (call (← name.text?) (← Json.withDefault? [] list? arguments))
        | "array", some [some elements, some elementType] => do
          some (array (← list? elements) (← ValueType.ofJson? inner elementType))
        | _, _ => none
  | _, _ => none

mutual

/-- Writes an expression. -/
def toJson : Expr → Json
  | field position name =>
    .object [("field", .object [("source", .integer position.toNat), ("field", .string name)])]
  | source position => .object [("source", .integer position.toNat)]
  | not operand => .object [("not", toJson operand)]
  | equals left right negated =>
    .object [("equals", .object
      [("left", toJson left), ("right", toJson right), ("negated", .boolean negated)])]
  | isIn left right => .object [("in", .object [("left", toJson left), ("right", toJson right)])]
  | range first last =>
    .object [("range", .object [("first", toJson first), ("last", toJson last)])]
  | div left right => .object [("div", .object [("left", toJson left), ("right", toJson right)])]
  | truncate unit operand =>
    .object [("truncate", .object [("unit", unit.toJson), ("expr", toJson operand)])]
  | call name arguments =>
    .object [("call", .object [("name", .string name), ("args", .array (listToJson arguments))])]
  | literal value => .object [("literal", value.toJson)]
  | array elements elementType =>
    .object [("array", .object
      [("elements", .array (listToJson elements)), ("element_type", elementType.toJson)])]

/-- Writes several expressions. -/
def listToJson : List Expr → List Json
  | [] => []
  | expr :: rest => toJson expr :: listToJson rest

end

end Expr

end SqlCompose
