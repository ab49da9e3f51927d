import SqlCompose.Json.Forms.Expr
import SqlCompose.Query

/-!
The parts of queries in JSON: schemas, joins, orderings, duplicates and locks.
-/

set_option autoImplicit false
set_option relaxedAutoImplicit false

namespace SqlCompose

namespace Schema

/-- Reads a schema. -/
def ofJson? (levels : Nat) (value : Json) : Option Schema :=
  match levels with
  | 0 => none
  | inner + 1 => do
    match ← value.fields? ["source", "fields", "primary_key"] with
    | [table, fields, primaryKey] =>
      some
        { table := ← Json.required? Json.text? table
          fields := ← Json.withDefault? [] (Json.listOf? (fun _ ↦ Json.text?) inner) fields
          primaryKey := ← Json.withDefault? none (Json.optional? Json.text?) primaryKey }
    | _ => none

/-- Writes a schema. -/
def toJson (schema : Schema) : Json :=
  .object
    [("source", .string schema.table), ("fields", .array (schema.fields.map .string)),
      ("primary_key", schema.primaryKey.elim .null .string)]

end Schema

namespace JoinKind

/-- Reads the kind of a join. -/
def ofJson? (levels : Nat) (value : Json) : Option JoinKind :=
  match value.name? levels with
  | some "inner" => some inner
  | some "left" => some left
  | some "right" => some right
  | some "full" => some full
  | _ => none

/-- Writes the kind of a join. -/
def toJson : JoinKind → Json
  | inner => .string "inner"
  | left => .string "left"
  | right => .string "right"
  | full => .string "full"

end JoinKind

namespace Join

/-- Reads a join. -/
def ofJson? (levels : Nat) (value : Json) : Option Join :=
  match levels with
  | 0 => none
  | inner + 1 => do
    match ← value.fields? ["kind", "on"] with
    | [some kind, some condition] =>
      some ⟨← JoinKind.ofJson? inner kind, ← Expr.ofJson? inner condition⟩
    | _ => none

/-- Writes a join. -/
def toJson (join : Join) : Json :=
  .object [("kind", join.kind.toJson), ("on", join.on.toJson)]

end Join

namespace SortDirection

/-- Reads a direction. -/
def ofJson? (levels : Nat) (value : Json) : Option SortDirection :=
  match value.name? levels with
  | some "asc" => some ascending
  | some "desc" => some descending
  | _ => none

/-- Writes a direction. -/
def toJson : SortDirection → Json
  | ascending => .string "asc"
  | descending => .string "desc"

end SortDirection

namespace SortTerm

/-- Reads a term of an ordering. -/
def ofJson? (levels : Nat) (value : Json) : Option SortTerm :=
  match levels with
  | 0 => none
  | inner + 1 => do
    match ← value.fields? ["expr", "dir"] with
    | [some expr, direction] =>
      some ⟨← Expr.ofJson? inner expr,
        ← Json.withDefault? .ascending (SortDirection.ofJson? inner) direction⟩
    | _ => none

/-- Writes a term of an ordering. -/
def toJson (term : SortTerm) : Json :=
  .object [("expr", term.expr.toJson), ("dir", term.direction.toJson)]

end SortTerm

namespace Distinct

/-- Reads which rows count as duplicates. -/
def ofJson? (levels : Nat) (value : Json) : Option Distinct :=
  match levels, value with
  | inner + 1, .object [("on", exprs)] => (Json.listOf? Expr.ofJson? inner exprs).map on
  | _, _ => if value.name? levels = some "rows" then some rows else none

/-- Writes which rows count as duplicates. -/
def toJson : Distinct → Json
  | rows => .string "rows"
  | on exprs => .object [("on", .array (Expr.listToJson exprs))]

end Distinct

namespace Lock

/-- Reads a lock. -/
def ofJson? (levels : Nat) (value : Json) : Option Lock :=
  match levels, value with
  | _ + 1, .object [("clause", text)] => text.text?.map clause
  | _, _ => if value.name? levels = some "for_update" then some forUpdate else none

/-- Writes a lock. -/
def toJson : Lock → Json
  | forUpdate => .string "for_update"
  | clause text => .object [("clause", .string text)]

end Lock

end SqlCompose
