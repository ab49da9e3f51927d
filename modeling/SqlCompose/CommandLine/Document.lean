import SqlCompose.Json.Forms.Query
import SqlCompose.Json.Reader

/-!
Query documents: JSON texts with the sources of a query, its clauses and, for bulk updates, the
assignments. Only the sources are required. Unlike other structures a document admits no unknown
keys, so that a misspelled clause is not silently lost.
-/

set_option autoImplicit false
set_option relaxedAutoImplicit false

namespace SqlCompose.CommandLine

/-- A query with assignments. -/
structure Document where
  query : Query
  values : List (String × Expr)

namespace Document

/-- The fields of a document in order. -/
def fieldNames : List String :=
  ["sources", "select", "distinct", "joins", "wheres", "group_bys", "havings", "order_bys", "limit",
    "offset", "lock", "values"]

/-- Reads an assignment: a column and an expression. -/
def assignmentOf? (levels : Nat) : Json → Option (String × Expr)
  | .array [column, value] =>
    match levels with
    | 0 => none
    | inner + 1 => do some (← column.text?, ← Expr.ofJson? inner value)
  | _ => none

/-- Reads a document. -/
def ofJson? (levels : Nat) (value : Json) : Option Document :=
  match levels with
  | 0 => none
  | inner + 1 => do
    let exprs? := Json.withDefault? [] (Json.listOf? Expr.ofJson? inner)
    if !value.hasOnlyKeys fieldNames then none
    else
      match ← value.fields? fieldNames with
      | [sources, select, distinct, joins, wheres, groupBys, havings, orderBys, limit, offset, lock,
          values] =>
        let schemas ← Json.required? (Json.listOf? Schema.ofJson? inner) sources
        let query : Query :=
          { sources := schemas.map Source.ofSchema
            select := ← exprs? select
            distinct :=
              ← Json.withDefault? none (Json.optional? (Distinct.ofJson? inner)) distinct
            joins := ← Json.withDefault? [] (Json.listOf? Join.ofJson? inner) joins
            wheres := ← exprs? wheres
            groupBys := ← exprs? groupBys
            havings := ← exprs? havings
            orderBys := ← Json.withDefault? [] (Json.listOf? SortTerm.ofJson? inner) orderBys
            limit := ← Json.withDefault? none (Json.optional? Json.uint64?) limit
            offset := ← Json.withDefault? none (Json.optional? Json.uint64?) offset
            lock := ← Json.withDefault? none (Json.optional? (Lock.ofJson? inner)) lock }
        some ⟨query, ← Json.withDefault? [] (Json.listOf? assignmentOf? inner) values⟩
      | _ => none

/-- The document that a text describes. -/
def ofText? (text : String) : Option Document :=
  (Json.read? text).bind (ofJson? Json.nestingLimit)

end Document

end SqlCompose.CommandLine
