import SqlCompose.Dialect
import SqlCompose.LogEvent
import SqlCompose.Statement.Bulk

/-!
Statements as text. A compiler has a nesting limit, a dialect and the choice whether finished
statements are reported. Composing a statement yields its text or the cause of the failure, and the
events reported on the way. The statements of a record are those of its fields: insertion of all
fields, update of the fields other than the key, deletion by key.
-/

set_option autoImplicit false
set_option relaxedAutoImplicit false

namespace SqlCompose

/-- The nesting limit in force unless another one is set. -/
def defaultMaxDepth : UInt64 := 512

/-- How statements are composed. -/
structure Compiler where
  maxDepth : UInt64 := defaultMaxDepth
  logStatements : Bool := false
  dialect : Dialect := .postgres

/-- The outcome of composing a statement, with the events reported on the way. -/
structure Compilation where
  result : Except CompileError String
  events : List LogEvent := []

/-- The primary key of a record and its value. -/
def Record.key (record : Record) : Except CompileError (String × Literal) :=
  match record.schema.primaryKey, record.primaryKeyValue? with
  | some column, some value => .ok (column, value)
  | _, _ => .error (.missingPrimaryKey record.schema.table)

namespace Compiler

/-- Spells out a composed statement and reports on it. -/
def run (compiler : Compiler) (statement : String) (sources : Nat)
    (composed : Except CompileError (List Token)) : Compilation :=
  let start := LogEvent.compiling statement sources compiler.dialect.name
  match composed with
  | .ok tokens =>
    let sql := compiler.dialect.render tokens
    let finish := if compiler.logStatements then [LogEvent.generated statement sql] else []
    ⟨.ok sql, start :: finish⟩
  | .error cause => ⟨.error cause, [start, .failed statement cause.message]⟩

/-- The nesting limit as a number. -/
def limit (compiler : Compiler) : Nat :=
  compiler.maxDepth.toNat

/-- The text of a query. -/
def select (compiler : Compiler) (query : Query) : Compilation :=
  compiler.run "select" query.sources.length (query.tokens compiler.limit)

/-- The text of an insertion. -/
def insert (compiler : Compiler) (insert : Insert) : Compilation :=
  compiler.run "insert" 1 (insert.tokens compiler.limit)

/-- The text of an update by key. -/
def updateOne (compiler : Compiler) (update : UpdateOne) : Compilation :=
  compiler.run "update_one" 1 (update.tokens compiler.limit)

/-- The text of a bulk update. -/
def updateAll (compiler : Compiler) (update : UpdateAll) : Compilation :=
  compiler.run "update_all" update.query.sources.length (update.tokens compiler.limit)

/-- The text of a deletion by key. -/
def deleteOne (compiler : Compiler) (delete : DeleteOne) : Compilation :=
  compiler.run "delete_one" 1 (delete.tokens compiler.limit)

/-- The text of a bulk deletion. -/
def deleteAll (compiler : Compiler) (delete : DeleteAll) : Compilation :=
  compiler.run "delete_all" delete.query.sources.length (delete.tokens compiler.limit)

/-! ### Records -/

/-- The insertion of a record. -/
def insertRecord (compiler : Compiler) (record : Record) (returning : List String) : Compilation :=
  compiler.insert ⟨record.schema.table, record.fieldValues true, returning⟩

/-- The update of a record by its key; a record without key value is refused unreported. -/
def updateRecord (compiler : Compiler) (record : Record) : Compilation :=
  match record.key with
  | .ok (column, value) =>
    compiler.updateOne ⟨record.schema.table, column, value, record.fieldValues false⟩
  | .error cause => ⟨.error cause, []⟩

/-- The deletion of a record by its key; a record without key value is refused unreported. -/
def deleteRecord (compiler : Compiler) (record : Record) : Compilation :=
  match record.key with
  | .ok (column, value) => compiler.deleteOne ⟨record.schema.table, column, value⟩
  | .error cause => ⟨.error cause, []⟩

end Compiler

end SqlCompose
