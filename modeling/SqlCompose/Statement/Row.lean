import SqlCompose.Literal.Tokens

/-!
Statements about a single row: insertion, update by key and deletion by key. An insertion leaves out
null fields and falls back to the table's defaults when nothing remains; an update assigns nulls
like any other value, and needs at least one assignment.
-/

set_option autoImplicit false
set_option relaxedAutoImplicit false

namespace SqlCompose

/-- A column with its value: both sides of an assignment or of a key condition. -/
def assignmentTokens (column : String) (value : List Token) : List Token :=
  [.identifier column, .space, .equal, .space] ++ value

/-- Insertion of one row. -/
structure Insert where
  table : String
  fields : List (String × Literal) := []
  returning : List String := []

/-- Update of the row with a given key. -/
structure UpdateOne where
  table : String
  keyColumn : String
  keyValue : Literal
  fields : List (String × Literal) := []

/-- Deletion of the row with a given key. -/
structure DeleteOne where
  table : String
  keyColumn : String
  keyValue : Literal

/-- The condition that selects a row by its key. -/
def keyCondition (limit : Nat) (column : String) (value : Literal) :
    Except CompileError (List Token) := do
  let written ← value.tokens limit
  pure ([.keyword .where, .space] ++ assignmentTokens column written)

namespace Insert

/-- The fields that are written: those with a value. -/
def present (insert : Insert) : List (String × Literal) :=
  insert.fields.filter fun (_, value) ↦ !value.isNull

/-- Columns and values, or the words that ask for the defaults. -/
def rowTokens (limit : Nat) (fields : List (String × Literal)) :
    Except CompileError (List Token) :=
  if fields.isEmpty then .ok [.keyword .default, .space, .keyword .values]
  else do
    let values ← fields.mapM fun (_, value) ↦ value.tokens limit
    let columns := fields.map fun (column, _) ↦ [Token.identifier column]
    pure (Token.parenthesized (Token.commaSeparated columns) ++
      [.space, .keyword .values, .space] ++ Token.parenthesized (Token.commaSeparated values))

/-- The columns that the statement gives back. -/
def returningTokens (columns : List String) : List Token :=
  if columns.isEmpty then []
  else [.space, .keyword .returning, .space] ++
    Token.commaSeparated (columns.map fun column ↦ [.identifier column])

/-- The tokens of an insertion. -/
def tokens (insert : Insert) (limit : Nat) : Except CompileError (List Token) := do
  let row ← rowTokens limit insert.present
  pure ([.keyword .insert, .space, .keyword .into, .space, .identifier insert.table, .space] ++
    row ++ returningTokens insert.returning)

end Insert

/-- The tokens of an update by key. -/
def UpdateOne.tokens (update : UpdateOne) (limit : Nat) : Except CompileError (List Token) :=
  if update.fields.isEmpty then .error (.noAssignments update.table)
  else do
    let assignments ← update.fields.mapM fun (column, value) ↦ do
      let written ← value.tokens limit
      pure (assignmentTokens column written)
    let condition ← keyCondition limit update.keyColumn update.keyValue
    pure ([.keyword .update, .space, .identifier update.table, .space, .keyword .set, .space] ++
      Token.commaSeparated assignments ++ .space :: condition)

/-- The tokens of a deletion by key. -/
def DeleteOne.tokens (delete : DeleteOne) (limit : Nat) : Except CompileError (List Token) := do
  let condition ← keyCondition limit delete.keyColumn delete.keyValue
  pure ([.keyword .delete, .space, .keyword .from, .space, .identifier delete.table, .space] ++
    condition)

end SqlCompose
