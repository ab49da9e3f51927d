import SqlCompose.Query.Tokens
import SqlCompose.Statement.Row

/-!
Statements about all rows that a query selects: bulk update and bulk deletion. Of the query they use
the first source, as their target, and the conditions on rows; a query with joins is refused.
-/

set_option autoImplicit false
set_option relaxedAutoImplicit false

namespace SqlCompose

/-- Update of all rows that a query selects. -/
structure UpdateAll where
  query : Query
  values : List (String × Expr) := []

/-- Deletion of all rows that a query selects. -/
structure DeleteAll where
  query : Query

/-- The target of a bulk statement and its alias. -/
def bulkTarget (query : Query) (scope : Scope) : Except CompileError (Source × String) :=
  if query.joins.isEmpty then scope.source? 0 else .error .bulkJoin

/-- The condition of a bulk statement, with the space that sets it off. -/
def bulkCondition (scope : Scope) (conditions : List Expr) : Except CompileError (List Token) := do
  match ← whereLine? scope conditions with
  | some line => pure (.space :: line)
  | none => pure []

/-- The tokens of a bulk update. -/
def UpdateAll.tokens (update : UpdateAll) (limit : Nat) : Except CompileError (List Token) := do
  let scope := update.query.scope limit
  let (source, shortName) ← bulkTarget update.query scope
  if update.values.isEmpty then .error (.noAssignments source.table)
  else
    let assignments ← update.values.mapM fun (column, value) ↦ do
      let written ← value.tokens scope
      pure (assignmentTokens column written)
    let condition ← bulkCondition scope update.query.wheres
    pure ([.keyword .update, .space] ++ aliasedTable source shortName ++
      [.space, .keyword .set, .space] ++ Token.commaSeparated assignments ++ condition)

/-- The tokens of a bulk deletion. -/
def DeleteAll.tokens (delete : DeleteAll) (limit : Nat) : Except CompileError (List Token) := do
  let scope := delete.query.scope limit
  let (source, shortName) ← bulkTarget delete.query scope
  let condition ← bulkCondition scope delete.query.wheres
  pure ([.keyword .delete, .space, .keyword .from, .space] ++ aliasedTable source shortName ++
    condition)

end SqlCompose
