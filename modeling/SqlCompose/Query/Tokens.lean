import SqlCompose.Expr.Tokens
import SqlCompose.Query

/-!
Queries as tokens: one line for each clause that is present, in the fixed order of the language.
Clauses are composed in that order too, so the first faulty clause decides the error.
-/

set_option autoImplicit false
set_option relaxedAutoImplicit false

namespace SqlCompose

/-- A table and the alias it is given. -/
def aliasedTable (source : Source) (shortName : String) : List Token :=
  [.identifier source.table, .space, .keyword .as, .space, .identifier shortName]

/-- The words before `JOIN`. -/
def JoinKind.tokens : JoinKind → List Token
  | inner => [.keyword .inner]
  | left => [.keyword .left, .space, .keyword .outer]
  | right => [.keyword .right, .space, .keyword .outer]
  | full => [.keyword .full, .space, .keyword .outer]

/-- A keyword followed by the items of a list. -/
def clauseTokens (word : Keyword) (items : List (List Token)) : List Token :=
  .keyword word :: .space :: Token.commaSeparated items

/-- A keyword followed by conditions, each between parentheses and all of them required. -/
def conjunctionTokens (word : Keyword) (conditions : List (List Token)) : List Token :=
  .keyword word :: .space ::
    Token.separatedBy [.space, .keyword .and, .space] (conditions.map Token.parenthesized)

/-- A clause made from the tokens of expressions, absent when there are none. -/
def clauseLine? (scope : Scope) (exprs : List Expr) (line : List (List Token) → List Token) :
    Except CompileError (Option (List Token)) :=
  if exprs.isEmpty then .ok none
  else do
    let written ← Expr.tokensOfEach scope 0 exprs
    pure (some (line written))

/-- The condition on rows, common to queries and bulk statements. -/
def whereLine? (scope : Scope) (conditions : List Expr) :
    Except CompileError (Option (List Token)) :=
  clauseLine? scope conditions (conjunctionTokens .where)

/-- One term of an ordering. -/
def SortTerm.tokens (scope : Scope) (term : SortTerm) : Except CompileError (List Token) := do
  let written ← term.expr.tokens scope
  pure (if term.direction = .descending then written ++ [.space, .keyword .desc] else written)

/-- A keyword followed by a number of rows. -/
def rowCountTokens (word : Keyword) (rows : UInt64) : List Token :=
  [.keyword word, .space, .count rows]

/-- The token of a lock clause. -/
def Lock.token : Lock → Token
  | forUpdate => .keyword .forUpdate
  | clause text => .verbatim text

namespace Query

/-- What stands between `SELECT` and the selected expressions. -/
def distinctTokens (scope : Scope) : Option Distinct → Except CompileError (List Token)
  | none => .ok []
  | some (.on (first :: rest)) => do
    let written ← Expr.tokensOfEach scope 0 (first :: rest)
    pure ([.keyword .distinct, .space, .keyword .on, .space] ++
      Token.parenthesized (Token.commaSeparated written) ++ [.space])
  | some _ => .ok [.keyword .distinct, .space]

/-- The selected expressions, or else every field of the first source. -/
def projectionTokens (scope : Scope) (exprs : List Expr) : Except CompileError (List Token) :=
  if exprs.isEmpty then (Expr.source 0).tokens scope
  else do
    let written ← Expr.tokensOfEach scope 0 exprs
    pure (Token.commaSeparated written)

/-- The first line. -/
def selectLine (query : Query) (scope : Scope) : Except CompileError (List Token) := do
  let distinct ← distinctTokens scope query.distinct
  let projection ← projectionTokens scope query.select
  pure ([.keyword .select, .space] ++ distinct ++ projection)

/-- The table read from, unless there is no source. -/
def fromLine? (query : Query) (scope : Scope) : Except CompileError (Option (List Token)) :=
  if query.sources.isEmpty then .ok none
  else do
    let (source, shortName) ← scope.source? 0
    pure (some ([.keyword .from, .space] ++ aliasedTable source shortName))

/-- The line of a join with the source at a position. -/
def joinLine (scope : Scope) (position : Nat) (join : Join) : Except CompileError (List Token) := do
  let (source, shortName) ← scope.source? position
  let condition ← join.on.tokens scope
  pure (join.kind.tokens ++ [.space, .keyword .join, .space] ++ aliasedTable source shortName ++
    [.space, .keyword .on, .space] ++ condition)

/-- The lines of joins with the sources from a position on. -/
def joinLines (scope : Scope) (position : Nat) :
    List Join → Except CompileError (List (List Token))
  | [] => .ok []
  | join :: rest => do
    let line ← joinLine scope position join
    let others ← joinLines scope (position + 1) rest
    pure (line :: others)

/-- The ordering, unless there are no terms. -/
def orderByLine? (query : Query) (scope : Scope) : Except CompileError (Option (List Token)) :=
  if query.orderBys.isEmpty then .ok none
  else do
    let terms ← query.orderBys.mapM (SortTerm.tokens scope)
    pure (some (clauseTokens .orderBy terms))

/-- The lines of the statement, one for each clause that is present. -/
def lines (query : Query) (scope : Scope) : Except CompileError (List (List Token)) := do
  let select ← query.selectLine scope
  let source ← query.fromLine? scope
  let joins ← joinLines scope 1 query.joins
  let wheres ← whereLine? scope query.wheres
  let groupBys ← clauseLine? scope query.groupBys (clauseTokens .groupBy)
  let havings ← clauseLine? scope query.havings (conjunctionTokens .having)
  let orderBys ← query.orderByLine? scope
  let limit := query.limit.map (rowCountTokens .limit)
  let offset := query.offset.map (rowCountTokens .offset)
  let lock := query.lock.map fun lock ↦ [lock.token]
  pure (select :: (source.toList ++ joins ++ wheres.toList ++ groupBys.toList ++ havings.toList ++
    orderBys.toList ++ limit.toList ++ offset.toList ++ lock.toList))

/-- The scope of a query's expressions. -/
def scope (query : Query) (limit : Nat) : Scope :=
  Scope.ofSources query.sources limit

/-- The aliases of a query's sources. -/
def aliases (query : Query) : List String :=
  Alias.allocate (query.sources.map Source.table)

/-- The tokens of a query. -/
def tokens (query : Query) (limit : Nat) : Except CompileError (List Token) := do
  let lines ← query.lines (query.scope limit)
  pure (Token.separatedBy [.newline] lines)

end Query

end SqlCompose
