import SqlCompose.Expr
import SqlCompose.Schema

/-!
Queries. A query lists its sources and the expressions of its clauses: the source at position zero
is the table it reads from and the source at position `i + 1` is the table of join `i`. The
combinators either add to a clause or replace it; only joining adds a source and a join together.
-/

set_option autoImplicit false
set_option relaxedAutoImplicit false

namespace SqlCompose

/-- Which unmatched rows a join keeps. -/
inductive JoinKind
  | inner
  | left
  | right
  | full
deriving DecidableEq, Repr

/-- A join with the source that follows that of the previous join. -/
structure Join where
  kind : JoinKind
  on : Expr
deriving Repr

/-- The direction of an ordering. -/
inductive SortDirection
  | ascending
  | descending
deriving DecidableEq, Repr

/-- One term of an ordering. -/
structure SortTerm where
  expr : Expr
  direction : SortDirection := .ascending
deriving Repr

/-- Which rows count as duplicates. -/
inductive Distinct
  /-- Rows that agree in everything selected. -/
  | rows
  /-- Rows that agree in the given expressions; with none given, as for `rows`. -/
  | on (exprs : List Expr)
deriving Repr

/-- The lock taken on the selected rows. -/
inductive Lock
  | forUpdate
  /-- A clause that is part of the statement as it stands. -/
  | clause (text : String)
deriving DecidableEq, Repr

/-- A query. -/
structure Query where
  sources : List Source := []
  /-- What is selected; with nothing listed, every field of the first source. -/
  select : List Expr := []
  distinct : Option Distinct := none
  joins : List Join := []
  wheres : List Expr := []
  groupBys : List Expr := []
  havings : List Expr := []
  orderBys : List SortTerm := []
  limit : Option UInt64 := none
  offset : Option UInt64 := none
  lock : Option Lock := none

namespace Query

/-- The query without any clause. -/
def empty : Query := {}

/-- The query that reads from the given source, in place of the present first one. -/
def readingFrom (query : Query) (source : Source) : Query :=
  { query with sources := source :: query.sources.drop 1 }

/-- The query that selects the given expressions. -/
def selecting (query : Query) (exprs : List Expr) : Query :=
  { query with select := exprs }

/-- The query without duplicate rows. -/
def distinctRows (query : Query) : Query :=
  { query with distinct := some .rows }

/-- The query without rows that agree in the given expressions. -/
def distinctOn (query : Query) (exprs : List Expr) : Query :=
  { query with distinct := some (.on exprs) }

/-- The query joined with one more source. -/
def join (query : Query) (kind : JoinKind) (source : Source) (on : Expr) : Query :=
  { query with sources := query.sources ++ [source], joins := query.joins ++ [⟨kind, on⟩] }

/-- The query with one more condition on its rows. -/
def filter (query : Query) (condition : Expr) : Query :=
  { query with wheres := query.wheres ++ [condition] }

/-- The query grouped by the given expressions. -/
def groupBy (query : Query) (exprs : List Expr) : Query :=
  { query with groupBys := exprs }

/-- The query with one more condition on its groups. -/
def having (query : Query) (condition : Expr) : Query :=
  { query with havings := query.havings ++ [condition] }

/-- The query ordered by the given terms. -/
def orderBy (query : Query) (terms : List SortTerm) : Query :=
  { query with orderBys := terms }

/-- The query with at most the given number of rows. -/
def withLimit (query : Query) (rows : UInt64) : Query :=
  { query with limit := some rows }

/-- The query without the given number of first rows. -/
def withOffset (query : Query) (rows : UInt64) : Query :=
  { query with offset := some rows }

/-- The query with the given lock. -/
def withLock (query : Query) (lock : Lock) : Query :=
  { query with lock := some lock }

end Query

end SqlCompose
