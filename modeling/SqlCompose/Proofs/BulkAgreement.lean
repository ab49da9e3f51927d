import SqlCompose.Proofs.Lines

/-!
Bulk statements and the query that previews them. For a query without joins, a bulk deletion is the
word `DELETE` before the `FROM` and `WHERE` clauses of the composed query, and a bulk update names
the same table under the same alias and ends in the same `WHERE` clause
(`Compiler.bulk_agrees_with_select`). A condition thus means the same rows in all three statements,
and it is enough to compare clauses: those of the query are found between its line breaks.

The other clauses of a query play no part in bulk statements. Two queries with the same sources,
joins and conditions on rows have the same row selection (`Query.rowSelection`), and a bulk
statement is that of the row selection, with its failures and its reported events.
-/

set_option autoImplicit false
set_option relaxedAutoImplicit false

namespace SqlCompose

/-! ### Text of clauses -/

namespace Dialect

theorem render_append (dialect : Dialect) (before after : List Token) :
    dialect.render (before ++ after) = dialect.render before ++ dialect.render after := by
  rw [render, List.map_append, String.join_append]
  rfl

/-- The text of a clause with the space that sets it off from what stands before it, or nothing when
there is no clause. -/
def renderBehind (dialect : Dialect) : Option (List Token) → String
  | some clause => " " ++ dialect.render clause
  | none => ""

/-- The condition of a bulk statement is the `WHERE` clause of its query. -/
theorem render_bulkWritten (dialect : Dialect) (query : Query) (scope : Scope) :
    dialect.render (bulkWritten scope query.wheres) =
      dialect.renderBehind (query.whereWritten? scope) := by
  unfold bulkWritten
  rw [← Query.whereWritten?]
  cases query.whereWritten? scope with
  | none => rfl
  | some clause => exact dialect.render_append [.space] clause

end Dialect

namespace Query

theorem isSome_whereWritten? (query : Query) (scope : Scope) :
    (query.whereWritten? scope).isSome ↔ query.wheres ≠ [] := by
  unfold whereWritten? clauseWritten?
  split <;> simp_all

theorem isSome_head?_tables (query : Query) :
    query.tables.head?.isSome ↔ query.sources ≠ [] := by
  rw [List.isSome_head?, ← List.length_pos_iff, ← List.length_pos_iff, length_tables]

/-- The conditions on rows of a query that can be composed can be composed. -/
theorem IsComposable.wheres {query : Query} {limit : Nat} (hcomposable : query.IsComposable limit) :
    ∀ expr ∈ query.wheres, expr.Composable (query.scope limit) := by
  intro expr hmem
  refine hcomposable.1 expr ?_
  simp [exprs, spelledOut, hmem]

/-! ### Row selections -/

/-- What bulk statements use of a query: its sources, joins and conditions on rows. -/
def rowSelection (query : Query) : Query :=
  { sources := query.sources, joins := query.joins, wheres := query.wheres }

end Query

namespace Compiler

theorem deleteAll_rowSelection (compiler : Compiler) (query : Query) :
    compiler.deleteAll ⟨query.rowSelection⟩ = compiler.deleteAll ⟨query⟩ :=
  rfl

theorem updateAll_rowSelection (compiler : Compiler) (query : Query)
    (values : List (String × Expr)) :
    compiler.updateAll ⟨query.rowSelection, values⟩ = compiler.updateAll ⟨query, values⟩ :=
  rfl

/-! ### Clauses shared with the query -/

section Shared

variable {compiler : Compiler} {query : Query} {tokens : List Token} {text : String}

/-- A deletion consists of the clauses of the composed query. -/
theorem result_deleteAll_eq_ok_iff (hjoins : query.joins = [])
    (hok : query.tokens compiler.limit = .ok tokens) :
    (compiler.deleteAll ⟨query⟩).result = .ok text ↔
      ∃ clause, Token.clause? .from tokens = some clause ∧
        text = "DELETE " ++ compiler.dialect.render clause ++
          compiler.dialect.renderBehind (Token.clause? .where tokens) := by
  have hwheres := (Query.tokens_eq_of_ok hok).2.wheres
  rw [deleteAll, result_run_eq_ok_iff, Query.clause?_from hok, Query.clause?_where hok,
    ← Dialect.render_bulkWritten]
  simp only [DeleteAll.tokens_eq_ok_iff, Option.map_eq_some_iff]
  have htext (target : Source × String) :
      compiler.dialect.render ([.keyword .delete, .space, .keyword .from, .space] ++
          aliasedTable target.1 target.2 ++
          bulkWritten (query.scope compiler.limit) query.wheres) =
        "DELETE " ++ compiler.dialect.render (Query.fromWritten target) ++
          compiler.dialect.render (bulkWritten (query.scope compiler.limit) query.wheres) := by
    rw [Dialect.render_append]
    exact congrArg (· ++ _)
      (compiler.dialect.render_append [.keyword .delete, .space] (Query.fromWritten target))
  constructor
  · rintro ⟨_, ⟨target, ⟨-, hhead⟩, -, rfl⟩, rfl⟩
    exact ⟨_, ⟨target, hhead, rfl⟩, htext target⟩
  · rintro ⟨_, ⟨target, hhead, rfl⟩, rfl⟩
    exact ⟨_, ⟨target, ⟨hjoins, hhead⟩, hwheres, rfl⟩, (htext target).symm⟩

/-- An update names the table of the composed query, assigns to its columns and ends in the
conditions of the query. -/
theorem result_updateAll_eq_ok_iff {values : List (String × Expr)} (hjoins : query.joins = [])
    (hok : query.tokens compiler.limit = .ok tokens) :
    (compiler.updateAll ⟨query, values⟩).result = .ok text ↔
      values ≠ [] ∧ ∃ source shortName written,
        Token.clause? .from tokens =
          some ([.keyword .from, .space] ++ aliasedTable source shortName) ∧
        values.mapM (fun value ↦ value.2.tokens (query.scope compiler.limit)) = .ok written ∧
        text = "UPDATE " ++ compiler.dialect.render (aliasedTable source shortName) ++ " SET " ++
          compiler.dialect.render (Token.commaSeparated
            (List.zipWith assignmentTokens (values.map Prod.fst) written)) ++
          compiler.dialect.renderBehind (Token.clause? .where tokens) := by
  have hwheres := (Query.tokens_eq_of_ok hok).2.wheres
  have hvalues : Settles compiler.limit
      (∀ value ∈ values, value.2.Composable (query.scope compiler.limit))
      (values.map fun value ↦ value.2.written (query.scope compiler.limit))
      (values.mapM fun value ↦ value.2.tokens (query.scope compiler.limit)) :=
    Settles.mapM fun value _ ↦ value.2.settles_tokens _
  have hassigned : List.zipWith assignmentTokens (values.map Prod.fst)
      (values.map fun value ↦ value.2.written (query.scope compiler.limit)) =
      values.map (UpdateAll.assignmentWritten (query.scope compiler.limit)) := by
    rw [List.zipWith_map, List.zipWith_self]
    rfl
  have htext (table assignments condition : List Token) :
      compiler.dialect.render ([.keyword .update, .space] ++ table ++
          [.space, .keyword .set, .space] ++ assignments ++ condition) =
        "UPDATE " ++ compiler.dialect.render table ++ " SET " ++
          compiler.dialect.render assignments ++ compiler.dialect.render condition := by
    simp only [Dialect.render_append]
    rfl
  rw [updateAll, result_run_eq_ok_iff, Query.clause?_from hok, Query.clause?_where hok,
    ← Dialect.render_bulkWritten]
  simp only [UpdateAll.tokens_eq_ok_iff, Option.map_eq_some_iff, List.forall_mem_append,
    List.forall_mem_map]
  constructor
  · rintro ⟨_, ⟨target, ⟨-, hhead⟩, hne, ⟨hcomposable, -⟩, rfl⟩, rfl⟩
    refine ⟨hne, target.1, target.2, _, ⟨target, hhead, rfl⟩, hvalues.1 hcomposable, ?_⟩
    rw [htext, hassigned]
  · rintro ⟨hne, source, shortName, _, ⟨target, hhead, htarget⟩, hwritten, rfl⟩
    obtain ⟨rfl, hcomposable⟩ := hvalues.eq_of_ok hwritten
    refine ⟨_, ⟨target, ⟨hjoins, hhead⟩, hne, ⟨hcomposable, hwheres⟩, rfl⟩, ?_⟩
    rw [htext, hassigned, List.append_cancel_left htarget]

end Shared

/-- Bulk statements address the rows of their query. Let a query without joins be composed. It has a
`FROM` clause exactly when it has sources, and a `WHERE` clause exactly when it has conditions. Its
deletion is composed exactly when there is a `FROM` clause, and its text is `DELETE` before these
clauses. Its update is composed exactly when there are assignments besides, all of whose values can
be composed, and it has the same table and alias and the same `WHERE` clause. For every query, bulk
statements depend on the sources, joins and conditions on rows alone. -/
theorem bulk_agrees_with_select (compiler : Compiler) (query : Query) :
    (query.joins = [] → ∀ tokens, query.tokens compiler.limit = .ok tokens →
      ((Token.clause? .from tokens).isSome ↔ query.sources ≠ []) ∧
      ((Token.clause? .where tokens).isSome ↔ query.wheres ≠ []) ∧
      (∀ text, (compiler.deleteAll ⟨query⟩).result = .ok text ↔
        ∃ clause, Token.clause? .from tokens = some clause ∧
          text = "DELETE " ++ compiler.dialect.render clause ++
            compiler.dialect.renderBehind (Token.clause? .where tokens)) ∧
      ∀ values text, (compiler.updateAll ⟨query, values⟩).result = .ok text ↔
        values ≠ [] ∧ ∃ source shortName written,
          Token.clause? .from tokens =
            some ([.keyword .from, .space] ++ aliasedTable source shortName) ∧
          values.mapM (fun value ↦ value.2.tokens (query.scope compiler.limit)) = .ok written ∧
          text = "UPDATE " ++ compiler.dialect.render (aliasedTable source shortName) ++ " SET " ++
            compiler.dialect.render (Token.commaSeparated
              (List.zipWith assignmentTokens (values.map Prod.fst) written)) ++
            compiler.dialect.renderBehind (Token.clause? .where tokens)) ∧
    ∀ other : Query, other.sources = query.sources → other.joins = query.joins →
      other.wheres = query.wheres →
      compiler.deleteAll ⟨other⟩ = compiler.deleteAll ⟨query⟩ ∧
        ∀ values, compiler.updateAll ⟨other, values⟩ = compiler.updateAll ⟨query, values⟩ := by
  constructor
  · intro hjoins tokens hok
    refine ⟨?_, ?_, fun text ↦ result_deleteAll_eq_ok_iff hjoins hok,
      fun values text ↦ result_updateAll_eq_ok_iff hjoins hok⟩
    · rw [Query.clause?_from hok, Option.isSome_map, Query.isSome_head?_tables]
    · rw [Query.clause?_where hok, Query.isSome_whereWritten?]
  · intro other hsources hjoins hwheres
    have hselection : other.rowSelection = query.rowSelection := by
      rw [Query.rowSelection, hsources, hjoins, hwheres]
      rfl
    constructor
    · rw [← deleteAll_rowSelection, hselection, deleteAll_rowSelection]
    · intro values
      rw [← updateAll_rowSelection, hselection, updateAll_rowSelection]

/-- A query of one table with a condition and a row limit, and the deletion of its rows, which has
no limit. -/
theorem bulk_agrees_with_select_users :
    let query : Query :=
      { sources := [.ofSchema ⟨"users", [], none⟩], wheres := [.isNull (.field 0 "email")]
        limit := some 10 }
    let compiler : Compiler := {}
    ∃ tokens clause, query.tokens compiler.limit = .ok tokens ∧
      Token.clause? .from tokens = some clause ∧ (Token.clause? .where tokens).isSome ∧
      (compiler.deleteAll ⟨query⟩).result = .ok ("DELETE " ++ compiler.dialect.render clause ++
        compiler.dialect.renderBehind (Token.clause? .where tokens)) ∧
      compiler.deleteAll ⟨{ query with limit := none }⟩ = compiler.deleteAll ⟨query⟩ := by
  intro query compiler
  obtain ⟨hagree, hother⟩ := compiler.bulk_agrees_with_select query
  obtain ⟨hfrom, hwhere, hdelete, -⟩ := hagree rfl _ rfl
  obtain ⟨clause, hclause⟩ := Option.isSome_iff_exists.mp (hfrom.mpr (List.cons_ne_nil _ _))
  exact ⟨_, clause, rfl, hclause, hwhere.mpr (List.cons_ne_nil _ _),
    (hdelete _).mpr ⟨clause, hclause, rfl⟩, (hother _ rfl rfl rfl).1⟩

end Compiler

end SqlCompose
