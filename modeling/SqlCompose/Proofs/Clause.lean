import SqlCompose.Proofs.Acceptance
import SqlCompose.Proofs.Alias
import SqlCompose.Proofs.Statement

/-!
What composed queries and bulk statements look like. When every expression of a query can be
composed and every join has a source, composing it gives its written lines, which are put together
from the forms of its expressions without any check; otherwise it fails (`Query.settles_lines`). The
tables of a query are its sources with their aliases: the first one is read from and the others are
joined in order.

A bulk statement that is composed has a target, the first table of its query, and its tokens are
written around that target (`UpdateAll.tokens_eq_ok_iff`, `DeleteAll.tokens_eq_ok_iff`). What holds
of statements that are accepted can thus be read off their written tokens.
-/

set_option autoImplicit false
set_option relaxedAutoImplicit false

namespace SqlCompose

/-! ### Expressions on their own -/

/-- A traversal settles when each of its steps does. -/
theorem Settles.mapM {α β : Type} {limit : Nat} {condition : α → Prop} {value : α → β}
    {step : α → Except CompileError β} {items : List α}
    (hstep : ∀ item ∈ items, Settles limit (condition item) (value item) (step item)) :
    Settles limit (∀ item ∈ items, condition item) (items.map value) (items.mapM step) := by
  induction items with
  | nil => exact (Settles.ok []).congr (by simp)
  | cons item rest ih =>
    rw [List.forall_mem_cons] at hstep
    rw [List.mapM_cons, List.forall_mem_cons]
    exact hstep.1.bind fun _ ↦ (ih hstep.2).map rfl

namespace Expr

/-- The tokens of an expression in a scope in which it can be composed. -/
def written (scope : Scope) (expr : Expr) : List Token :=
  expr.form.tokens scope

/-- An expression can be composed in a scope. -/
def Composable (scope : Scope) (expr : Expr) : Prop :=
  expr.ComposableBelow scope 0

theorem settles_tokens (scope : Scope) (expr : Expr) :
    Settles scope.limit (expr.Composable scope) (expr.written scope) (expr.tokens scope) :=
  settles_tokensBelow scope expr 0

theorem settles_each (scope : Scope) (exprs : List Expr) :
    Settles scope.limit (∀ expr ∈ exprs, expr.Composable scope) (exprs.map (written scope))
      (tokensOfEach scope 0 exprs) := by
  rw [tokensOfEach_eq_mapM]
  exact Settles.mapM fun expr _ ↦ expr.settles_tokens scope

end Expr

/-- A source is found together with its alias when both are there. -/
theorem Scope.source?_eq_ok {scope : Scope} {index : Nat} (halias : index < scope.aliases.length)
    (hsource : index < scope.sources.length) :
    scope.source? index = .ok (scope.sources[index], scope.aliases[index]) := by
  unfold Scope.source? Alias.at?
  rw [List.getElem?_eq_getElem halias, List.getElem?_eq_getElem hsource]
  rfl

theorem Scope.source?_eq_error {scope : Scope} {index : Nat}
    (halias : scope.aliases.length ≤ index) :
    scope.source? index = .error (.sourceOutOfRange index scope.aliases.length) := by
  unfold Scope.source? Alias.at?
  rw [List.getElem?_eq_none halias]
  rfl

/-! ### Clauses -/

/-- A clause as written, absent when there are no expressions. -/
def clauseWritten? (scope : Scope) (exprs : List Expr) (line : List (List Token) → List Token) :
    Option (List Token) :=
  if exprs.isEmpty then none else some (line (exprs.map (Expr.written scope)))

theorem settles_clauseLine? (scope : Scope) (exprs : List Expr)
    (line : List (List Token) → List Token) :
    Settles scope.limit (∀ expr ∈ exprs, expr.Composable scope) (clauseWritten? scope exprs line)
      (clauseLine? scope exprs line) := by
  unfold clauseLine? clauseWritten?
  split_ifs with hempty
  · rw [List.isEmpty_iff] at hempty
    exact (Settles.ok none).congr (by simp [hempty])
  · exact (Expr.settles_each scope exprs).map rfl

/-- One term of an ordering as written. -/
def SortTerm.written (scope : Scope) (term : SortTerm) : List Token :=
  if term.direction = .descending then term.expr.written scope ++ [.space, .keyword .desc]
  else term.expr.written scope

theorem SortTerm.settles_tokens (scope : Scope) (term : SortTerm) :
    Settles scope.limit (term.expr.Composable scope) (term.written scope) (term.tokens scope) :=
  (term.expr.settles_tokens scope).map rfl

namespace Query

/-- The sources of a query with their aliases. -/
def tables (query : Query) : List (Source × String) :=
  query.sources.zip query.aliases

/-- The selected expressions: the first source as a whole when none are listed. -/
def projection (query : Query) : List Expr :=
  if query.select.isEmpty then [.source 0] else query.select

/-- The query with its projection spelled out. -/
def spelledOut (query : Query) : Query :=
  { query with select := query.projection }

/-- What stands between `SELECT` and the selected expressions, as written. -/
def distinctWritten (scope : Scope) : Option Distinct → List Token
  | none => []
  | some (.on (first :: rest)) =>
    [.keyword .distinct, .space, .keyword .on, .space] ++ Token.parenthesized
      (Token.commaSeparated ((first :: rest).map (Expr.written scope))) ++ [.space]
  | some _ => [.keyword .distinct, .space]

/-- The first line as written. -/
def selectWritten (query : Query) (scope : Scope) : List Token :=
  [.keyword .select, .space] ++ distinctWritten scope query.distinct ++
    Token.commaSeparated (query.projection.map (Expr.written scope))

/-- The line of the table read from, as written. -/
def fromWritten (table : Source × String) : List Token :=
  [.keyword .from, .space] ++ aliasedTable table.1 table.2

/-- The line of a table and the join that adds it, as written. -/
def joinWritten (scope : Scope) (joined : (Source × String) × Join) : List Token :=
  joined.2.kind.tokens ++ [.space, .keyword .join, .space] ++
    aliasedTable joined.1.1 joined.1.2 ++ [.space, .keyword .on, .space] ++
    joined.2.on.written scope

/-- The joined tables, each with its join. -/
def joined (query : Query) : List ((Source × String) × Join) :=
  (query.tables.drop 1).zip query.joins

/-- The ordering as written, absent when there are no terms. -/
def orderByWritten? (query : Query) (scope : Scope) : Option (List Token) :=
  if query.orderBys.isEmpty then none
  else some (clauseTokens .orderBy (query.orderBys.map (SortTerm.written scope)))

/-- The conditions on rows as written, absent when there are none. -/
def whereWritten? (query : Query) (scope : Scope) : Option (List Token) :=
  clauseWritten? scope query.wheres (conjunctionTokens .where)

/-- The lines after the conditions on rows, as written. -/
def laterWritten (query : Query) (scope : Scope) : List (List Token) :=
  (clauseWritten? scope query.groupBys (clauseTokens .groupBy)).toList ++
    (clauseWritten? scope query.havings (conjunctionTokens .having)).toList ++
    (query.orderByWritten? scope).toList ++ (query.limit.map (rowCountTokens .limit)).toList ++
    (query.offset.map (rowCountTokens .offset)).toList ++
    (query.lock.map fun lock ↦ [lock.token]).toList

/-- The lines after those of the tables, as written. -/
def restWritten (query : Query) (scope : Scope) : List (List Token) :=
  (query.whereWritten? scope).toList ++ query.laterWritten scope

/-- The lines of the tables, as written. -/
def tablesWritten (query : Query) (scope : Scope) : List (List Token) :=
  (query.tables.head?.map fromWritten).toList ++
    query.joined.map (joinWritten scope)

/-- The lines of the statement, as written. -/
def linesWritten (query : Query) (scope : Scope) : List (List Token) :=
  query.selectWritten scope :: (query.tablesWritten scope ++ query.restWritten scope)

/-! ### Composing the clauses of a query -/

/-- Every expression of a query, spelled out, can be composed, and every join has a source besides
the one that is read from. -/
def IsComposable (query : Query) (limit : Nat) : Prop :=
  (∀ expr ∈ query.spelledOut.exprs, expr.Composable (query.scope limit)) ∧
    query.joins.length ≤ query.sources.length - 1

/-- What can be composed of a query, clause by clause. -/
theorem IsComposable.each {query : Query} {limit : Nat} (hcomposable : query.IsComposable limit) :
    (∀ expr ∈ query.distinct.toList.flatMap Distinct.exprs,
        expr.Composable (query.scope limit)) ∧
      (∀ expr ∈ query.projection, expr.Composable (query.scope limit)) ∧
      (∀ join ∈ query.joins, join.on.Composable (query.scope limit)) ∧
      (∀ expr ∈ query.wheres, expr.Composable (query.scope limit)) ∧
      (∀ expr ∈ query.groupBys, expr.Composable (query.scope limit)) ∧
      (∀ expr ∈ query.havings, expr.Composable (query.scope limit)) ∧
      ∀ term ∈ query.orderBys, term.expr.Composable (query.scope limit) := by
  have hexprs := hcomposable.1
  simpa only [exprs, spelledOut, List.forall_mem_append, List.forall_mem_map, and_assoc]
    using hexprs

theorem length_aliases (query : Query) : query.aliases.length = query.sources.length := by
  rw [aliases, Alias.length_allocate, List.length_map]

theorem length_tables (query : Query) : query.tables.length = query.sources.length := by
  rw [tables, List.length_zip, length_aliases, Nat.min_self]

theorem map_snd_tables (query : Query) : query.tables.map Prod.snd = query.aliases :=
  List.map_snd_zip (Nat.le_of_eq query.length_aliases)

/-- With enough sources every join has its table. -/
theorem map_snd_joined {query : Query}
    (hjoins : query.joins.length ≤ query.sources.length - 1) :
    query.joined.map Prod.snd = query.joins := by
  refine List.map_snd_zip ?_
  rwa [List.length_drop, length_tables]

/-- The joined tables are those behind the first, as many as there are joins. -/
theorem map_fst_joined (query : Query) :
    query.joined.map Prod.fst = (query.tables.drop 1).take query.joins.length := by
  unfold joined
  generalize query.tables.drop 1 = tables
  induction query.joins generalizing tables with
  | nil => simp
  | cons join rest ih =>
    cases tables with
    | nil => rfl
    | cons table others => rw [List.zip_cons_cons, List.map_cons, ih, List.length_cons,
        List.take_succ_cons]

/-- Looking up a source gives the table at its position. -/
theorem source?_eq (query : Query) (limit index : Nat) :
    (query.scope limit).source? index =
      match query.tables[index]? with
      | some table => .ok table
      | none => .error (.sourceOutOfRange index query.sources.length) := by
  have hlength := query.length_aliases
  have hzip := query.length_tables
  by_cases hindex : index < query.sources.length
  · have halias : index < query.aliases.length := by omega
    have hfound : (query.scope limit).source? index =
        .ok (query.sources[index], query.aliases[index]) := Scope.source?_eq_ok halias hindex
    rw [hfound, List.getElem?_eq_getElem (by omega)]
    simp only [tables, List.getElem_zip]
  · have halias : query.aliases.length ≤ index := by omega
    have hmissing : (query.scope limit).source? index =
        .error (.sourceOutOfRange index query.aliases.length) := Scope.source?_eq_error halias
    rw [hmissing, List.getElem?_eq_none (by omega), hlength]

theorem settles_distinctTokens (scope : Scope) (distinct : Option Distinct) :
    Settles scope.limit
      (∀ expr ∈ distinct.toList.flatMap Distinct.exprs, expr.Composable scope)
      (distinctWritten scope distinct) (distinctTokens scope distinct) := by
  rcases distinct with - | (- | (- | ⟨first, rest⟩))
  · exact (Settles.ok _).congr (by simp)
  · exact (Settles.ok _).congr (by simp [Distinct.exprs])
  · exact (Settles.ok _).congr (by simp [Distinct.exprs])
  · refine Settles.congr ((Expr.settles_each scope (first :: rest)).map rfl) ?_
    simp [Distinct.exprs]

theorem settles_projectionTokens (query : Query) (scope : Scope) :
    Settles scope.limit (∀ expr ∈ query.projection, expr.Composable scope)
      (Token.commaSeparated (query.projection.map (Expr.written scope)))
      (projectionTokens scope query.select) := by
  unfold projectionTokens projection
  split
  · exact ((Expr.source 0).settles_tokens scope).congr (by simp)
  · exact (Expr.settles_each scope query.select).map rfl

theorem settles_selectLine (query : Query) (scope : Scope) :
    Settles scope.limit
      ((∀ expr ∈ query.distinct.toList.flatMap Distinct.exprs, expr.Composable scope) ∧
        ∀ expr ∈ query.projection, expr.Composable scope)
      (query.selectWritten scope) (query.selectLine scope) :=
  (settles_distinctTokens scope query.distinct).bind fun _ ↦
    (query.settles_projectionTokens scope).map rfl

/-- The line of the table read from never fails. -/
theorem fromLine?_eq (query : Query) (limit : Nat) :
    query.fromLine? (query.scope limit) = .ok (query.tables.head?.map fromWritten) := by
  have hlength := query.length_tables
  unfold fromLine?
  rw [source?_eq]
  cases htables : query.tables with
  | nil =>
    rw [htables, List.length_nil] at hlength
    rw [List.isEmpty_iff_length_eq_zero.mpr hlength.symm]
    rfl
  | cons table rest =>
    have hsources : query.sources.isEmpty = false := by
      rw [htables, List.length_cons] at hlength
      exact List.isEmpty_eq_false_iff_exists_mem.mpr (List.exists_mem_of_length_pos (by omega))
    rw [hsources]
    rfl

theorem settles_joinLine (query : Query) (limit : Nat) {position : Nat} {table : Source × String}
    (htable : query.tables[position]? = some table) (join : Join) :
    Settles limit (join.on.Composable (query.scope limit))
      (joinWritten (query.scope limit) (table, join))
      (joinLine (query.scope limit) position join) := by
  rw [joinLine, source?_eq, htable]
  exact (join.on.settles_tokens (query.scope limit)).map rfl

/-- Composing joins settles when their conditions can be composed and there are enough tables. -/
theorem settles_joinLines (query : Query) (limit position : Nat) (joins : List Join) :
    Settles limit
      ((∀ join ∈ joins, join.on.Composable (query.scope limit)) ∧
        joins.length ≤ query.tables.length - position)
      (((query.tables.drop position).zip joins).map (joinWritten (query.scope limit)))
      (joinLines (query.scope limit) position joins) := by
  induction joins generalizing position with
  | nil =>
    rw [List.zip_nil_right]
    exact (Settles.ok []).congr (by simp)
  | cons join rest ih =>
    rw [joinLines]
    by_cases hposition : position < query.tables.length
    · rw [List.drop_eq_getElem_cons hposition, List.zip_cons_cons, List.map_cons,
        List.forall_mem_cons, List.length_cons]
      have htable := List.getElem?_eq_getElem hposition
      refine Settles.congr ((query.settles_joinLine limit htable join).bind fun _ ↦
        (ih (position + 1)).map rfl) ?_
      rw [and_assoc]
      refine and_congr_right fun _ ↦ and_congr_right fun _ ↦ ?_
      omega
    · rw [joinLine, source?_eq, List.getElem?_eq_none (Nat.le_of_not_lt hposition)]
      constructor
      · rintro ⟨-, hlength⟩
        rw [List.length_cons] at hlength
        omega
      · intro _
        refine ⟨_, rfl, .source _ _ ?_⟩
        rw [← length_tables]
        exact Nat.le_of_not_lt hposition

theorem settles_orderByLine? (query : Query) (scope : Scope) :
    Settles scope.limit (∀ term ∈ query.orderBys, term.expr.Composable scope)
      (query.orderByWritten? scope) (query.orderByLine? scope) := by
  unfold orderByLine? orderByWritten?
  split_ifs with hempty
  · rw [List.isEmpty_iff] at hempty
    exact (Settles.ok none).congr (by simp [hempty])
  · exact (Settles.mapM fun term _ ↦ term.settles_tokens scope).map rfl

/-- Composing a query settles on its written lines. -/
theorem settles_lines (query : Query) (limit : Nat) :
    Settles limit (query.IsComposable limit) (query.linesWritten (query.scope limit))
      (query.lines (query.scope limit)) := by
  have hfrom : Settles limit True (query.tables.head?.map fromWritten)
      (query.fromLine? (query.scope limit)) := by
    rw [fromLine?_eq]
    exact Settles.ok _
  refine Settles.congr ((query.settles_selectLine (query.scope limit)).bind fun _ ↦
    hfrom.bind fun _ ↦ (query.settles_joinLines limit 1 query.joins).bind fun _ ↦
    (settles_clauseLine? (query.scope limit) query.wheres _).bind fun _ ↦
    (settles_clauseLine? (query.scope limit) query.groupBys _).bind fun _ ↦
    (settles_clauseLine? (query.scope limit) query.havings _).bind fun _ ↦
    (query.settles_orderByLine? (query.scope limit)).map ?_) ?_
  · simp only [linesWritten, tablesWritten, joined, restWritten, whereWritten?, laterWritten,
      List.append_assoc]
    rfl
  · simp only [IsComposable, exprs, spelledOut, List.forall_mem_append, List.forall_mem_map,
      length_tables]
    tauto

/-- The tokens of a query that is composed are those of its written lines. -/
theorem tokens_eq_of_ok {query : Query} {limit : Nat} {tokens : List Token}
    (hok : query.tokens limit = .ok tokens) :
    tokens = Token.separatedBy [.newline] (query.linesWritten (query.scope limit)) ∧
      query.IsComposable limit := by
  obtain ⟨lines, hlines, hpure⟩ := bind_eq_ok.mp hok
  cases hpure
  obtain ⟨rfl, hcomposable⟩ := (query.settles_lines limit).eq_of_ok hlines
  exact ⟨rfl, hcomposable⟩

end Query

/-! ### Bulk statements -/

/-- The condition of a bulk statement as written, with the space that sets it off. -/
def bulkWritten (scope : Scope) (conditions : List Expr) : List Token :=
  match clauseWritten? scope conditions (conjunctionTokens .where) with
  | some line => .space :: line
  | none => []

theorem settles_bulkCondition (scope : Scope) (conditions : List Expr) :
    Settles scope.limit (∀ expr ∈ conditions, expr.Composable scope)
      (bulkWritten scope conditions) (bulkCondition scope conditions) := by
  refine (settles_clauseLine? scope conditions (conjunctionTokens .where)).map ?_
  unfold bulkWritten
  cases clauseWritten? scope conditions (conjunctionTokens .where) <;> rfl

/-- The target of a bulk statement is the first table of a query without joins. -/
theorem bulkTarget_eq_ok_iff {query : Query} {limit : Nat} {target : Source × String} :
    bulkTarget query (query.scope limit) = .ok target ↔
      query.joins = [] ∧ query.tables.head? = some target := by
  rw [bulkTarget, Query.source?_eq, ← List.head?_eq_getElem?, ← List.isEmpty_iff]
  split_ifs with hjoins
  · rw [and_iff_right hjoins]
    cases query.tables.head? with
    | none => exact iff_of_false nofun nofun
    | some table => rw [Except.ok.injEq, Option.some.injEq]
  · exact iff_of_false nofun fun hboth ↦ hjoins hboth.1

/-- An assignment of a bulk update as written. -/
def UpdateAll.assignmentWritten (scope : Scope) (assignment : String × Expr) : List Token :=
  assignmentTokens assignment.1 (assignment.2.written scope)

/-- The assignments of a bulk update settle on what is written for them. -/
theorem UpdateAll.settles_assignments (scope : Scope) (values : List (String × Expr)) :
    Settles scope.limit (∀ value ∈ values, value.2.Composable scope)
      (values.map (assignmentWritten scope))
      (values.mapM fun value ↦ do
        let written ← value.2.tokens scope
        pure (assignmentTokens value.1 written)) :=
  Settles.mapM fun value _ ↦ (value.2.settles_tokens scope).map rfl

/-- A bulk update is composed exactly when it has a target and assignments and its expressions can
be composed; its tokens are then written around the target. -/
theorem UpdateAll.tokens_eq_ok_iff {update : UpdateAll} {limit : Nat} {tokens : List Token} :
    update.tokens limit = .ok tokens ↔
      ∃ target, (update.query.joins = [] ∧ update.query.tables.head? = some target) ∧
        update.values ≠ [] ∧
        (∀ expr ∈ update.values.map Prod.snd ++ update.query.wheres,
          expr.Composable (update.query.scope limit)) ∧
        tokens = [.keyword .update, .space] ++ aliasedTable target.1 target.2 ++
          [.space, .keyword .set, .space] ++ Token.commaSeparated
            (update.values.map (assignmentWritten (update.query.scope limit))) ++
          bulkWritten (update.query.scope limit) update.query.wheres := by
  have hvalues := settles_assignments (update.query.scope limit) update.values
  have hwheres := settles_bulkCondition (update.query.scope limit) update.query.wheres
  rw [UpdateAll.tokens, bind_eq_ok]
  refine exists_congr fun target ↦ and_congr bulkTarget_eq_ok_iff ?_
  rw [List.forall_mem_append, List.forall_mem_map, Ne, ← List.isEmpty_iff]
  dsimp only
  split_ifs with hempty
  · exact iff_of_false nofun fun hall ↦ hall.1 hempty
  · rw [and_iff_right hempty, bind_eq_ok]
    constructor
    · rintro ⟨assignments, hassignments, hok⟩
      obtain ⟨condition, hcondition, hpure⟩ := bind_eq_ok.mp hok
      cases hpure
      obtain ⟨rfl, hassigned⟩ := hvalues.eq_of_ok hassignments
      obtain ⟨rfl, hconditions⟩ := hwheres.eq_of_ok hcondition
      exact ⟨⟨hassigned, hconditions⟩, rfl⟩
    · rintro ⟨⟨hassigned, hconditions⟩, rfl⟩
      exact ⟨_, hvalues.1 hassigned, bind_eq_ok.mpr ⟨_, hwheres.1 hconditions, rfl⟩⟩

/-- A bulk deletion is composed exactly when it has a target and its conditions can be composed; its
tokens are then written around the target. -/
theorem DeleteAll.tokens_eq_ok_iff {delete : DeleteAll} {limit : Nat} {tokens : List Token} :
    delete.tokens limit = .ok tokens ↔
      ∃ target, (delete.query.joins = [] ∧ delete.query.tables.head? = some target) ∧
        (∀ expr ∈ delete.query.wheres, expr.Composable (delete.query.scope limit)) ∧
        tokens = [.keyword .delete, .space, .keyword .from, .space] ++
          aliasedTable target.1 target.2 ++
          bulkWritten (delete.query.scope limit) delete.query.wheres := by
  have hwheres := settles_bulkCondition (delete.query.scope limit) delete.query.wheres
  rw [DeleteAll.tokens, bind_eq_ok]
  refine exists_congr fun target ↦ and_congr bulkTarget_eq_ok_iff ?_
  rw [bind_eq_ok]
  constructor
  · rintro ⟨condition, hcondition, hpure⟩
    cases hpure
    obtain ⟨rfl, hconditions⟩ := hwheres.eq_of_ok hcondition
    exact ⟨hconditions, rfl⟩
  · rintro ⟨hconditions, rfl⟩
    exact ⟨_, hwheres.1 hconditions, rfl⟩

end SqlCompose
