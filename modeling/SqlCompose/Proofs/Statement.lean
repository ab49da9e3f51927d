import SqlCompose.Compiler
import Mathlib.Data.List.Basic

/-!
The six statements as one type. Each is composed by its own function and compiled by its own method
of the compiler; `Statement.tokens` and `Statement.compile` choose between them, so that what holds
of all statements can be said once. `Statement.exprs` lists the expressions that become part of a
statement, clause by clause.

Composing goes through many steps each of which may fail. `bind_eq_ok` takes a successful sequence
of steps apart, and `forall_mem_mapM_iff` a successful traversal of a list.
-/

set_option autoImplicit false
set_option relaxedAutoImplicit false

namespace SqlCompose

/-! ### Successful sequences of steps -/

theorem bind_eq_ok {ε α β : Type} {first : Except ε α} {next : α → Except ε β} {result : β} :
    (first >>= next) = .ok result ↔ ∃ value, first = .ok value ∧ next value = .ok result := by
  cases first with
  | ok value =>
    constructor
    · intro hnext
      exact ⟨value, rfl, hnext⟩
    · rintro ⟨other, hother, hnext⟩
      cases hother
      exact hnext
  | error cause =>
    constructor
    · intro herror
      cases herror
    · rintro ⟨other, hother, -⟩
      cases hother

/-- A property of all results of a traversal is one of all items, if it is so step by step. -/
theorem forall_mem_mapM_iff {ε α β : Type} {step : α → Except ε β} {items : List α}
    {results : List β} (hresults : items.mapM step = .ok results) {before : α → Prop}
    {after : β → Prop}
    (hstep : ∀ item ∈ items, ∀ result, step item = .ok result → (after result ↔ before item)) :
    (∀ result ∈ results, after result) ↔ ∀ item ∈ items, before item := by
  induction items generalizing results with
  | nil =>
    cases hresults
    simp
  | cons item rest ih =>
    rw [List.mapM_cons] at hresults
    obtain ⟨first, hfirst, hothers⟩ := bind_eq_ok.mp hresults
    obtain ⟨others, hrest, hpure⟩ := bind_eq_ok.mp hothers
    cases hpure
    rw [List.forall_mem_cons, List.forall_mem_cons, hstep item (by simp) first hfirst,
      ih hrest fun other hmem ↦ hstep other (List.mem_cons_of_mem _ hmem)]

/-- What every step ensures holds of all results of a traversal. -/
theorem forall_mem_of_mapM {ε α β : Type} {step : α → Except ε β} {items : List α}
    {results : List β} (hresults : items.mapM step = .ok results) {after : β → Prop}
    (hstep : ∀ item ∈ items, ∀ result, step item = .ok result → after result) :
    ∀ result ∈ results, after result := by
  have hiff : (∀ result ∈ results, after result) ↔ ∀ item ∈ items, True :=
    forall_mem_mapM_iff hresults fun item hmem result hresult ↦
      iff_of_true (hstep item hmem result hresult) trivial
  exact hiff.mpr fun _ _ ↦ trivial

theorem Expr.tokensOfEach_eq_mapM (scope : Scope) (depth : Nat) (exprs : List Expr) :
    Expr.tokensOfEach scope depth exprs = exprs.mapM (Expr.tokensBelow scope depth) := by
  induction exprs with
  | nil => rfl
  | cons expr rest ih => rw [Expr.tokensOfEach, List.mapM_cons, ih]

/-! ### Statements -/

/-- The expressions by which duplicates are told. -/
def Distinct.exprs : Distinct → List Expr
  | rows => []
  | on exprs => exprs

/-- The expressions of a query, in the order of its clauses. -/
def Query.exprs (query : Query) : List Expr :=
  query.distinct.toList.flatMap Distinct.exprs ++ query.select ++ query.joins.map Join.on ++
    query.wheres ++ query.groupBys ++ query.havings ++ query.orderBys.map SortTerm.expr

/-- Text comes out exactly when there are tokens, and it is their spelling. -/
theorem Compiler.result_run_eq_ok_iff {compiler : Compiler} {name : String} {sources : Nat}
    {composed : Except CompileError (List Token)} {text : String} :
    (compiler.run name sources composed).result = .ok text ↔
      ∃ tokens, composed = .ok tokens ∧ text = compiler.dialect.render tokens := by
  cases composed with
  | ok tokens =>
    constructor
    · rintro ⟨⟩
      exact ⟨tokens, rfl, rfl⟩
    · rintro ⟨_, ⟨⟩, rfl⟩
      rfl
  | error cause => exact iff_of_false nofun nofun

/-- A statement of any kind. -/
inductive Statement
  | select (query : Query)
  | insert (row : Insert)
  | updateOne (update : UpdateOne)
  | updateAll (update : UpdateAll)
  | deleteOne (delete : DeleteOne)
  | deleteAll (delete : DeleteAll)

namespace Statement

/-- The tokens of a statement. -/
def tokens (limit : Nat) : Statement → Except CompileError (List Token)
  | select query => query.tokens limit
  | insert row => row.tokens limit
  | updateOne update => update.tokens limit
  | updateAll update => update.tokens limit
  | deleteOne delete => delete.tokens limit
  | deleteAll delete => delete.tokens limit

/-- The text of a statement. -/
def compile (compiler : Compiler) : Statement → Compilation
  | select query => compiler.select query
  | insert row => compiler.insert row
  | updateOne update => compiler.updateOne update
  | updateAll update => compiler.updateAll update
  | deleteOne delete => compiler.deleteOne delete
  | deleteAll delete => compiler.deleteAll delete

/-- The expressions that a statement contains. Bulk statements use only the conditions on rows of
their query. -/
def exprs : Statement → List Expr
  | select query => query.exprs
  | updateAll update => update.values.map Prod.snd ++ update.query.wheres
  | deleteAll delete => delete.query.wheres
  | _ => []

/-- The text of the lock clause, where a statement has one that is taken over as it stands. -/
def lockClause? : Statement → Option String
  | select query =>
    match query.lock with
    | some (.clause text) => some text
    | _ => none
  | _ => none

/-- A statement is compiled to the spelling of its tokens. -/
theorem compile_eq_ok {compiler : Compiler} {statement : Statement} {text : String}
    (hcompile : (statement.compile compiler).result = .ok text) :
    ∃ tokens, statement.tokens compiler.limit = .ok tokens ∧
      text = compiler.dialect.render tokens := by
  cases statement <;> exact Compiler.result_run_eq_ok_iff.mp hcompile

end Statement

end SqlCompose
