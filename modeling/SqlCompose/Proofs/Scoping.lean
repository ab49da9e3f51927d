import SqlCompose.Proofs.Lines
import SqlCompose.Proofs.Qualifier

/-!
Scoping of aliases. A composed query declares an alias for the table it reads from and one for each
join, pairwise different, and every qualifier in it is one of them exactly when its expressions
refer to no position beyond the joins (`Query.qualifiers_declared`). Queries that are built step by
step, starting from a first source, always have one source more than joins, so in them every
qualifier is declared.

A bulk statement declares only the alias of its target. It refuses joins, but it looks up references
among all sources of its query, so a reference to a second source without a join is written with an
alias that the statement does not declare: its qualifiers are the target's alias exactly when all
its expressions refer to the first position (`Statement.qualifiers_target`).
-/

set_option autoImplicit false
set_option relaxedAutoImplicit false

namespace SqlCompose

/-! ### Positions and aliases -/

theorem Expr.Composable.position_lt {scope : Scope} {expr : Expr}
    (hcomposable : expr.Composable scope) {position : UInt64} (hmem : position ∈ expr.positions) :
    position.toNat < scope.aliases.length := by
  obtain ⟨node, hnode, hposition⟩ := List.mem_filterMap.mp hmem
  have hwithin := hcomposable.2.1 node hnode
  cases node with
  | field other name =>
    cases hposition
    exact hwithin
  | source other =>
    cases hposition
    exact hwithin.1
  | _ => cases hposition

/-- A condition on all qualifiers of composable expressions is one on the aliases of the positions
to which they refer. -/
theorem Expr.forall_mem_qualifiers_iff {scope : Scope} {exprs : List Expr}
    (hcomposable : ∀ expr ∈ exprs, expr.Composable scope) {condition : String → Prop} :
    (∀ name ∈ exprs.flatMap (Expr.qualifiers scope), condition name) ↔
      ∀ expr ∈ exprs, ∀ position ∈ expr.positions, condition (scope.shortName position) := by
  simp only [List.mem_flatMap]
  constructor
  · intro hall expr hexpr position hposition
    refine hall _ ⟨expr, hexpr, ?_⟩
    exact (mem_qualifiers_written (hcomposable expr hexpr)).mpr (List.mem_map_of_mem hposition)
  · rintro hall name ⟨expr, hexpr, hname⟩
    obtain ⟨position, hposition, rfl⟩ :=
      List.mem_map.mp ((mem_qualifiers_written (hcomposable expr hexpr)).mp hname)
    exact hall expr hexpr position hposition

/-- Among different aliases, that of a position is one of the first ones exactly when the position
is. -/
theorem Scope.shortName_mem_take_iff {scope : Scope} (haliases : scope.aliases.Nodup)
    {position : UInt64} (hposition : position.toNat < scope.aliases.length) (count : Nat) :
    scope.shortName position ∈ scope.aliases.take count ↔ position.toNat < count := by
  rw [shortName_eq_getElem hposition, List.mem_take_iff_getElem]
  constructor
  · rintro ⟨index, hindex, heq⟩
    have hsame : index = position.toNat := (List.getElem_inj haliases).mp heq
    omega
  · intro hlt
    exact ⟨position.toNat, by omega, rfl⟩

namespace Query

theorem nodup_aliases (query : Query) : query.aliases.Nodup :=
  Alias.nodup_allocate _

/-! ### Queries under construction -/

/-- One step in the construction of a query. -/
inductive Step
  | readingFrom (source : Source)
  | selecting (exprs : List Expr)
  | distinctRows
  | distinctOn (exprs : List Expr)
  | join (kind : JoinKind) (source : Source) (on : Expr)
  | filter (condition : Expr)
  | groupBy (exprs : List Expr)
  | having (condition : Expr)
  | orderBy (terms : List SortTerm)
  | withLimit (rows : UInt64)
  | withOffset (rows : UInt64)
  | withLock (lock : Lock)

/-- The query after one more step. -/
def step (query : Query) : Step → Query
  | .readingFrom source => query.readingFrom source
  | .selecting exprs => query.selecting exprs
  | .distinctRows => query.distinctRows
  | .distinctOn exprs => query.distinctOn exprs
  | .join kind source on => query.join kind source on
  | .filter condition => query.filter condition
  | .groupBy exprs => query.groupBy exprs
  | .having condition => query.having condition
  | .orderBy terms => query.orderBy terms
  | .withLimit rows => query.withLimit rows
  | .withOffset rows => query.withOffset rows
  | .withLock lock => query.withLock lock

/-- The query that reads from a source, after some steps. -/
def built (source : Source) (steps : List Step) : Query :=
  steps.foldl step (empty.readingFrom source)

/-- Every step keeps one source more than there are joins. -/
theorem length_sources_step {query : Query}
    (hlength : query.sources.length = query.joins.length + 1) (next : Step) :
    (query.step next).sources.length = (query.step next).joins.length + 1 := by
  cases next with
  | readingFrom source =>
    change (query.sources.drop 1).length + 1 = query.joins.length + 1
    rw [List.length_drop]
    omega
  | join kind source on =>
    change (query.sources ++ [source]).length = (query.joins ++ [Join.mk kind on]).length + 1
    rw [List.length_append, List.length_append, hlength]
    rfl
  | _ => exact hlength

theorem length_sources_built (source : Source) (steps : List Step) :
    (built source steps).sources.length = (built source steps).joins.length + 1 := by
  have hrun (query : Query) (hlength : query.sources.length = query.joins.length + 1) :
      (steps.foldl step query).sources.length = (steps.foldl step query).joins.length + 1 := by
    induction steps generalizing query with
    | nil => exact hlength
    | cons next rest ih => exact ih (query.step next) (length_sources_step hlength next)
  exact hrun _ rfl

/-! ### Declared aliases of a query -/

/-- Spelling out the projection adds at most a reference to the first position. -/
theorem forall_mem_spelledOut_iff (query : Query) {condition : UInt64 → Prop}
    (hfirst : condition 0) :
    (∀ expr ∈ query.spelledOut.exprs, ∀ position ∈ expr.positions, condition position) ↔
      ∀ expr ∈ query.exprs, ∀ position ∈ expr.positions, condition position := by
  have hprojection : (∀ expr ∈ query.projection, ∀ position ∈ expr.positions, condition position) ↔
      ∀ expr ∈ query.select, ∀ position ∈ expr.positions, condition position := by
    unfold projection
    split_ifs with hempty
    · rw [List.isEmpty_iff.mp hempty, List.forall_mem_singleton, Expr.positions_source,
        List.forall_mem_singleton]
      exact iff_of_true hfirst (by simp)
    · rfl
  simp only [exprs, spelledOut, List.forall_mem_append, hprojection]

/-- In a composed query every qualifier is declared exactly when no expression refers to a position
beyond the joins. -/
theorem forall_mem_tableAliases_iff {query : Query} {limit : Nat} {tokens : List Token}
    (hok : query.tokens limit = .ok tokens) :
    (∀ name ∈ Token.qualifiers tokens, name ∈ Token.tableAliases tokens) ↔
      ∀ expr ∈ query.exprs, ∀ position ∈ expr.positions,
        position.toNat ≤ query.joins.length := by
  obtain ⟨hcomposable, -⟩ := (tokens_eq_of_ok hok).2
  rw [tableAliases_tokens hok, qualifiers_tokens_eq hok,
    Expr.forall_mem_qualifiers_iff hcomposable, ← forall_mem_spelledOut_iff query (Nat.zero_le _)]
  refine forall₂_congr fun expr hexpr ↦ forall₂_congr fun position hposition ↦ ?_
  have hlt := (hcomposable expr hexpr).position_lt hposition
  rw [← Nat.lt_succ_iff]
  exact Scope.shortName_mem_take_iff query.nodup_aliases hlt (query.joins.length + 1)

/-- A composed query has a source for every join, besides the one it reads from. -/
theorem length_tableAliases {query : Query} {limit : Nat} {tokens : List Token}
    (hok : query.tokens limit = .ok tokens) :
    (Token.tableAliases tokens).length =
      if query.sources.isEmpty then 0 else query.joins.length + 1 := by
  obtain ⟨-, hjoins⟩ := (tokens_eq_of_ok hok).2
  rw [tableAliases_tokens hok, List.length_take, length_aliases]
  split_ifs with hempty
  · rw [List.isEmpty_iff.mp hempty]
    exact Nat.min_zero _
  · have hpos : 0 < query.sources.length :=
      List.length_pos_iff.mpr (mt List.isEmpty_iff.mpr hempty)
    omega

/-- A composed query declares the aliases of the table it reads from and of its joined tables, in
this order and all different, and its qualifiers are among them exactly when its expressions refer
to no position beyond the joins. Queries built from a first source have one source more than joins,
so there the qualifiers always are. -/
theorem qualifiers_declared (query : Query) :
    (∀ limit tokens, query.tokens limit = .ok tokens →
        Token.tableAliases tokens = query.aliases.take (query.joins.length + 1) ∧
        (Token.tableAliases tokens).length =
          (if query.sources.isEmpty then 0 else query.joins.length + 1) ∧
        (Token.tableAliases tokens).Nodup ∧
        ((∀ name ∈ Token.qualifiers tokens, name ∈ Token.tableAliases tokens) ↔
          ∀ expr ∈ query.exprs, ∀ position ∈ expr.positions,
            position.toNat ≤ query.joins.length)) ∧
      ∀ source steps, query = built source steps →
        query.sources.length = query.joins.length + 1 ∧
          ∀ limit tokens, query.tokens limit = .ok tokens →
            ∀ name ∈ Token.qualifiers tokens, name ∈ Token.tableAliases tokens := by
  constructor
  · intro limit tokens hok
    refine ⟨tableAliases_tokens hok, length_tableAliases hok, ?_, forall_mem_tableAliases_iff hok⟩
    rw [tableAliases_tokens hok]
    exact query.nodup_aliases.sublist (List.take_sublist _ _)
  · rintro source steps rfl
    have hlength := length_sources_built source steps
    refine ⟨hlength, fun limit tokens hok ↦ (forall_mem_tableAliases_iff hok).mpr ?_⟩
    obtain ⟨hcomposable, -⟩ := (tokens_eq_of_ok hok).2
    refine (forall_mem_spelledOut_iff _ (Nat.zero_le _)).mp fun expr hexpr position hposition ↦ ?_
    have hlt : position.toNat < (built source steps).aliases.length :=
      (hcomposable expr hexpr).position_lt hposition
    rw [length_aliases] at hlt
    omega

/-- A table that is joined with itself, after its first source was replaced. -/
theorem qualifiers_declared_self_join :
    let users := Source.ofSchema ⟨"users", [], none⟩
    let query := built (Source.ofSchema ⟨"posts", [], none⟩)
      [.join .left users (.eq (.field 1 "manager") (.field 0 "id")), .readingFrom users,
        .filter (.isNull (.field 1 "id"))]
    ∃ tokens, query.tokens 512 = .ok tokens ∧ Token.tableAliases tokens = ["u0", "u1"] ∧
      Token.qualifiers tokens = ["u0", "u1", "u0", "u1"] ∧
      ∀ name ∈ Token.qualifiers tokens, name ∈ Token.tableAliases tokens := by
  intro users query
  refine ⟨_, rfl, by decide +kernel, by decide +kernel, ?_⟩
  exact (query.qualifiers_declared.2 _ _ rfl).2 512 _ rfl

end Query

/-! ### The target of a bulk statement -/

theorem inline_assignmentWritten (scope : Scope) (assignment : String × Expr) :
    Token.Inline (UpdateAll.assignmentWritten scope assignment) := by
  simp [UpdateAll.assignmentWritten, assignmentTokens]

theorem qualifiers_assignmentWritten (scope : Scope) (assignment : String × Expr) :
    Token.qualifiers (UpdateAll.assignmentWritten scope assignment) =
      assignment.2.qualifiers scope := by
  simp [UpdateAll.assignmentWritten, assignmentTokens, Token.qualifiers, Expr.qualifiers]

theorem inline_bulkWritten (scope : Scope) (conditions : List Expr) :
    Token.Inline (bulkWritten scope conditions) := by
  have hline : ∀ line ∈ (clauseWritten? scope conditions (conjunctionTokens .where)).toList,
      Token.Inline line :=
    inline_clauseWritten? scope conditions fun _ ↦ inline_conjunctionTokens rfl
  unfold bulkWritten
  cases hwhere : clauseWritten? scope conditions (conjunctionTokens .where) with
  | none => exact Token.inline_nil
  | some line =>
    rw [hwhere, Option.toList_some, List.forall_mem_singleton] at hline
    exact Token.inline_cons.mpr ⟨rfl, hline⟩

theorem qualifiers_append_bulkWritten (scope : Scope) (conditions : List Expr)
    (before : List Token) :
    Token.qualifiers (before ++ bulkWritten scope conditions) =
      Token.qualifiers before ++ conditions.flatMap (Expr.qualifiers scope) := by
  rw [← qualifiers_clauseWritten? scope conditions (qualifiers_conjunctionTokens .where)]
  unfold bulkWritten
  cases clauseWritten? scope conditions (conjunctionTokens .where) with
  | none => simp
  | some line => rw [Token.qualifiers_append rfl, Option.toList_some, List.flatMap_singleton]

/-- The query of a bulk statement. -/
def Statement.bulkQuery? : Statement → Option Query
  | updateAll update => some update.query
  | deleteAll delete => some delete.query
  | _ => none

/-- A composed bulk statement declares the alias of its target and has the qualifiers of its
expressions, all of which can be composed. -/
theorem Statement.bulk_of_ok {statement : Statement} {query : Query}
    (hbulk : statement.bulkQuery? = some query) {limit : Nat} {tokens : List Token}
    (hok : statement.tokens limit = .ok tokens) :
    ∃ target, query.tables.head? = some target ∧ Token.declaredAliases tokens = [target.2] ∧
      (∀ expr ∈ statement.exprs, expr.Composable (query.scope limit)) ∧
      Token.qualifiers tokens =
        statement.exprs.flatMap (Expr.qualifiers (query.scope limit)) := by
  cases statement with
  | updateAll update =>
    cases hbulk
    obtain ⟨target, ⟨-, hhead⟩, -, hcomposable, rfl⟩ := UpdateAll.tokens_eq_ok_iff.mp hok
    refine ⟨target, hhead, ?_, hcomposable, ?_⟩
    · have hassignments : Token.Inline (Token.commaSeparated
          (update.values.map (UpdateAll.assignmentWritten (update.query.scope limit)))) :=
        Token.inline_commaSeparated
          (List.forall_mem_map.mpr fun assignment _ ↦ inline_assignmentWritten _ assignment)
      have hcondition := inline_bulkWritten (update.query.scope limit) update.query.wheres
      have hinline := Token.inline_append.mpr ⟨hassignments, hcondition⟩
      simp [aliasedTable, Token.declaredAliases, hinline.declaredAliases_eq_nil]
    · rw [qualifiers_append_bulkWritten, exprs, List.flatMap_append]
      simp [aliasedTable, Token.qualifiers, Token.qualifiers_commaSeparated, List.flatMap_map,
        qualifiers_assignmentWritten]
  | deleteAll delete =>
    cases hbulk
    obtain ⟨target, ⟨-, hhead⟩, hcomposable, rfl⟩ := DeleteAll.tokens_eq_ok_iff.mp hok
    refine ⟨target, hhead, ?_, hcomposable, ?_⟩
    · have hcondition := inline_bulkWritten (delete.query.scope limit) delete.query.wheres
      simp [aliasedTable, Token.declaredAliases, hcondition.declaredAliases_eq_nil]
    · rw [qualifiers_append_bulkWritten]
      rfl
  | _ => cases hbulk

/-- A composed bulk statement declares only the alias of its target, and its qualifiers are that
alias exactly when its expressions refer to no position but the first. They can refer to any source
of the query, so only the statements of queries with a single source are safe from other
qualifiers. -/
theorem Statement.qualifiers_target {statement : Statement} {query : Query}
    (hbulk : statement.bulkQuery? = some query) {limit : Nat} {tokens : List Token}
    (hok : statement.tokens limit = .ok tokens) :
    ∃ target, query.aliases.head? = some target ∧ Token.declaredAliases tokens = [target] ∧
      ((∀ name ∈ Token.qualifiers tokens, name = target) ↔
        ∀ expr ∈ statement.exprs, ∀ position ∈ expr.positions, position = 0) ∧
      (∀ expr ∈ statement.exprs, ∀ position ∈ expr.positions,
        position.toNat < query.sources.length) ∧
      (query.sources.length = 1 → ∀ name ∈ Token.qualifiers tokens, name = target) := by
  obtain ⟨⟨source, target⟩, hhead, hdeclared, hcomposable, hqualifiers⟩ :=
    Statement.bulk_of_ok hbulk hok
  have htarget : query.aliases.head? = some target := by
    rw [← query.map_snd_tables, List.head?_map, hhead]
    rfl
  have hwithin : ∀ expr ∈ statement.exprs, ∀ position ∈ expr.positions,
      position.toNat < query.sources.length := by
    intro expr hexpr position hposition
    rw [← query.length_aliases]
    exact (hcomposable expr hexpr).position_lt hposition
  have hfirst : (query.scope limit).shortName 0 = target := by
    change query.aliases.getD 0 "" = target
    rw [List.getD_eq_getElem?_getD, ← List.head?_eq_getElem?, htarget, Option.getD_some]
  have hiff : (∀ name ∈ Token.qualifiers tokens, name = target) ↔
      ∀ expr ∈ statement.exprs, ∀ position ∈ expr.positions, position = 0 := by
    rw [hqualifiers, Expr.forall_mem_qualifiers_iff hcomposable]
    refine forall₂_congr fun expr hexpr ↦ forall₂_congr fun position hposition ↦ ?_
    have hlt := (hcomposable expr hexpr).position_lt hposition
    constructor
    · intro heq
      exact Scope.position_eq_of_alias_eq query.nodup_aliases hlt (Nat.zero_lt_of_lt hlt)
        (heq.trans hfirst.symm)
    · rintro rfl
      exact hfirst
  refine ⟨target, htarget, hdeclared, hiff, hwithin, fun hsingle ↦ hiff.mpr ?_⟩
  intro expr hexpr position hposition
  have hlt := hwithin expr hexpr position hposition
  exact UInt64.toNat_inj.mp (by rw [UInt64.toNat_zero]; omega)

/-- An update of one table by a field of the same table. -/
theorem Statement.qualifiers_target_users :
    let query : Query :=
      { sources := [.ofSchema ⟨"users", [], none⟩], wheres := [.isNull (.field 0 "email")] }
    let statement := Statement.updateAll
      ⟨query, [("visits", .add (.field 0 "visits") (.literal (.integer 1)))]⟩
    ∃ tokens, statement.tokens 512 = .ok tokens ∧ Token.qualifiers tokens = ["u0", "u0"] ∧
      ∃ target, query.aliases.head? = some target ∧ Token.declaredAliases tokens = [target] ∧
        ∀ name ∈ Token.qualifiers tokens, name = target := by
  intro query statement
  refine ⟨_, rfl, by decide +kernel, ?_⟩
  obtain ⟨target, hhead, hdeclared, -, -, hsingle⟩ :=
    Statement.qualifiers_target (show statement.bulkQuery? = some query from rfl)
      (show statement.tokens 512 = .ok _ from rfl)
  exact ⟨target, hhead, hdeclared, hsingle rfl⟩

/-- A deletion whose condition refers to a second source without a join is composed, with an alias
that it does not declare. -/
theorem Statement.qualifiers_unjoined_source :
    let query : Query :=
      { sources := [.ofSchema ⟨"users", [], none⟩, .ofSchema ⟨"posts", [], none⟩]
        wheres := [.eq (.field 1 "user_id") (.literal (.integer 5))] }
    let statement := Statement.deleteAll ⟨query⟩
    (statement.compile {}).result =
        .ok "DELETE FROM \"users\" AS \"u0\" WHERE (\"p0\".\"user_id\" = 5)" ∧
      ∃ tokens, statement.tokens 512 = .ok tokens ∧ Token.declaredAliases tokens = ["u0"] ∧
        Token.qualifiers tokens = ["p0"] := by
  intro query statement
  exact ⟨rfl, _, rfl, by decide +kernel, by decide +kernel⟩

end SqlCompose
