import SqlCompose.Proofs.Statement
import SqlCompose.Proofs.Structure

/-!
Raising the nesting limit. Whatever a statement gives under some limit, other than the failure that
reports this limit, it gives under every higher limit too: the same tokens, or the same failure with
the same contents. A failure for want of nesting levels always reports the limit in force.

The first failure decides the outcome of a composition, so it does not suffice to compare conditions
of success. `Persists` compares two outcomes step by step: the one under the higher limit is the
same, unless the one under the lower limit is already the failure that reports it. Consecutive steps
are joined by `Persists.bind` and traversals by `Persists.mapM`; the limit itself is consulted in
`checkDepth` alone.
-/

set_option autoImplicit false
set_option relaxedAutoImplicit false

namespace SqlCompose

/-! ### Outcomes under two limits -/

/-- The outcome is not a failure for want of nesting levels. -/
def KeepsLevels {α : Type} (outcome : Except CompileError α) : Prop :=
  ∀ reported, outcome ≠ .error (.depthExceeded reported)

/-- An outcome under a limit is the failure that reports the limit, or else it has nothing to do
with levels and the outcome under a higher limit is the same. -/
def Persists {α : Type} (limit : Nat) (outcome raised : Except CompileError α) : Prop :=
  outcome = .error (.depthExceeded limit) ∨ raised = outcome ∧ KeepsLevels outcome

namespace Persists

variable {α β : Type} {limit higher : Nat}

theorem refl {outcome : Except CompileError α} (hlevels : KeepsLevels outcome) :
    Persists limit outcome outcome :=
  Or.inr ⟨rfl, hlevels⟩

theorem ok (value : α) : Persists limit (.ok value) (.ok value) :=
  refl fun _ hok ↦ nomatch hok

/-- A step that persists, followed by one that persists whatever the first returns. -/
theorem bind {outcome raised : Except CompileError α} {next nextRaised : α → Except CompileError β}
    (hfirst : Persists limit outcome raised)
    (hnext : ∀ value, Persists limit (next value) (nextRaised value)) :
    Persists limit (outcome >>= next) (raised >>= nextRaised) := by
  rcases hfirst with rfl | ⟨rfl, hlevels⟩
  · exact Or.inl rfl
  · cases raised with
    | ok value => exact hnext value
    | error cause =>
      exact refl fun reported herror ↦ hlevels reported (Except.error.inj herror ▸ rfl)

/-- A step that persists, followed by one that cannot fail. -/
theorem map {outcome raised : Except CompileError α} (hfirst : Persists limit outcome raised)
    (result : α → β) :
    Persists limit (outcome >>= fun value ↦ pure (result value))
      (raised >>= fun value ↦ pure (result value)) :=
  hfirst.bind fun value ↦ ok (result value)

/-- A traversal persists when each of its steps does. -/
theorem mapM {step stepRaised : α → Except CompileError β} {items : List α}
    (hstep : ∀ item ∈ items, Persists limit (step item) (stepRaised item)) :
    Persists limit (items.mapM step) (items.mapM stepRaised) := by
  induction items with
  | nil => exact ok []
  | cons item rest ih =>
    rw [List.forall_mem_cons] at hstep
    rw [List.mapM_cons, List.mapM_cons]
    exact hstep.1.bind fun first ↦ (ih hstep.2).map fun others ↦ first :: others

end Persists

theorem persists_checkDepth {limit higher : Nat} (hle : limit ≤ higher) (depth : Nat) :
    Persists limit (checkDepth limit depth) (checkDepth higher depth) := by
  unfold checkDepth
  by_cases hdepth : depth ≤ limit
  · rw [if_pos hdepth, if_pos (Nat.le_trans hdepth hle)]
    exact Persists.ok ()
  · exact Or.inl (if_neg hdepth)

theorem Literal.tokensOfEach_eq_mapM (limit depth : Nat) (values : List Literal) :
    Literal.tokensOfEach limit depth values = values.mapM (Literal.tokensAt limit depth) := by
  induction values with
  | nil => rfl
  | cons value rest ih => rw [Literal.tokensOfEach, List.mapM_cons, ih]

/-! ### Lookups and calls -/

theorem keepsLevels_at? (aliases : List String) (index : Nat) :
    KeepsLevels (Alias.at? aliases index) := by
  intro reported
  unfold Alias.at?
  split <;> exact nofun

theorem Scope.keepsLevels_source? (scope : Scope) (index : Nat) :
    KeepsLevels (scope.source? index) := by
  intro reported herror
  unfold Scope.source? at herror
  cases halias : Alias.at? scope.aliases index with
  | ok shortName =>
    rw [halias] at herror
    cases hsource : scope.sources[index]? with
    | some source =>
      rw [hsource] at herror
      cases herror
    | none =>
      rw [hsource] at herror
      cases herror
  | error cause =>
    rw [halias] at herror
    cases herror
    exact keepsLevels_at? _ _ reported halias

theorem Expr.keepsLevels_callTokens (name : String) (arguments : List Expr)
    (written : List (List Token)) : KeepsLevels (callTokens name arguments written) := by
  intro reported
  unfold callTokens
  split <;> exact nofun

/-! ### Literals and expressions -/

section

variable {limit higher : Nat} (hle : limit ≤ higher)

include hle

namespace Literal

theorem persists_tokensAt (value : Literal) :
    ∀ depth, Persists limit (value.tokensAt limit depth) (value.tokensAt higher depth) := by
  induction value using Literal.induction with
  | scalar value hscalar =>
    intro depth
    cases value with
    | float number =>
      rw [tokensAt, tokensAt]
      refine Persists.refl fun reported ↦ ?_
      split <;> exact nofun
    | array elements elementType => cases hscalar
    | _ =>
      rw [tokensAt, tokensAt]
      exact Persists.ok _
  | array elements elementType ih =>
    intro depth
    rw [tokensAt, tokensAt, tokensOfEach_eq_mapM, tokensOfEach_eq_mapM]
    exact (persists_checkDepth hle _).bind fun _ ↦
      (Persists.mapM fun element hmem ↦ ih element hmem _).map _

theorem persists_tokens (value : Literal) :
    Persists limit (value.tokens limit) (value.tokens higher) :=
  (persists_checkDepth hle 1).bind fun _ ↦ value.persists_tokensAt hle 1

end Literal

namespace Expr

variable {sources : List Source} {aliases : List String}

/-- The outcome of composing an expression persists. -/
theorem persists_tokensBelow (expr : Expr) :
    ∀ depth, Persists limit (expr.tokensBelow ⟨sources, aliases, limit⟩ depth)
      (expr.tokensBelow ⟨sources, aliases, higher⟩ depth) := by
  induction expr using Expr.induction with
  | field position name =>
    intro depth
    rw [tokensBelow, tokensBelow]
    exact (persists_checkDepth hle _).bind fun _ ↦ (Persists.refl (keepsLevels_at? _ _)).map _
  | source position =>
    intro depth
    rw [tokensBelow, tokensBelow]
    exact (persists_checkDepth hle _).bind fun _ ↦
      (Persists.refl (Scope.keepsLevels_source? _ _)).map _
  | not operand ih =>
    intro depth
    rw [tokensBelow, tokensBelow]
    exact (persists_checkDepth hle _).bind fun _ ↦ (ih _).map _
  | equals left right negated ihleft ihright =>
    intro depth
    rw [tokensBelow, tokensBelow]
    refine (persists_checkDepth hle _).bind fun _ ↦ ?_
    split
    · exact (ihleft _).map _
    · split
      · exact (ihright _).map _
      · exact (ihleft _).bind fun _ ↦ (ihright _).map _
  | between value first last ihvalue ihfirst ihlast =>
    intro depth
    rw [tokensBelow, tokensBelow]
    exact (persists_checkDepth hle _).bind fun _ ↦ (ihvalue _).bind fun _ ↦
      (ihfirst _).bind fun _ ↦ (ihlast _).map _
  | isIn value collection hrange ihvalue ihcollection =>
    intro depth
    rw [tokensBelow, tokensBelow]
    · exact (persists_checkDepth hle _).bind fun _ ↦ (ihvalue _).bind fun _ ↦
        (ihcollection _).map _
    · exact fun first last heq ↦ hrange first last heq
    · exact fun first last heq ↦ hrange first last heq
  | range first last ihfirst ihlast =>
    intro depth
    rw [tokensBelow, tokensBelow]
    exact (persists_checkDepth hle _).bind fun _ ↦ Persists.refl fun _ ↦ nofun
  | div left right ihleft ihright =>
    intro depth
    rw [tokensBelow, tokensBelow]
    exact (persists_checkDepth hle _).bind fun _ ↦ (ihleft _).bind fun _ ↦ (ihright _).map _
  | truncate unit operand ih =>
    intro depth
    rw [tokensBelow, tokensBelow]
    exact (persists_checkDepth hle _).bind fun _ ↦ (ih _).map _
  | call name arguments ih =>
    intro depth
    rw [tokensBelow, tokensBelow, tokensOfEach_eq_mapM, tokensOfEach_eq_mapM]
    exact (persists_checkDepth hle _).bind fun _ ↦
      (Persists.mapM fun argument hmem ↦ ih argument hmem _).bind fun written ↦
        Persists.refl (keepsLevels_callTokens name arguments written)
  | literal value =>
    intro depth
    rw [tokensBelow, tokensBelow]
    exact (persists_checkDepth hle _).bind fun _ ↦ value.persists_tokensAt hle _
  | array elements elementType ih =>
    intro depth
    rw [tokensBelow, tokensBelow, tokensOfEach_eq_mapM, tokensOfEach_eq_mapM]
    exact (persists_checkDepth hle _).bind fun _ ↦
      (Persists.mapM fun element hmem ↦ ih element hmem _).map _

theorem persists_tokens (expr : Expr) :
    Persists limit (expr.tokens ⟨sources, aliases, limit⟩)
      (expr.tokens ⟨sources, aliases, higher⟩) :=
  expr.persists_tokensBelow hle 0

theorem persists_tokensOfEach (exprs : List Expr) :
    Persists limit (tokensOfEach ⟨sources, aliases, limit⟩ 0 exprs)
      (tokensOfEach ⟨sources, aliases, higher⟩ 0 exprs) := by
  rw [tokensOfEach_eq_mapM, tokensOfEach_eq_mapM]
  exact Persists.mapM fun expr _ ↦ expr.persists_tokens hle

end Expr

/-! ### Clauses -/

variable {sources : List Source} {aliases : List String}

theorem persists_clauseLine? (exprs : List Expr) (line : List (List Token) → List Token) :
    Persists limit (clauseLine? ⟨sources, aliases, limit⟩ exprs line)
      (clauseLine? ⟨sources, aliases, higher⟩ exprs line) := by
  unfold clauseLine?
  split
  · exact Persists.ok none
  · exact (Expr.persists_tokensOfEach hle exprs).map _

theorem SortTerm.persists_tokens (term : SortTerm) :
    Persists limit (term.tokens ⟨sources, aliases, limit⟩)
      (term.tokens ⟨sources, aliases, higher⟩) :=
  (term.expr.persists_tokens hle).map _

namespace Query

theorem persists_distinctTokens (distinct : Option Distinct) :
    Persists limit (distinctTokens ⟨sources, aliases, limit⟩ distinct)
      (distinctTokens ⟨sources, aliases, higher⟩ distinct) := by
  rcases distinct with - | (- | (- | ⟨first, rest⟩))
  · exact Persists.ok _
  · exact Persists.ok _
  · exact Persists.ok _
  · exact (Expr.persists_tokensOfEach hle (first :: rest)).map _

theorem persists_projectionTokens (exprs : List Expr) :
    Persists limit (projectionTokens ⟨sources, aliases, limit⟩ exprs)
      (projectionTokens ⟨sources, aliases, higher⟩ exprs) := by
  unfold projectionTokens
  split
  · exact (Expr.source 0).persists_tokens hle
  · exact (Expr.persists_tokensOfEach hle exprs).map _

theorem persists_selectLine (query : Query) :
    Persists limit (query.selectLine ⟨sources, aliases, limit⟩)
      (query.selectLine ⟨sources, aliases, higher⟩) :=
  (persists_distinctTokens hle query.distinct).bind fun _ ↦
    (persists_projectionTokens hle query.select).map _

omit hle in
theorem persists_fromLine? (query : Query) :
    Persists limit (query.fromLine? ⟨sources, aliases, limit⟩)
      (query.fromLine? ⟨sources, aliases, higher⟩) := by
  unfold fromLine?
  split
  · exact Persists.ok none
  · exact (Persists.refl (Scope.keepsLevels_source? _ 0)).map _

theorem persists_joinLine (position : Nat) (join : Join) :
    Persists limit (joinLine ⟨sources, aliases, limit⟩ position join)
      (joinLine ⟨sources, aliases, higher⟩ position join) :=
  (Persists.refl (Scope.keepsLevels_source? _ position)).bind fun _ ↦
    (join.on.persists_tokens hle).map _

theorem persists_joinLines (position : Nat) (joins : List Join) :
    Persists limit (joinLines ⟨sources, aliases, limit⟩ position joins)
      (joinLines ⟨sources, aliases, higher⟩ position joins) := by
  induction joins generalizing position with
  | nil => exact Persists.ok []
  | cons join rest ih =>
    exact (persists_joinLine hle position join).bind fun line ↦
      (ih (position + 1)).map fun others ↦ line :: others

theorem persists_orderByLine? (query : Query) :
    Persists limit (query.orderByLine? ⟨sources, aliases, limit⟩)
      (query.orderByLine? ⟨sources, aliases, higher⟩) := by
  unfold orderByLine?
  split
  · exact Persists.ok none
  · exact (Persists.mapM fun term _ ↦ term.persists_tokens hle).map _

theorem persists_lines (query : Query) :
    Persists limit (query.lines ⟨sources, aliases, limit⟩)
      (query.lines ⟨sources, aliases, higher⟩) :=
  (query.persists_selectLine hle).bind fun _ ↦ (query.persists_fromLine?).bind fun _ ↦
    (persists_joinLines hle 1 query.joins).bind fun _ ↦
      (persists_clauseLine? hle query.wheres _).bind fun _ ↦
        (persists_clauseLine? hle query.groupBys _).bind fun _ ↦
          (persists_clauseLine? hle query.havings _).bind fun _ ↦
            (query.persists_orderByLine? hle).map _

end Query

/-! ### Statements -/

omit hle in
theorem persists_bulkTarget (query : Query) :
    Persists limit (bulkTarget query ⟨sources, aliases, limit⟩)
      (bulkTarget query ⟨sources, aliases, higher⟩) := by
  unfold bulkTarget
  split
  · exact Persists.refl (Scope.keepsLevels_source? _ 0)
  · exact Persists.refl fun _ ↦ nofun

theorem persists_bulkCondition (conditions : List Expr) :
    Persists limit (bulkCondition ⟨sources, aliases, limit⟩ conditions)
      (bulkCondition ⟨sources, aliases, higher⟩ conditions) := by
  refine (persists_clauseLine? hle conditions _).bind fun line ↦ ?_
  cases line <;> exact Persists.ok _

theorem persists_keyCondition (column : String) (value : Literal) :
    Persists limit (keyCondition limit column value) (keyCondition higher column value) :=
  (value.persists_tokens hle).map _

theorem Insert.persists_rowTokens (fields : List (String × Literal)) :
    Persists limit (rowTokens limit fields) (rowTokens higher fields) := by
  unfold rowTokens
  split
  · exact Persists.ok _
  · exact (Persists.mapM fun field _ ↦ field.2.persists_tokens hle).map _

theorem UpdateOne.persists_tokens (update : UpdateOne) :
    Persists limit (update.tokens limit) (update.tokens higher) := by
  unfold UpdateOne.tokens
  split
  · exact Persists.refl fun _ ↦ nofun
  · exact (Persists.mapM fun field _ ↦ (field.2.persists_tokens hle).map _).bind fun _ ↦
      (persists_keyCondition hle update.keyColumn update.keyValue).map _

theorem UpdateAll.persists_tokens (update : UpdateAll) :
    Persists limit (update.tokens limit) (update.tokens higher) := by
  refine (persists_bulkTarget update.query).bind fun target ↦ ?_
  dsimp only
  split
  · exact Persists.refl fun _ ↦ nofun
  · exact (Persists.mapM fun value _ ↦ (value.2.persists_tokens hle).map _).bind fun _ ↦
      (persists_bulkCondition hle update.query.wheres).map _

theorem DeleteAll.persists_tokens (delete : DeleteAll) :
    Persists limit (delete.tokens limit) (delete.tokens higher) :=
  (persists_bulkTarget delete.query).bind fun _ ↦
    (persists_bulkCondition hle delete.query.wheres).map _

theorem Statement.persists_tokens (statement : Statement) :
    Persists limit (statement.tokens limit) (statement.tokens higher) := by
  cases statement with
  | select query => exact (query.persists_lines hle).map _
  | insert row => exact (Insert.persists_rowTokens hle row.present).map _
  | updateOne update => exact update.persists_tokens hle
  | updateAll update => exact update.persists_tokens hle
  | deleteOne delete => exact (persists_keyCondition hle delete.keyColumn delete.keyValue).map _
  | deleteAll delete => exact delete.persists_tokens hle

end

/-! ### Main result -/

/-- Under a higher limit a statement gives the same tokens or the same failure, unless it fails for
want of nesting levels, and then the failure reports the limit in force. -/
theorem Statement.tokens_eq_of_limit_le {limit higher : Nat} (hle : limit ≤ higher)
    (statement : Statement) :
    ((∀ reported, statement.tokens limit ≠ .error (.depthExceeded reported)) →
        statement.tokens higher = statement.tokens limit) ∧
      ∀ reported, statement.tokens limit = .error (.depthExceeded reported) → reported = limit := by
  rcases statement.persists_tokens hle with hdepth | ⟨hraised, hlevels⟩
  · refine ⟨fun hother ↦ absurd hdepth (hother limit), fun reported hreported ↦ ?_⟩
    rw [hdepth, Except.error.injEq, CompileError.depthExceeded.injEq] at hreported
    exact hreported.symm
  · exact ⟨fun _ ↦ hraised, fun reported hreported ↦ absurd hreported (hlevels reported)⟩

/-- A reference to a missing source is two levels down: under a limit of one the level is reported,
under any higher limit the source. -/
theorem Statement.tokens_eq_of_limit_le_missing_source :
    let statement := Statement.select
      { sources := [.ofSchema ⟨"users", [], none⟩], wheres := [.not (.field 3 "name")] }
    statement.tokens 1 = .error (.depthExceeded 1) ∧
      (∀ reported, statement.tokens 1 = .error (.depthExceeded reported) → reported = 1) ∧
      statement.tokens 2 = .error (.sourceOutOfRange 3 1) ∧
      statement.tokens 512 = statement.tokens 2 := by
  intro statement
  have hmissing : statement.tokens 2 = .error (.sourceOutOfRange 3 1) := rfl
  refine ⟨rfl, (statement.tokens_eq_of_limit_le (Nat.le_refl 1)).2, hmissing, ?_⟩
  refine (statement.tokens_eq_of_limit_le (by decide : 2 ≤ 512)).1 fun reported hreported ↦ ?_
  rw [hmissing] at hreported
  cases hreported

end SqlCompose
