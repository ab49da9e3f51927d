import SqlCompose.Proofs.BeyondLimit

/-!
Array literals and array expressions. A constant array can be given as one literal or as an array
expression whose elements are constants, and so can its elements. `Literal.lifted` takes the second
way at every depth. The two ways are composed by recursions of their own: a literal claims the level
of its elements before it looks at them, an array expression leaves it to each element to claim its
level, so an array without elements claims one level more as a literal than as an expression.

That is the only difference. A literal that is composed gives the tokens of its lifted form, and if
no array in it is empty, both give the same outcome under every limit (`Expr.tokens_lifted`).
-/

set_option autoImplicit false
set_option relaxedAutoImplicit false

namespace SqlCompose

/-! ### Lifted literals -/

namespace Literal

mutual

/-- The literal with all its arrays as array expressions. -/
def lifted : Literal → Expr
  | array elements elementType => .array (liftedOfEach elements) elementType
  | value => .literal value

/-- The lifted forms of each of several literals. -/
def liftedOfEach : List Literal → List Expr
  | [] => []
  | value :: rest => lifted value :: liftedOfEach rest

end

theorem liftedOfEach_eq_map (values : List Literal) : liftedOfEach values = values.map lifted := by
  induction values with
  | nil => rfl
  | cons value rest ih => rw [liftedOfEach, ih, List.map_cons]

theorem lifted_of_isScalar {value : Literal} (hscalar : value.isScalar = true) :
    value.lifted = .literal value := by
  cases value <;> first | rfl | cases hscalar

/-- No array in the literal is without elements, at any depth. -/
def HasNoEmptyArray (value : Literal) : Prop :=
  ∀ elementType, array [] elementType ∉ value.nodes

theorem hasNoEmptyArray_array {elements : List Literal} {elementType : ValueType}
    (hfilled : (array elements elementType).HasNoEmptyArray) :
    elements ≠ [] ∧ ∀ element ∈ elements, element.HasNoEmptyArray := by
  constructor
  · rintro rfl
    exact hfilled elementType (mem_nodes_array.mpr (Or.inl rfl))
  · intro element hmem innerType hnode
    exact hfilled innerType (mem_nodes_array.mpr (Or.inr ⟨element, hmem, hnode⟩))

end Literal

/-! ### Composing both ways -/

namespace Expr

variable {scope : Scope}

theorem tokensBelow_literal_of_lt {depth : Nat} (hdepth : depth < scope.limit) (value : Literal) :
    (literal value).tokensBelow scope depth = value.tokensAt scope.limit (depth + 1) := by
  rw [tokensBelow, checkDepth_within hdepth]
  rfl

/-- The elements of a literal array, once their level has been claimed, are composed like literals
of their own. -/
theorem tokensOfEach_literal {depth : Nat} (hdepth : depth < scope.limit) (values : List Literal) :
    Literal.tokensOfEach scope.limit (depth + 1) values =
      tokensOfEach scope depth (values.map literal) := by
  induction values with
  | nil => rfl
  | cons value rest ih =>
    rw [Literal.tokensOfEach, List.map_cons, tokensOfEach, tokensBelow_literal_of_lt hdepth, ih]

/-- A literal is refused for want of levels, or its lifted form gives the same outcome. -/
theorem persists_lifted (value : Literal) :
    ∀ depth, Persists scope.limit ((literal value).tokensBelow scope depth)
      (value.lifted.tokensBelow scope depth) := by
  induction value using Literal.induction with
  | scalar value hscalar =>
    intro depth
    rw [Literal.lifted_of_isScalar hscalar]
    exact (literal value).persists_tokensBelow (Nat.le_refl scope.limit) depth
  | array elements elementType ih =>
    intro depth
    rw [Literal.lifted, tokensBelow, tokensBelow, Literal.tokensAt, Literal.liftedOfEach_eq_map]
    refine (persists_checkDepth (Nat.le_refl scope.limit) _).bind fun _ ↦ ?_
    by_cases hwithin : depth + 1 < scope.limit
    · rw [checkDepth_within hwithin, tokensOfEach_literal hwithin, tokensOfEach_eq_mapM,
        tokensOfEach_eq_mapM, List.mapM_map, List.mapM_map]
      exact (Persists.mapM fun element hmem ↦ ih element hmem (depth + 1)).map _
    · rw [checkDepth_beyond (Nat.lt_succ_of_le (Nat.le_of_not_lt hwithin))]
      exact Or.inl rfl

/-- Without empty arrays both ways give the same outcome, failures included: where the level of the
elements is beyond the limit, the array refuses it or its first element does. -/
theorem tokensBelow_lifted {value : Literal} (hfilled : value.HasNoEmptyArray) :
    ∀ depth, value.lifted.tokensBelow scope depth = (literal value).tokensBelow scope depth := by
  induction value using Literal.induction with
  | scalar value hscalar =>
    intro depth
    rw [Literal.lifted_of_isScalar hscalar]
  | array elements elementType ih =>
    intro depth
    obtain ⟨hnonempty, helements⟩ := Literal.hasNoEmptyArray_array hfilled
    rw [Literal.lifted, tokensBelow, tokensBelow, Literal.tokensAt]
    refine checkDepth_bind_congr fun _ ↦ ?_
    by_cases hwithin : depth + 1 < scope.limit
    · have heach : List.Forall₂ (fun first second ↦
          second.tokensBelow scope (depth + 1) = first.tokensBelow scope (depth + 1))
          (elements.map literal) (elements.map Literal.lifted) := by
        rw [List.forall₂_map_left_iff, List.forall₂_map_right_iff, List.forall₂_same]
        exact fun element hmem ↦ ih element hmem (helements element hmem) (depth + 1)
      rw [checkDepth_within hwithin, tokensOfEach_literal hwithin, Literal.liftedOfEach_eq_map,
        tokensOfEach_eq_mapM, tokensOfEach_eq_mapM, mapM_eq_of_forall₂ heach]
      rfl
    · have hbeyond : scope.limit ≤ depth + 1 := Nat.le_of_not_lt hwithin
      obtain ⟨first, rest, rfl⟩ := List.exists_cons_of_ne_nil hnonempty
      rw [checkDepth_beyond (Nat.lt_succ_of_le hbeyond), Literal.liftedOfEach,
        tokensOfEach_beyond hbeyond]
      rfl

/-- A literal that is composed gives the same tokens with its arrays as array expressions, and if no
array in it is empty, both ways give the same outcome, be it tokens or a failure. -/
theorem tokens_lifted (scope : Scope) (value : Literal) :
    (∀ tokens, (literal value).tokens scope = .ok tokens →
        value.lifted.tokens scope = .ok tokens) ∧
      (value.HasNoEmptyArray → value.lifted.tokens scope = (literal value).tokens scope) := by
  constructor
  · intro tokens hok
    rcases persists_lifted value 0 with hrefused | ⟨hsame, -⟩
    · rw [Expr.tokens, hrefused] at hok
      cases hok
    · rw [Expr.tokens, hsame]
      exact hok
  · intro hfilled
    exact tokensBelow_lifted hfilled 0

/-- An empty array within an array is composed both ways under a limit of three, and an array within
an array is refused both ways under a limit of two. -/
theorem tokens_lifted_nested :
    let scope (limit : Nat) : Scope := ⟨[], [], limit⟩
    let hollow : Literal := .array [.array [] .text] (.array .text)
    let filled : Literal := .array [.array [.integer 1] .integer] (.array .integer)
    (∃ tokens, (literal hollow).tokens (scope 3) = .ok tokens ∧
        hollow.lifted.tokens (scope 3) = .ok tokens) ∧
      filled.HasNoEmptyArray ∧
      (literal filled).tokens (scope 2) = .error (.depthExceeded 2) ∧
      filled.lifted.tokens (scope 2) = (literal filled).tokens (scope 2) := by
  intro scope hollow filled
  have hfilled : filled.HasNoEmptyArray := by
    intro elementType
    simp [filled, Literal.nodes, Literal.nodesOfEach]
  refine ⟨⟨_, rfl, ?_⟩, hfilled, rfl, (tokens_lifted (scope 2) filled).2 hfilled⟩
  exact (tokens_lifted (scope 3) hollow).1 _ rfl

/-- An empty array on the last level is refused as a literal and composed as an expression. -/
example :
    (literal (.array [] .text)).tokens ⟨[], [], 1⟩ = .error (.depthExceeded 1) ∧
      (Literal.array [] .text).lifted.tokens ⟨[], [], 1⟩ = .ok (arrayTokens [] .text) :=
  ⟨rfl, rfl⟩

end Expr

end SqlCompose
