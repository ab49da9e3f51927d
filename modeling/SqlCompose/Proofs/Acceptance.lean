import SqlCompose.Proofs.Catalog
import SqlCompose.Proofs.Form

/-!
Which expressions can be composed, and into what. An expression is composable when it is no higher
than the nesting limit allows, refers only to sources that are there, contains only finite numbers
and has its ranges directly on the right of membership tests. `settles_tokensBelow` says that
composing succeeds exactly then, with the tokens of the expression's form, and fails otherwise with
one of four causes.

Outcomes are followed through the composition by `Settles`: a computation settles on a value under
a condition when it returns the value if the condition holds and fails with an expected cause if it
does not. Conditions of consecutive steps are joined by `Settles.bind`, so each kind of expression
comes down to comparing the joined condition with its own.
-/

set_option autoImplicit false
set_option relaxedAutoImplicit false

namespace SqlCompose

/-! ### Outcomes -/

/-- The causes for which an expression is refused under a nesting limit. -/
inductive ComposingFailure (limit : Nat) : CompileError → Prop
  | depth : ComposingFailure limit (.depthExceeded limit)
  | source (index bound : Nat) (hindex : bound ≤ index) :
    ComposingFailure limit (.sourceOutOfRange index bound)
  | number (value : Binary64) (hvalue : value.isFinite = false) :
    ComposingFailure limit (Literal.notRepresentable value)
  | range : ComposingFailure limit .bareRange

/-- The outcome is the value when the condition holds, and otherwise a failure for an expected
cause. -/
def Settles {α : Type} (limit : Nat) (condition : Prop) (value : α)
    (outcome : Except CompileError α) : Prop :=
  (condition → outcome = .ok value) ∧
    (¬ condition → ∃ cause, outcome = .error cause ∧ ComposingFailure limit cause)

namespace Settles

variable {α β : Type} {limit : Nat} {condition other : Prop} {value : α} {result : β}
variable {outcome : Except CompileError α}

theorem congr (hsettles : Settles limit condition value outcome) (hiff : condition ↔ other) :
    Settles limit other value outcome :=
  ⟨fun hother ↦ hsettles.1 (hiff.mpr hother), fun hnot ↦ hsettles.2 fun h ↦ hnot (hiff.mp h)⟩

theorem ok (value : α) : Settles limit True value (.ok value) :=
  ⟨fun _ ↦ rfl, fun hnot ↦ absurd trivial hnot⟩

/-- A step that settles, followed by one that settles once the first has succeeded. -/
theorem bind {next : α → Except CompileError β} (hfirst : Settles limit condition value outcome)
    (hnext : condition → Settles limit other result (next value)) :
    Settles limit (condition ∧ other) result (outcome >>= next) := by
  constructor
  · rintro ⟨hcondition, hother⟩
    rw [hfirst.1 hcondition]
    exact (hnext hcondition).1 hother
  · intro hnot
    by_cases hcondition : condition
    · rw [hfirst.1 hcondition]
      exact (hnext hcondition).2 fun hother ↦ hnot ⟨hcondition, hother⟩
    · obtain ⟨cause, houtcome, hcause⟩ := hfirst.2 hcondition
      exact ⟨cause, by rw [houtcome]; rfl, hcause⟩

/-- A step that settles, followed by one that cannot fail. -/
theorem map {next : α → Except CompileError β} (hfirst : Settles limit condition value outcome)
    (hnext : next value = .ok result) : Settles limit condition result (outcome >>= next) :=
  (hfirst.bind fun _ ↦ hnext ▸ ok result).congr (and_iff_left trivial)

/-- A success is on the value, and under the condition. -/
theorem eq_of_ok (hsettles : Settles limit condition value outcome) {actual : α}
    (hok : outcome = .ok actual) : actual = value ∧ condition := by
  by_cases hcondition : condition
  · rw [hsettles.1 hcondition, Except.ok.injEq] at hok
    exact ⟨hok.symm, hcondition⟩
  · obtain ⟨cause, herror, -⟩ := hsettles.2 hcondition
    rw [hok] at herror
    cases herror

/-- A failure is for an expected cause. -/
theorem failure_of_error (hsettles : Settles limit condition value outcome) {cause : CompileError}
    (herror : outcome = .error cause) : ComposingFailure limit cause := by
  by_cases hcondition : condition
  · rw [hsettles.1 hcondition] at herror
    cases herror
  · obtain ⟨expected, hexpected, hfailure⟩ := hsettles.2 hcondition
    rw [hexpected, Except.error.injEq] at herror
    exact herror ▸ hfailure

end Settles

theorem settles_checkDepth (limit depth : Nat) :
    Settles limit (depth ≤ limit) () (checkDepth limit depth) := by
  unfold checkDepth
  constructor
  · intro hdepth
    rw [if_pos hdepth]
  · intro hdepth
    rw [if_neg hdepth]
    exact ⟨_, rfl, .depth⟩

theorem settles_at? (limit : Nat) (aliases : List String) (index : Nat) :
    Settles limit (index < aliases.length) (aliases.getD index "") (Alias.at? aliases index) := by
  unfold Alias.at?
  constructor
  · intro hindex
    rw [List.getD_eq_getElem?_getD, List.getElem?_eq_getElem hindex, Option.getD_some]
  · intro hindex
    rw [List.getElem?_eq_none (Nat.le_of_not_lt hindex)]
    exact ⟨_, rfl, .source _ _ (Nat.le_of_not_lt hindex)⟩

/-! ### Composable literals -/

namespace Literal

mutual

/-- The number of nesting levels that a literal occupies. An array occupies the level of its
elements even when it has none. -/
def height : Literal → Nat
  | array elements _ => 1 + max 1 (heightOfEach elements)
  | _ => 1

/-- The number of nesting levels that several literals side by side occupy. -/
def heightOfEach : List Literal → Nat
  | [] => 0
  | value :: rest => max (height value) (heightOfEach rest)

end

theorem height_of_isScalar {value : Literal} (hscalar : value.isScalar = true) :
    value.height = 1 := by
  cases value <;> first | rfl | simp [isScalar] at hscalar

theorem one_le_height (value : Literal) : 1 ≤ value.height := by
  cases value <;> simp [height]

theorem add_heightOfEach_le_iff {values : List Literal} {depth limit : Nat}
    (hdepth : depth ≤ limit) :
    depth + heightOfEach values ≤ limit ↔ ∀ value ∈ values, depth + value.height ≤ limit := by
  induction values with
  | nil => simp [heightOfEach, hdepth]
  | cons value rest ih =>
    rw [heightOfEach, List.forall_mem_cons, ← ih]
    omega

/-- All doubles in a literal are finite. -/
def IsFinite (value : Literal) : Prop :=
  ∀ number, .float number ∈ value.nodes → number.isFinite = true

theorem isFinite_array {elements : List Literal} {elementType : ValueType} :
    (array elements elementType).IsFinite ↔ ∀ element ∈ elements, element.IsFinite := by
  simp only [IsFinite, mem_nodes_array, reduceCtorEq, false_or]
  exact ⟨fun hall element hmem number hnumber ↦ hall number ⟨element, hmem, hnumber⟩,
    fun hall number ⟨element, hmem, hnumber⟩ ↦ hall element hmem number hnumber⟩

/-- A literal at a level within the limit can be written when its levels and numbers allow. -/
def ComposableAt (limit depth : Nat) (value : Literal) : Prop :=
  depth + value.height ≤ limit + 1 ∧ value.IsFinite

theorem settles_tokensAt_scalar {limit depth : Nat} (hdepth : depth ≤ limit) {value : Literal}
    (hscalar : value.isScalar = true) :
    Settles limit (value.ComposableAt limit depth) value.scalarTokens
      (value.tokensAt limit depth) := by
  have hheight : depth + value.height ≤ limit + 1 := by
    rw [height_of_isScalar hscalar]
    omega
  have hcondition : value.ComposableAt limit depth ↔ value.IsFinite :=
    and_iff_right hheight
  refine Settles.congr ?_ hcondition.symm
  have hnodes := nodes_of_isScalar hscalar
  cases value with
  | float number =>
    have hfinite : (Literal.float number).IsFinite ↔ number.isFinite = true := by
      simp [IsFinite, hnodes]
    refine Settles.congr ?_ hfinite.symm
    constructor
    · intro hnumber
      rw [tokensAt, if_pos hnumber, scalarTokens]
    · intro hnumber
      rw [tokensAt, if_neg hnumber]
      exact ⟨_, rfl, .number number (Bool.eq_false_iff.mpr hnumber)⟩
  | array elements elementType => cases hscalar
  | _ =>
    rw [tokensAt]
    exact (Settles.ok _).congr (by simp [IsFinite, hnodes])

/-- Writing each of several literals settles when writing each of them does. -/
theorem settles_tokensOfEach {limit depth : Nat} (scope : Scope) {values : List Literal}
    (heach : ∀ value ∈ values, Settles limit (value.ComposableAt limit depth)
      (value.form.tokens scope) (value.tokensAt limit depth)) :
    Settles limit (∀ value ∈ values, value.ComposableAt limit depth)
      (Form.tokensOfEach scope (formOfEach values)) (tokensOfEach limit depth values) := by
  induction values with
  | nil =>
    rw [tokensOfEach]
    exact (Settles.ok _).congr (by simp)
  | cons value rest ih =>
    rw [List.forall_mem_cons] at heach
    rw [tokensOfEach, List.forall_mem_cons]
    exact heach.1.bind fun _ ↦ (ih heach.2).map rfl

/-- Writing a literal settles on the tokens of its form. -/
theorem settles_tokensAt (limit : Nat) (scope : Scope) (value : Literal) :
    ∀ depth, depth ≤ limit → Settles limit (value.ComposableAt limit depth)
      (value.form.tokens scope) (value.tokensAt limit depth) := by
  induction value using Literal.induction with
  | scalar value hscalar =>
    intro depth hdepth
    rw [form_of_isScalar hscalar, Form.tokens]
    exact settles_tokensAt_scalar hdepth hscalar
  | array elements elementType ih =>
    intro depth hdepth
    rw [tokensAt, form, Form.tokens_ofElements]
    refine Settles.congr ((settles_checkDepth limit (depth + 1)).bind fun hlevel ↦
      (settles_tokensOfEach scope fun element hmem ↦ ih element hmem (depth + 1) hlevel).map rfl) ?_
    unfold ComposableAt
    rw [height, isFinite_array, forall₂_and]
    constructor
    · rintro ⟨hlevel, hheights, hfinite⟩
      refine ⟨?_, hfinite⟩
      have hall := (add_heightOfEach_le_iff (by omega)).mpr hheights
      omega
    · rintro ⟨hheight, hfinite⟩
      refine ⟨by omega, (add_heightOfEach_le_iff (by omega)).mp (by omega), hfinite⟩

theorem settles_tokens (limit : Nat) (scope : Scope) (value : Literal) :
    Settles limit (1 ≤ limit ∧ value.ComposableAt limit 1) (value.form.tokens scope)
      (value.tokens limit) :=
  (settles_checkDepth limit 1).bind fun hlevel ↦ value.settles_tokensAt limit scope 1 hlevel

/-- Whenever a literal is written on its own, the result is what its form says. -/
theorem tokens_eq_of_ok {limit : Nat} (scope : Scope) {value : Literal} {tokens : List Token}
    (hok : value.tokens limit = .ok tokens) :
    tokens = value.form.tokens scope ∧ value.IsFinite := by
  obtain ⟨hvalue, -, -, hfinite⟩ := (value.settles_tokens limit scope).eq_of_ok hok
  exact ⟨hvalue, hfinite⟩

end Literal

/-! ### Composable expressions -/

namespace Expr

mutual

/-- The number of nesting levels that an expression occupies. A range directly under a membership
test occupies none itself. -/
def height : Expr → Nat
  | field _ _ => 1
  | source _ => 1
  | not operand => 1 + height operand
  | equals left right _ => 1 + max (height left) (height right)
  | isIn value (range first last) => 1 + max (height value) (max (height first) (height last))
  | isIn value collection => 1 + max (height value) (height collection)
  | range first last => 1 + max (height first) (height last)
  | div left right => 1 + max (height left) (height right)
  | truncate _ operand => 1 + height operand
  | call _ arguments => 1 + heightOfEach arguments
  | literal value => value.height
  | array elements _ => 1 + heightOfEach elements

/-- The number of nesting levels that several expressions side by side occupy. -/
def heightOfEach : List Expr → Nat
  | [] => 0
  | expr :: rest => max (height expr) (heightOfEach rest)

end

mutual

/-- Every range is the right side of a membership test. -/
def rangesInPlace : Expr → Bool
  | field _ _ => true
  | source _ => true
  | not operand => rangesInPlace operand
  | equals left right _ => rangesInPlace left && rangesInPlace right
  | isIn value (range first last) =>
    rangesInPlace value && (rangesInPlace first && rangesInPlace last)
  | isIn value collection => rangesInPlace value && rangesInPlace collection
  | range _ _ => false
  | div left right => rangesInPlace left && rangesInPlace right
  | truncate _ operand => rangesInPlace operand
  | call _ arguments => rangesInPlaceInEach arguments
  | literal _ => true
  | array elements _ => rangesInPlaceInEach elements

/-- Every range in several expressions is the right side of a membership test. -/
def rangesInPlaceInEach : List Expr → Bool
  | [] => true
  | expr :: rest => rangesInPlace expr && rangesInPlaceInEach rest

end

/-- If the expression is itself a reference to a source, then there is such a source: an alias for a
field, an alias and a source for all fields at once. -/
def RefersWithin (scope : Scope) : Expr → Prop
  | field position _ => position.toNat < scope.aliases.length
  | source position =>
    position.toNat < scope.aliases.length ∧ position.toNat < scope.sources.length
  | _ => True

/-- If the expression is itself a literal, then all doubles in it are finite. -/
def IsFinite : Expr → Prop
  | literal value => value.IsFinite
  | _ => True

/-- The conditions for composing an expression below a number of enclosing levels. -/
def ComposableBelow (scope : Scope) (depth : Nat) (expr : Expr) : Prop :=
  depth + expr.height ≤ scope.limit ∧ (∀ node ∈ expr.nodes, node.RefersWithin scope) ∧
    (∀ node ∈ expr.nodes, node.IsFinite) ∧ expr.rangesInPlace = true

theorem one_le_height (expr : Expr) : 1 ≤ expr.height := by
  cases expr with
  | isIn value collection => cases collection <;> simp [height]
  | literal value => exact value.one_le_height
  | _ => simp [height]

theorem add_heightOfEach_le_iff {exprs : List Expr} {depth limit : Nat} (hdepth : depth ≤ limit) :
    depth + heightOfEach exprs ≤ limit ↔ ∀ expr ∈ exprs, depth + expr.height ≤ limit := by
  induction exprs with
  | nil => simp [heightOfEach, hdepth]
  | cons expr rest ih =>
    rw [heightOfEach, List.forall_mem_cons, ← ih]
    omega

theorem rangesInPlaceInEach_iff {exprs : List Expr} :
    rangesInPlaceInEach exprs = true ↔ ∀ expr ∈ exprs, expr.rangesInPlace = true := by
  induction exprs with
  | nil => simp [rangesInPlaceInEach]
  | cons expr rest ih => rw [rangesInPlaceInEach, Bool.and_eq_true, ih, List.forall_mem_cons]

/-- The conditions for a single operand, one level further down. -/
theorem composableBelow_one {scope : Scope} {depth : Nat} {operand : Expr} :
    (depth + (1 + operand.height) ≤ scope.limit ∧
        (∀ node ∈ operand.nodes, node.RefersWithin scope) ∧
        (∀ node ∈ operand.nodes, node.IsFinite) ∧ operand.rangesInPlace = true) ↔
      depth + 1 ≤ scope.limit ∧ operand.ComposableBelow scope (depth + 1) := by
  unfold ComposableBelow
  grind

/-- The conditions for two operands, one level further down. -/
theorem composableBelow_two {scope : Scope} {depth : Nat} {left right : Expr} :
    (depth + (1 + max left.height right.height) ≤ scope.limit ∧
        (∀ node ∈ left.nodes ++ right.nodes, node.RefersWithin scope) ∧
        (∀ node ∈ left.nodes ++ right.nodes, node.IsFinite) ∧
        (left.rangesInPlace && right.rangesInPlace) = true) ↔
      depth + 1 ≤ scope.limit ∧ left.ComposableBelow scope (depth + 1) ∧
        right.ComposableBelow scope (depth + 1) := by
  simp only [List.forall_mem_append, Bool.and_eq_true, ComposableBelow]
  grind

/-- The null constant is within the limit wherever another operand is. -/
theorem composableBelow_null {scope : Scope} {depth : Nat} {other : Expr}
    (hother : other.ComposableBelow scope depth) : (literal .null).ComposableBelow scope depth := by
  have hheight := other.one_le_height
  refine ⟨?_, ?_, ?_, rfl⟩
  · have hlimit := hother.1
    change depth + 1 ≤ scope.limit
    omega
  · simp [nodes, RefersWithin]
  · simp [nodes, IsFinite, Literal.IsFinite, Literal.nodes]

/-- The conditions for expressions side by side, one level further down. -/
theorem composableBelow_each {scope : Scope} {depth : Nat} {exprs : List Expr} :
    (depth + (1 + heightOfEach exprs) ≤ scope.limit ∧
        (∀ node ∈ nodesOfEach exprs, node.RefersWithin scope) ∧
        (∀ node ∈ nodesOfEach exprs, node.IsFinite) ∧ rangesInPlaceInEach exprs = true) ↔
      depth + 1 ≤ scope.limit ∧ ∀ expr ∈ exprs, expr.ComposableBelow scope (depth + 1) := by
  simp only [ComposableBelow, forall_mem_nodesOfEach, rangesInPlaceInEach_iff]
  constructor
  · rintro ⟨hheight, hrefers, hfinite, hranges⟩
    have hlevel : depth + 1 ≤ scope.limit := by omega
    refine ⟨hlevel, fun expr hmem ↦ ⟨?_, hrefers expr hmem, hfinite expr hmem, hranges expr hmem⟩⟩
    exact (add_heightOfEach_le_iff hlevel).mp (by omega) expr hmem
  · rintro ⟨hlevel, hall⟩
    refine ⟨?_, fun expr hmem ↦ (hall expr hmem).2.1, fun expr hmem ↦ (hall expr hmem).2.2.1,
      fun expr hmem ↦ (hall expr hmem).2.2.2⟩
    have := (add_heightOfEach_le_iff hlevel).mpr fun expr hmem ↦ (hall expr hmem).1
    omega

end Expr

/-- Looking up a source succeeds exactly when both its alias and the source itself are there. -/
theorem Scope.source?_cases (scope : Scope) (index : Nat) :
    ((index < scope.aliases.length ∧ index < scope.sources.length) ∧
        ∃ found, scope.source? index = .ok found) ∨
      (¬ (index < scope.aliases.length ∧ index < scope.sources.length) ∧
        ∃ bound ≤ index, scope.source? index = .error (.sourceOutOfRange index bound)) := by
  unfold Scope.source? Alias.at?
  by_cases halias : index < scope.aliases.length
  · rw [List.getElem?_eq_getElem halias]
    by_cases hsource : index < scope.sources.length
    · rw [List.getElem?_eq_getElem hsource]
      exact Or.inl ⟨⟨halias, hsource⟩, _, rfl⟩
    · rw [List.getElem?_eq_none (Nat.le_of_not_lt hsource)]
      exact Or.inr ⟨fun hboth ↦ hsource hboth.2, _, Nat.le_of_not_lt hsource, rfl⟩
  · rw [List.getElem?_eq_none (Nat.le_of_not_lt halias)]
    exact Or.inr ⟨fun hboth ↦ halias hboth.1, _, Nat.le_of_not_lt halias, rfl⟩

namespace Expr

theorem settles_source (scope : Scope) (position : UInt64) :
    Settles scope.limit ((source position).RefersWithin scope)
      ((Form.wholeSource position).tokens scope)
      (scope.source? position.toNat >>= fun found ↦ pure (sourceTokens found.1 found.2)) := by
  rw [Form.tokens]
  rcases scope.source?_cases position.toNat with
    ⟨hwithin, found, hfound⟩ | ⟨hbeyond, bound, hbound, hfound⟩
  · rw [hfound]
    exact ⟨fun _ ↦ rfl, fun hnot ↦ absurd hwithin hnot⟩
  · rw [hfound]
    exact ⟨fun hwithin ↦ absurd hwithin hbeyond, fun _ ↦ ⟨_, rfl, .source _ _ hbound⟩⟩

/-- Composing each of several expressions settles when composing each of them does. -/
theorem settles_tokensOfEach {scope : Scope} {depth : Nat} {exprs : List Expr}
    (heach : ∀ expr ∈ exprs, Settles scope.limit (expr.ComposableBelow scope depth)
      (expr.form.tokens scope) (expr.tokensBelow scope depth)) :
    Settles scope.limit (∀ expr ∈ exprs, expr.ComposableBelow scope depth)
      (Form.tokensOfEach scope (formOfEach exprs)) (tokensOfEach scope depth exprs) := by
  induction exprs with
  | nil =>
    rw [tokensOfEach]
    exact (Settles.ok _).congr (by simp)
  | cons expr rest ih =>
    rw [List.forall_mem_cons] at heach
    rw [tokensOfEach, List.forall_mem_cons]
    exact heach.1.bind fun _ ↦ (ih heach.2).map rfl

theorem eq_null_of_isNullLiteral {expr : Expr} (hnull : expr.isNullLiteral = true) :
    expr = literal .null := by
  cases expr with
  | literal value => cases value <;> first | rfl | cases hnull
  | _ => cases hnull

/-- Composing an expression settles on the tokens of its form. -/
theorem settles_tokensBelow (scope : Scope) (expr : Expr) :
    ∀ depth, Settles scope.limit (expr.ComposableBelow scope depth) (expr.form.tokens scope)
      (expr.tokensBelow scope depth) := by
  induction expr using Expr.induction with
  | field position name =>
    intro depth
    rw [tokensBelow, form, Form.tokens]
    refine Settles.congr ((settles_checkDepth _ _).bind fun _ ↦ (settles_at? _ _ _).map rfl) ?_
    simp [ComposableBelow, height, nodes, RefersWithin, IsFinite, rangesInPlace]
  | source position =>
    intro depth
    rw [tokensBelow, form]
    refine Settles.congr ((settles_checkDepth _ _).bind fun _ ↦ settles_source scope position) ?_
    simp [ComposableBelow, height, nodes, IsFinite, rangesInPlace]
  | not operand ih =>
    intro depth
    rw [tokensBelow, form, Form.tokens]
    refine Settles.congr ((settles_checkDepth _ _).bind fun _ ↦ (ih _).map rfl) ?_
    rw [← composableBelow_one]
    simp [ComposableBelow, height, nodes, RefersWithin, IsFinite, rangesInPlace]
  | equals left right negated ihleft ihright =>
    intro depth
    have hcondition : (equals left right negated).ComposableBelow scope depth ↔
        depth + 1 ≤ scope.limit ∧ left.ComposableBelow scope (depth + 1) ∧
          right.ComposableBelow scope (depth + 1) := by
      rw [← composableBelow_two]
      simp [ComposableBelow, height, nodes, RefersWithin, IsFinite, rangesInPlace]
    refine Settles.congr ?_ hcondition.symm
    rw [tokensBelow, form]
    by_cases hright : right.isNullLiteral = true
    · simp only [hright, ↓reduceIte]
      rw [Form.tokens, ← asOperand_form]
      refine Settles.congr ((settles_checkDepth _ _).bind fun _ ↦ (ihleft _).map rfl) ?_
      rw [eq_null_of_isNullLiteral hright, and_iff_left_of_imp composableBelow_null]
    · by_cases hleft : left.isNullLiteral = true
      · simp only [hright, hleft, Bool.false_eq_true, ↓reduceIte]
        rw [Form.tokens, ← asOperand_form]
        refine Settles.congr ((settles_checkDepth _ _).bind fun _ ↦ (ihright _).map rfl) ?_
        rw [eq_null_of_isNullLiteral hleft, and_iff_right_of_imp composableBelow_null]
      · simp only [hright, hleft, Bool.false_eq_true, ↓reduceIte]
        rw [Form.tokens, ← asOperand_form, ← asOperand_form]
        exact (settles_checkDepth _ _).bind fun _ ↦ (ihleft _).bind fun _ ↦ (ihright _).map rfl
  | between value first last ihvalue ihfirst ihlast =>
    intro depth
    rw [tokensBelow, form, Form.tokens, ← asOperand_form, ← asOperand_form, ← asOperand_form]
    refine Settles.congr ((settles_checkDepth _ _).bind fun _ ↦ (ihvalue _).bind fun _ ↦
      (ihfirst _).bind fun _ ↦ (ihlast _).map rfl) ?_
    simp only [ComposableBelow, height, nodes, List.forall_mem_cons, List.forall_mem_append,
      RefersWithin, IsFinite, rangesInPlace, Bool.and_eq_true]
    grind
  | isIn value collection hrange ihvalue ihcollection =>
    intro depth
    rw [tokensBelow, form, Form.tokens, ← asOperand_form]
    · refine Settles.congr ((settles_checkDepth _ _).bind fun _ ↦ (ihvalue _).bind fun _ ↦
        (ihcollection _).map rfl) ?_
      rw [← composableBelow_two]
      simp [ComposableBelow, height, nodes, RefersWithin, IsFinite, rangesInPlace]
    · exact fun first last heq ↦ hrange first last heq
    · exact fun first last heq ↦ hrange first last heq
  | range first last ihfirst ihlast =>
    intro depth
    rw [tokensBelow]
    have hbare : Settles scope.limit False ((range first last).form.tokens scope)
        (.error .bareRange) := ⟨False.elim, fun _ ↦ ⟨_, rfl, .range⟩⟩
    refine Settles.congr ((settles_checkDepth _ _).bind fun _ ↦ hbare) ?_
    simp [ComposableBelow, rangesInPlace]
  | div left right ihleft ihright =>
    intro depth
    rw [tokensBelow, form, Form.tokens, ← asOperand_form, ← asUnaryOperand_form]
    refine Settles.congr ((settles_checkDepth _ _).bind fun _ ↦ (ihleft _).bind fun _ ↦
      (ihright _).map rfl) ?_
    rw [← composableBelow_two]
    simp [ComposableBelow, height, nodes, RefersWithin, IsFinite, rangesInPlace]
  | truncate unit operand ih =>
    intro depth
    rw [tokensBelow, form, Form.tokens, ← asUnaryOperand_form]
    refine Settles.congr ((settles_checkDepth _ _).bind fun _ ↦ (ih _).map rfl) ?_
    rw [← composableBelow_one]
    simp [ComposableBelow, height, nodes, RefersWithin, IsFinite, rangesInPlace]
  | call name arguments ih =>
    intro depth
    rw [tokensBelow, form]
    refine Settles.congr ((settles_checkDepth _ _).bind fun _ ↦
      (settles_tokensOfEach fun argument hmem ↦ ih argument hmem _).map
        (callTokens_form scope name arguments)) ?_
    rw [← composableBelow_each]
    simp [ComposableBelow, height, nodes, RefersWithin, IsFinite, rangesInPlace]
  | literal value =>
    intro depth
    rw [tokensBelow, form]
    refine Settles.congr ((settles_checkDepth _ _).bind fun hlevel ↦
      value.settles_tokensAt _ scope _ hlevel) ?_
    simp only [ComposableBelow, Literal.ComposableAt, height, nodes, List.forall_mem_singleton,
      RefersWithin, IsFinite, rangesInPlace]
    have hheight := value.one_le_height
    grind
  | array elements elementType ih =>
    intro depth
    rw [tokensBelow, form, Form.tokens_ofElements]
    refine Settles.congr ((settles_checkDepth _ _).bind fun _ ↦
      (settles_tokensOfEach fun element hmem ↦ ih element hmem _).map rfl) ?_
    rw [← composableBelow_each]
    simp [ComposableBelow, height, nodes, RefersWithin, IsFinite, rangesInPlace]

/-- Whenever an expression is composed, the result is what its form says. -/
theorem tokens_eq_of_ok {scope : Scope} {expr : Expr} {tokens : List Token}
    (hok : expr.tokens scope = .ok tokens) :
    tokens = expr.form.tokens scope ∧ expr.ComposableBelow scope 0 :=
  (settles_tokensBelow scope expr 0).eq_of_ok hok

/-- The message of a call that does not match its rule begins with another letter than that of a
range out of place. -/
theorem not_composingFailure_callMismatch (limit : Nat) (name : String) (arity : Nat)
    (rule : CallRule) : ¬ ComposingFailure limit (.callMismatch name arity rule) := by
  generalize hcause : CompileError.callMismatch name arity rule = cause
  intro hfailure
  cases hfailure with
  | range =>
    have hmessages := congrArg String.toList (CompileError.unsupportedExpression.inj hcause)
    simp [String.toList_append] at hmessages
  | _ => cases hcause

/-- Composing succeeds exactly for expressions that are no higher than the limit, refer only to
sources that are there, contain only finite numbers and have every range on the right of a
membership test. All other expressions are refused because of the limit, a reference, a number or a
range, and never because a call does not match its rule. -/
theorem tokens_ok_iff_and_failure (scope : Scope) (expr : Expr) :
    ((∃ tokens, expr.tokens scope = .ok tokens) ↔
        expr.height ≤ scope.limit ∧ (∀ node ∈ expr.nodes, node.RefersWithin scope) ∧
          (∀ node ∈ expr.nodes, node.IsFinite) ∧ expr.rangesInPlace = true) ∧
      (∀ cause, expr.tokens scope = .error cause →
        cause = .depthExceeded scope.limit ∨
          (∃ index bound, bound ≤ index ∧ cause = .sourceOutOfRange index bound) ∨
          (∃ value : Binary64, value.isFinite = false ∧ cause = Literal.notRepresentable value) ∨
          cause = .bareRange) ∧
      ∀ name arity rule, expr.tokens scope ≠ .error (.callMismatch name arity rule) := by
  have hsettles := settles_tokensBelow scope expr 0
  have hfailure : ∀ cause, expr.tokens scope = .error cause →
      ComposingFailure scope.limit cause := by
    intro cause herror
    rw [Expr.tokens] at herror
    by_cases hcondition : expr.ComposableBelow scope 0
    · rw [hsettles.1 hcondition] at herror
      cases herror
    · obtain ⟨other, hother, hexpected⟩ := hsettles.2 hcondition
      rw [herror, Except.error.injEq] at hother
      rwa [hother]
  refine ⟨⟨?_, ?_⟩, ?_, ?_⟩
  · rintro ⟨tokens, hok⟩
    obtain ⟨hheight, hrest⟩ := (tokens_eq_of_ok hok).2
    exact ⟨by omega, hrest⟩
  · rintro ⟨hheight, hrest⟩
    exact ⟨_, hsettles.1 ⟨by omega, hrest⟩⟩
  · intro cause herror
    cases hfailure cause herror with
    | depth => exact Or.inl rfl
    | source index bound hindex => exact Or.inr (Or.inl ⟨index, bound, hindex, rfl⟩)
    | number value hvalue => exact Or.inr (Or.inr (Or.inl ⟨value, hvalue, rfl⟩))
    | range => exact Or.inr (Or.inr (Or.inr rfl))
  · intro name arity rule herror
    exact not_composingFailure_callMismatch _ _ _ _ (hfailure _ herror)

end Expr

end SqlCompose
