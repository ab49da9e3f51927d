import SqlCompose.Expr

/-!
Literals and expressions as trees. Both types hold lists of themselves, so neither has a usable
induction principle of its own: `Literal.induction` and `Expr.induction` give one, with the
hypothesis for every element of a list. The cases of `Expr.induction` are those that composing
distinguishes, so a range directly under a membership test is not met as an expression of its own.

`nodes` lists a tree together with everything below it. Conditions on the parts of a literal or an
expression are stated as conditions on its nodes.
-/

set_option autoImplicit false
set_option relaxedAutoImplicit false

namespace SqlCompose

namespace Literal

/-- A literal other than an array. -/
def isScalar : Literal → Bool
  | array .. => false
  | _ => true

/-- Induction over literals, with a hypothesis for every element of an array. -/
theorem induction {motive : Literal → Prop}
    (scalar : ∀ value, value.isScalar = true → motive value)
    (array : ∀ elements elementType, (∀ element ∈ elements, motive element) →
      motive (.array elements elementType)) : ∀ value, motive value
  | .null => scalar _ rfl
  | .boolean _ => scalar _ rfl
  | .text _ => scalar _ rfl
  | .integer _ => scalar _ rfl
  | .float _ => scalar _ rfl
  | .decimal _ => scalar _ rfl
  | .binary _ => scalar _ rfl
  | .date _ => scalar _ rfl
  | .time _ => scalar _ rfl
  | .timestamp _ => scalar _ rfl
  | .interval _ => scalar _ rfl
  | .array elements elementType => array elements elementType fun element hmem ↦
      have : sizeOf element < sizeOf elements := List.sizeOf_lt_of_mem hmem
      induction scalar array element
termination_by value => sizeOf value
decreasing_by simp only [Literal.array.sizeOf_spec]; omega

mutual

/-- The literal itself, the elements of an array, their elements and so on. -/
def nodes : Literal → List Literal
  | array elements elementType => array elements elementType :: nodesOfEach elements
  | value => [value]

/-- The nodes of each of several literals. -/
def nodesOfEach : List Literal → List Literal
  | [] => []
  | value :: rest => nodes value ++ nodesOfEach rest

end

theorem mem_nodesOfEach {node : Literal} {values : List Literal} :
    node ∈ nodesOfEach values ↔ ∃ value ∈ values, node ∈ value.nodes := by
  induction values with
  | nil => simp [nodesOfEach]
  | cons value rest ih => simp [nodesOfEach, ih]

theorem nodes_of_isScalar {value : Literal} (hscalar : value.isScalar = true) :
    value.nodes = [value] := by
  cases value <;> first | rfl | simp [isScalar] at hscalar

theorem mem_nodes_array {node : Literal} {elements : List Literal} {elementType : ValueType} :
    node ∈ (array elements elementType).nodes ↔
      node = array elements elementType ∨ ∃ element ∈ elements, node ∈ element.nodes := by
  rw [nodes, List.mem_cons, mem_nodesOfEach]

end Literal

namespace Expr

/-- Induction over expressions along the cases of composing. -/
theorem induction {motive : Expr → Prop}
    (field : ∀ position name, motive (.field position name))
    (source : ∀ position, motive (.source position))
    (not : ∀ operand, motive operand → motive (.not operand))
    (equals : ∀ left right negated, motive left → motive right →
      motive (.equals left right negated))
    (between : ∀ value first last, motive value → motive first → motive last →
      motive (.isIn value (.range first last)))
    (isIn : ∀ value collection, (∀ first last, collection ≠ .range first last) →
      motive value → motive collection → motive (.isIn value collection))
    (range : ∀ first last, motive first → motive last → motive (.range first last))
    (div : ∀ left right, motive left → motive right → motive (.div left right))
    (truncate : ∀ unit operand, motive operand → motive (.truncate unit operand))
    (call : ∀ name arguments, (∀ argument ∈ arguments, motive argument) →
      motive (.call name arguments))
    (literal : ∀ value, motive (.literal value))
    (array : ∀ elements elementType, (∀ element ∈ elements, motive element) →
      motive (.array elements elementType)) : ∀ expr, motive expr := by
  intro expr
  have again (smaller : Expr) (_ : sizeOf smaller < sizeOf expr) : motive smaller :=
    induction field source not equals between isIn range div truncate call literal array smaller
  cases expr with
  | field position name => exact field position name
  | source position => exact source position
  | not operand => exact not operand (again _ (by simp +arith))
  | equals left right negated =>
    exact equals left right negated (again _ (by simp +arith)) (again _ (by simp +arith))
  | isIn value collection =>
    by_cases hrange : ∃ first last, collection = .range first last
    · obtain ⟨first, last, rfl⟩ := hrange
      exact between value first last (again _ (by simp +arith)) (again _ (by simp +arith))
        (again _ (by simp +arith))
    · exact isIn value collection (fun first last heq ↦ hrange ⟨first, last, heq⟩)
        (again _ (by simp +arith)) (again _ (by simp +arith))
  | range first last =>
    exact range first last (again _ (by simp +arith)) (again _ (by simp +arith))
  | div left right => exact div left right (again _ (by simp +arith)) (again _ (by simp +arith))
  | truncate unit operand => exact truncate unit operand (again _ (by simp +arith))
  | call name arguments =>
    refine call name arguments fun argument hmem ↦ again _ ?_
    exact Nat.lt_trans (List.sizeOf_lt_of_mem hmem) (by simp +arith)
  | literal value => exact literal value
  | array elements elementType =>
    refine array elements elementType fun element hmem ↦ again _ ?_
    exact Nat.lt_trans (List.sizeOf_lt_of_mem hmem) (by simp +arith)
termination_by expr => sizeOf expr

mutual

/-- The expression itself, its operands, arguments and elements, those below them and so on. -/
def nodes : Expr → List Expr
  | field position name => [field position name]
  | source position => [source position]
  | not operand => not operand :: nodes operand
  | equals left right negated => equals left right negated :: (nodes left ++ nodes right)
  | isIn left right => isIn left right :: (nodes left ++ nodes right)
  | range first last => range first last :: (nodes first ++ nodes last)
  | div left right => div left right :: (nodes left ++ nodes right)
  | truncate unit operand => truncate unit operand :: nodes operand
  | call name arguments => call name arguments :: nodesOfEach arguments
  | literal value => [literal value]
  | array elements elementType => array elements elementType :: nodesOfEach elements

/-- The nodes of each of several expressions. -/
def nodesOfEach : List Expr → List Expr
  | [] => []
  | expr :: rest => nodes expr ++ nodesOfEach rest

end

theorem mem_nodesOfEach {node : Expr} {exprs : List Expr} :
    node ∈ nodesOfEach exprs ↔ ∃ expr ∈ exprs, node ∈ expr.nodes := by
  induction exprs with
  | nil => simp [nodesOfEach]
  | cons expr rest ih => simp [nodesOfEach, ih]

theorem forall_mem_nodesOfEach {condition : Expr → Prop} {exprs : List Expr} :
    (∀ node ∈ nodesOfEach exprs, condition node) ↔
      ∀ expr ∈ exprs, ∀ node ∈ expr.nodes, condition node := by
  simp only [mem_nodesOfEach]
  exact ⟨fun hall expr hmem node hnode ↦ hall node ⟨expr, hmem, hnode⟩,
    fun hall node ⟨expr, hmem, hnode⟩ ↦ hall expr hmem node hnode⟩

/-- The nodes of a node belong to the whole expression. -/
theorem nodes_subset {expr node : Expr} (hnode : node ∈ expr.nodes) : node.nodes ⊆ expr.nodes := by
  have hone {whole : Expr} {below : List Expr} (hwhole : whole.nodes = whole :: below)
      (hbelow : node ∈ below → node.nodes ⊆ below) (hmem : node ∈ whole.nodes) :
      node.nodes ⊆ whole.nodes := by
    rw [hwhole, List.mem_cons] at hmem
    rcases hmem with rfl | hmem
    · exact List.Subset.refl _
    · rw [hwhole]
      exact List.subset_cons_of_subset _ (hbelow hmem)
  have htwo {first second : List Expr} (hfirst : node ∈ first → node.nodes ⊆ first)
      (hsecond : node ∈ second → node.nodes ⊆ second) (hmem : node ∈ first ++ second) :
      node.nodes ⊆ first ++ second := by
    rcases List.mem_append.mp hmem with hmem | hmem
    · exact List.subset_append_of_subset_left _ (hfirst hmem)
    · exact List.subset_append_of_subset_right _ (hsecond hmem)
  have heach {exprs : List Expr}
      (hall : ∀ expr ∈ exprs, node ∈ expr.nodes → node.nodes ⊆ expr.nodes)
      (hmem : node ∈ nodesOfEach exprs) : node.nodes ⊆ nodesOfEach exprs := by
    obtain ⟨expr, hexpr, hmem⟩ := mem_nodesOfEach.mp hmem
    exact fun inner hinner ↦ mem_nodesOfEach.mpr ⟨expr, hexpr, hall expr hexpr hmem hinner⟩
  induction expr using Expr.induction with
  | field position name => exact hone rfl (by simp) hnode
  | source position => exact hone rfl (by simp) hnode
  | not operand ih => exact hone rfl ih hnode
  | equals left right negated ihleft ihright => exact hone rfl (htwo ihleft ihright) hnode
  | between value first last ihvalue ihfirst ihlast =>
    exact hone rfl (htwo ihvalue (hone rfl (htwo ihfirst ihlast))) hnode
  | isIn value collection hrange ihvalue ihcollection =>
    exact hone rfl (htwo ihvalue ihcollection) hnode
  | range first last ihfirst ihlast => exact hone rfl (htwo ihfirst ihlast) hnode
  | div left right ihleft ihright => exact hone rfl (htwo ihleft ihright) hnode
  | truncate unit operand ih => exact hone rfl ih hnode
  | call name arguments ih => exact hone rfl (heach ih) hnode
  | literal value => exact hone rfl (by simp) hnode
  | array elements elementType ih => exact hone rfl (heach ih) hnode

end Expr

end SqlCompose
