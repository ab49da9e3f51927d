import SqlCompose.Proofs.Structure

/-!
The constants of an expression: the literals in it, together with the elements of array literals,
those in them and so on. `mapScalars` makes a change to every scalar among them and leaves all else
as it is. Two changes do the same to an expression if and only if they agree on its scalars
(`Expr.mapScalars_eq_iff`).
-/

set_option autoImplicit false
set_option relaxedAutoImplicit false

namespace SqlCompose

/-! ### Scalars of a literal -/

namespace Literal

mutual

/-- The literal with a change made to every scalar in it. -/
def mapScalars (change : Literal → Literal) : Literal → Literal
  | array elements elementType => array (mapScalarsOfEach change elements) elementType
  | value => change value

/-- Several literals with a change made to every scalar in them. -/
def mapScalarsOfEach (change : Literal → Literal) : List Literal → List Literal
  | [] => []
  | value :: rest => mapScalars change value :: mapScalarsOfEach change rest

end

variable {change other : Literal → Literal}

theorem mapScalarsOfEach_eq_map (change : Literal → Literal) (values : List Literal) :
    mapScalarsOfEach change values = values.map (mapScalars change) := by
  induction values with
  | nil => rfl
  | cons value rest ih => rw [mapScalarsOfEach, ih, List.map_cons]

theorem mapScalars_of_isScalar {value : Literal} (hscalar : value.isScalar = true) :
    value.mapScalars change = change value := by
  cases value <;> first | rfl | cases hscalar

theorem forall_mem_nodes_array {condition : Literal → Prop} {elements : List Literal}
    {elementType : ValueType} :
    (∀ node ∈ (array elements elementType).nodes, condition node) ↔
      condition (array elements elementType) ∧
        ∀ element ∈ elements, ∀ node ∈ element.nodes, condition node := by
  rw [nodes, List.forall_mem_cons]
  simp only [mem_nodesOfEach]
  refine and_congr_right fun _ ↦ ⟨fun hall element helement node hnode ↦ ?_, ?_⟩
  · exact hall node ⟨element, helement, hnode⟩
  · rintro hall node ⟨element, helement, hnode⟩
    exact hall element helement node hnode

theorem mapScalars_eq_iff (value : Literal) :
    value.mapScalars change = value.mapScalars other ↔
      ∀ node ∈ value.nodes, node.isScalar = true → change node = other node := by
  induction value using induction with
  | scalar value hscalar =>
    rw [mapScalars_of_isScalar hscalar, mapScalars_of_isScalar hscalar, nodes_of_isScalar hscalar,
      List.forall_mem_singleton]
    exact ⟨fun heq _ ↦ heq, fun heq ↦ heq hscalar⟩
  | array elements elementType ih =>
    have hself : (array elements elementType).isScalar = true →
        change (array elements elementType) = other (array elements elementType) := by
      intro hscalar
      cases hscalar
    rw [mapScalars, mapScalars, array.injEq, mapScalarsOfEach_eq_map, mapScalarsOfEach_eq_map,
      List.map_inj_left, forall_mem_nodes_array, and_iff_left rfl, and_iff_right hself]
    exact forall₂_congr ih

theorem mapScalars_id (value : Literal) : value.mapScalars id = value := by
  induction value using induction with
  | scalar value hscalar => rw [mapScalars_of_isScalar hscalar, id]
  | array elements elementType ih =>
    rw [mapScalars, mapScalarsOfEach_eq_map, List.map_congr_left ih, List.map_id']

theorem imp_isScalar_iff
    (harray : ∀ value : Literal, value.isScalar = false → change value = value) (value : Literal) :
    (value.isScalar = true → change value = id value) ↔ change value = value := by
  refine ⟨fun hchange ↦ ?_, fun hchange _ ↦ hchange⟩
  by_cases hscalar : value.isScalar = true
  · exact hchange hscalar
  · exact harray value (Bool.eq_false_iff.mpr hscalar)

/-- A change of scalars that leaves arrays alone does nothing to a literal if and only if it does
nothing to any node. -/
theorem mapScalars_eq_self_iff
    (harray : ∀ value : Literal, value.isScalar = false → change value = value) (value : Literal) :
    value.mapScalars change = value ↔ ∀ node ∈ value.nodes, change node = node := by
  have hself := @mapScalars_eq_iff change id value
  rw [mapScalars_id] at hself
  exact hself.trans (forall₂_congr fun node _ ↦ imp_isScalar_iff harray node)

theorem mapScalars_mapScalars
    (hchange : ∀ value : Literal, value.isScalar = true → (change value).isScalar = true)
    (value : Literal) :
    (value.mapScalars change).mapScalars other = value.mapScalars (other ∘ change) := by
  induction value using induction with
  | scalar value hscalar =>
    rw [mapScalars_of_isScalar hscalar, mapScalars_of_isScalar hscalar,
      mapScalars_of_isScalar (hchange value hscalar), Function.comp_apply]
  | array elements elementType ih =>
    have helements : elements.map (mapScalars other ∘ mapScalars change) =
        elements.map (mapScalars (other ∘ change)) := List.map_congr_left ih
    simp only [mapScalars, mapScalarsOfEach_eq_map, List.map_map, helements]

end Literal

/-! ### Constants of an expression -/

namespace Expr

/-- The literals that a node consists of. -/
def ownConstants : Expr → List Literal
  | literal value => value.nodes
  | _ => []

/-- The literals in an expression. -/
def constants (expr : Expr) : List Literal :=
  expr.nodes.flatMap ownConstants

/-- The literals in several expressions. -/
def constantsOfEach (exprs : List Expr) : List Literal :=
  (nodesOfEach exprs).flatMap ownConstants

@[simp] theorem constants_field (position : UInt64) (name : String) :
    (field position name).constants = [] := rfl

@[simp] theorem constants_source (position : UInt64) : (source position).constants = [] := rfl

@[simp] theorem constants_literal (value : Literal) : (literal value).constants = value.nodes :=
  List.append_nil _

@[simp] theorem constants_not (operand : Expr) : (not operand).constants = operand.constants := rfl

@[simp] theorem constants_equals (left right : Expr) (negated : Bool) :
    (equals left right negated).constants = left.constants ++ right.constants :=
  List.flatMap_append

@[simp] theorem constants_isIn (left right : Expr) :
    (isIn left right).constants = left.constants ++ right.constants :=
  List.flatMap_append

@[simp] theorem constants_range (first last : Expr) :
    (range first last).constants = first.constants ++ last.constants :=
  List.flatMap_append

@[simp] theorem constants_div (left right : Expr) :
    (div left right).constants = left.constants ++ right.constants :=
  List.flatMap_append

@[simp] theorem constants_truncate (unit : Truncation) (operand : Expr) :
    (truncate unit operand).constants = operand.constants := rfl

@[simp] theorem constants_call (name : String) (arguments : List Expr) :
    (call name arguments).constants = constantsOfEach arguments := rfl

@[simp] theorem constants_array (elements : List Expr) (elementType : ValueType) :
    (array elements elementType).constants = constantsOfEach elements := rfl

theorem constantsOfEach_eq_flatMap (exprs : List Expr) :
    constantsOfEach exprs = exprs.flatMap constants := by
  induction exprs with
  | nil => rfl
  | cons expr rest ih =>
    rw [List.flatMap_cons, ← ih]
    exact List.flatMap_append

theorem forall_mem_constantsOfEach {condition : Literal → Prop} {exprs : List Expr} :
    (∀ value ∈ constantsOfEach exprs, condition value) ↔
      ∀ expr ∈ exprs, ∀ value ∈ expr.constants, condition value := by
  rw [constantsOfEach_eq_flatMap]
  simp only [List.mem_flatMap]
  constructor
  · intro hall expr hexpr value hvalue
    exact hall value ⟨expr, hexpr, hvalue⟩
  · rintro hall value ⟨expr, hexpr, hvalue⟩
    exact hall expr hexpr value hvalue

/-! ### Scalars of an expression -/

mutual

/-- The expression with a change made to every scalar in it. -/
def mapScalars (change : Literal → Literal) : Expr → Expr
  | field position name => field position name
  | source position => source position
  | not operand => not (mapScalars change operand)
  | equals left right negated =>
    equals (mapScalars change left) (mapScalars change right) negated
  | isIn left right => isIn (mapScalars change left) (mapScalars change right)
  | range first last => range (mapScalars change first) (mapScalars change last)
  | div left right => div (mapScalars change left) (mapScalars change right)
  | truncate unit operand => truncate unit (mapScalars change operand)
  | call name arguments => call name (mapScalarsOfEach change arguments)
  | literal value => literal (value.mapScalars change)
  | array elements elementType => array (mapScalarsOfEach change elements) elementType

/-- Several expressions with a change made to every scalar in them. -/
def mapScalarsOfEach (change : Literal → Literal) : List Expr → List Expr
  | [] => []
  | expr :: rest => mapScalars change expr :: mapScalarsOfEach change rest

end

variable {change other : Literal → Literal}

theorem mapScalarsOfEach_eq_map (change : Literal → Literal) (exprs : List Expr) :
    mapScalarsOfEach change exprs = exprs.map (mapScalars change) := by
  induction exprs with
  | nil => rfl
  | cons expr rest ih => rw [mapScalarsOfEach, ih, List.map_cons]

/-- Two changes do the same to the expression if and only if they agree on its scalars. -/
def ChangesAgree (change other : Literal → Literal) (expr : Expr) : Prop :=
  expr.mapScalars change = expr.mapScalars other ↔
    ∀ value ∈ expr.constants, value.isScalar = true → change value = other value

theorem mapScalarsOfEach_eq_iff {exprs : List Expr}
    (hexprs : ∀ expr ∈ exprs, expr.ChangesAgree change other) :
    mapScalarsOfEach change exprs = mapScalarsOfEach other exprs ↔
      ∀ value ∈ constantsOfEach exprs, value.isScalar = true → change value = other value := by
  rw [mapScalarsOfEach_eq_map, mapScalarsOfEach_eq_map, List.map_inj_left,
    forall_mem_constantsOfEach]
  exact forall₂_congr hexprs

theorem mapScalars_eq_iff (expr : Expr) : expr.ChangesAgree change other := by
  unfold ChangesAgree
  induction expr using induction with
  | field position name => simp [mapScalars]
  | source position => simp [mapScalars]
  | not operand hoperand => simpa [mapScalars] using hoperand
  | equals left right negated hleft hright =>
    rw [mapScalars, mapScalars, constants_equals, List.forall_mem_append, ← hleft, ← hright]
    simp
  | between value first last hvalue hfirst hlast =>
    simp only [mapScalars, constants_isIn, constants_range, List.forall_mem_append, ← hvalue,
      ← hfirst, ← hlast, isIn.injEq, range.injEq]
  | isIn value collection _ hvalue hcollection =>
    rw [mapScalars, mapScalars, constants_isIn, List.forall_mem_append, ← hvalue, ← hcollection,
      isIn.injEq]
  | range first last hfirst hlast =>
    rw [mapScalars, mapScalars, constants_range, List.forall_mem_append, ← hfirst, ← hlast,
      range.injEq]
  | div left right hleft hright =>
    rw [mapScalars, mapScalars, constants_div, List.forall_mem_append, ← hleft, ← hright,
      div.injEq]
  | truncate unit operand hoperand => simpa [mapScalars] using hoperand
  | call name arguments harguments =>
    rw [constants_call, ← mapScalarsOfEach_eq_iff harguments]
    simp [mapScalars]
  | literal value =>
    rw [constants_literal, ← value.mapScalars_eq_iff]
    simp [mapScalars]
  | array elements elementType helements =>
    rw [constants_array, ← mapScalarsOfEach_eq_iff helements]
    simp [mapScalars]

theorem mapScalars_id (expr : Expr) : expr.mapScalars id = expr := by
  have heach {exprs : List Expr} (hexprs : ∀ expr ∈ exprs, expr.mapScalars id = expr) :
      mapScalarsOfEach id exprs = exprs := by
    rw [mapScalarsOfEach_eq_map, List.map_congr_left hexprs, List.map_id']
  induction expr using induction with
  | field | source => rfl
  | literal value => rw [mapScalars, value.mapScalars_id]
  | call name arguments harguments => rw [mapScalars, heach harguments]
  | array elements elementType helements => rw [mapScalars, heach helements]
  | _ => simp only [mapScalars, *]

theorem mapScalars_eq_self_iff
    (harray : ∀ value : Literal, value.isScalar = false → change value = value) (expr : Expr) :
    expr.mapScalars change = expr ↔ ∀ value ∈ expr.constants, change value = value := by
  have hself := @mapScalars_eq_iff change id expr
  rw [ChangesAgree, mapScalars_id] at hself
  exact hself.trans (forall₂_congr fun value _ ↦ Literal.imp_isScalar_iff harray value)

theorem mapScalars_mapScalars
    (hchange : ∀ value : Literal, value.isScalar = true → (change value).isScalar = true)
    (expr : Expr) :
    (expr.mapScalars change).mapScalars other = expr.mapScalars (other ∘ change) := by
  have heach {exprs : List Expr} (hexprs : ∀ expr ∈ exprs,
      (expr.mapScalars change).mapScalars other = expr.mapScalars (other ∘ change)) :
      mapScalarsOfEach other (mapScalarsOfEach change exprs) =
        mapScalarsOfEach (other ∘ change) exprs := by
    simp only [mapScalarsOfEach_eq_map, List.map_map]
    exact List.map_congr_left hexprs
  induction expr using induction with
  | field | source => rfl
  | literal value => rw [mapScalars, mapScalars, value.mapScalars_mapScalars hchange, mapScalars]
  | call name arguments harguments => rw [mapScalars, mapScalars, heach harguments, mapScalars]
  | array elements elementType helements =>
    rw [mapScalars, mapScalars, heach helements, mapScalars]
  | _ => simp only [mapScalars, *]

end Expr

end SqlCompose
