import SqlCompose.Proofs.Acceptance

/-!
Where the parts of a form come from. Every node of the form of an expression is the form of a node
of the expression, or belongs to a literal. What is known about the nodes of an expression one by
one therefore carries over to its form, without another induction over expressions
(`Expr.forall_mem_nodes_form`).
-/

set_option autoImplicit false
set_option relaxedAutoImplicit false

namespace SqlCompose

/-! ### Literals -/

theorem Form.nodes_ofElements (elements : List Form) (elementType : ValueType) :
    (ofElements elements elementType).nodes =
      ofElements elements elementType :: nodesOfEach elements := by
  cases elements <;> rfl

/-- Neither a reference, nor a call, nor a constant, nor a range by itself. -/
def Form.isPlain : Form → Bool
  | negation _ | nullTest .. | equality .. | membership .. | between .. | quotient ..
  | truncation .. | array .. | emptyArray _ => true
  | _ => false

theorem Form.isPlain_ofElements (elements : List Form) (elementType : ValueType) :
    (ofElements elements elementType).isPlain = true := by
  cases elements <;> rfl

/-- What holds of plain forms and of the scalars of a literal holds of all nodes of its form. -/
theorem Literal.forall_mem_nodes_form {condition : Form → Prop}
    (hplain : ∀ form : Form, form.isPlain = true → condition form) {value : Literal}
    (hall : ∀ origin ∈ value.nodes, ∀ hscalar : origin.isScalar = true,
      condition (.scalar origin hscalar)) :
    ∀ node ∈ value.form.nodes, condition node := by
  induction value using Literal.induction with
  | scalar value hscalar =>
    rw [nodes_of_isScalar hscalar, List.forall_mem_singleton] at hall
    rw [form_of_isScalar hscalar, Form.nodes, List.forall_mem_singleton]
    exact hall hscalar
  | array elements elementType ih =>
    rw [nodes, List.forall_mem_cons] at hall
    rw [form, Form.nodes_ofElements, List.forall_mem_cons, Form.forall_mem_nodesOfEach,
      formOfEach_eq_map, List.forall_mem_map]
    refine ⟨hplain _ (Form.isPlain_ofElements _ _), fun element hmem ↦ ih element hmem ?_⟩
    exact fun origin horigin ↦ hall.2 origin (mem_nodesOfEach.mpr ⟨element, hmem, horigin⟩)

/-! ### Expressions -/

theorem CallRule.nodes_form (name : String) (arguments : List Form) :
    ((callRule name arguments.length).form arguments).nodes =
      (callRule name arguments.length).form arguments :: Form.nodesOfEach arguments := by
  rcases callRule_cases name arguments with ⟨symbol, left, right, rfl, hrule⟩ |
    ⟨symbol, operand, rfl, hrule⟩ | ⟨bare, rfl, hrule⟩ | ⟨function, hrule⟩ | hrule
  · rw [hrule]
    simp [form, Form.nodes, Form.nodesOfEach]
  · rw [hrule]
    simp [form, Form.nodes, Form.nodesOfEach]
  · rw [hrule]
    rfl
  · rw [hrule]
    rfl
  · rw [hrule]
    rfl

namespace Expr

/-- The condition holds of what a node of an expression contributes to the form, unless that is
plain: of a reference, of the form of a call and of the scalars of a literal. -/
def Contributes (condition : Form → Prop) : Expr → Prop
  | field position name => condition (.column position name)
  | source position => condition (.wholeSource position)
  | call name arguments =>
    condition ((callRule name arguments.length).form (formOfEach arguments))
  | literal value => ∀ origin ∈ value.nodes, ∀ hscalar : origin.isScalar = true,
      condition (.scalar origin hscalar)
  | _ => True

/-- What holds of plain forms and of the contributions of all nodes of an expression holds of all
nodes of its form. -/
theorem forall_mem_nodes_form {condition : Form → Prop}
    (hplain : ∀ form : Form, form.isPlain = true → condition form) {expr : Expr}
    (hranges : expr.rangesInPlace = true)
    (hall : ∀ origin ∈ expr.nodes, origin.Contributes condition) :
    ∀ node ∈ expr.form.nodes, condition node := by
  induction expr using Expr.induction with
  | field position name =>
    rw [form, Form.nodes, List.forall_mem_singleton]
    exact hall (field position name) (by simp [nodes])
  | source position =>
    rw [form, Form.nodes, List.forall_mem_singleton]
    exact hall (source position) (by simp [nodes])
  | not operand ih =>
    rw [nodes, List.forall_mem_cons] at hall
    rw [form, Form.nodes, List.forall_mem_cons]
    exact ⟨hplain _ rfl, ih hranges hall.2⟩
  | equals left right negated ihleft ihright =>
    rw [nodes, List.forall_mem_cons, List.forall_mem_append] at hall
    rw [rangesInPlace, Bool.and_eq_true] at hranges
    obtain ⟨-, hleft, hright⟩ := hall
    rw [form]
    split
    · rw [Form.nodes, List.forall_mem_cons]
      exact ⟨hplain _ rfl, ihleft hranges.1 hleft⟩
    · split
      · rw [Form.nodes, List.forall_mem_cons]
        exact ⟨hplain _ rfl, ihright hranges.2 hright⟩
      · rw [Form.nodes, List.forall_mem_cons, List.forall_mem_append]
        exact ⟨hplain _ rfl, ihleft hranges.1 hleft, ihright hranges.2 hright⟩
  | between value first last ihvalue ihfirst ihlast =>
    simp only [nodes, List.forall_mem_cons, List.forall_mem_append] at hall
    simp only [rangesInPlace, Bool.and_eq_true] at hranges
    obtain ⟨-, hvalue, -, hfirst, hlast⟩ := hall
    rw [form, Form.nodes, List.forall_mem_cons, List.forall_mem_append, List.forall_mem_append]
    exact ⟨hplain _ rfl, ⟨ihvalue hranges.1 hvalue, ihfirst hranges.2.1 hfirst⟩,
      ihlast hranges.2.2 hlast⟩
  | isIn value collection hrange ihvalue ihcollection =>
    rw [nodes, List.forall_mem_cons, List.forall_mem_append] at hall
    have hform : (isIn value collection).form = .membership value.form collection.form := by
      rw [form]
      exact fun first last heq ↦ hrange first last heq
    rw [rangesInPlace, Bool.and_eq_true] at hranges
    · rw [hform, Form.nodes, List.forall_mem_cons, List.forall_mem_append]
      exact ⟨hplain _ rfl, ihvalue hranges.1 hall.2.1, ihcollection hranges.2 hall.2.2⟩
    · exact fun first last heq ↦ hrange first last heq
  | range first last ihfirst ihlast => cases hranges
  | div left right ihleft ihright =>
    rw [nodes, List.forall_mem_cons, List.forall_mem_append] at hall
    rw [rangesInPlace, Bool.and_eq_true] at hranges
    rw [form, Form.nodes, List.forall_mem_cons, List.forall_mem_append]
    exact ⟨hplain _ rfl, ihleft hranges.1 hall.2.1, ihright hranges.2 hall.2.2⟩
  | truncate unit operand ih =>
    rw [nodes, List.forall_mem_cons] at hall
    rw [form, Form.nodes, List.forall_mem_cons]
    exact ⟨hplain _ rfl, ih hranges hall.2⟩
  | call name arguments ih =>
    rw [nodes, List.forall_mem_cons, forall_mem_nodesOfEach] at hall
    rw [rangesInPlace, rangesInPlaceInEach_iff] at hranges
    have hlength : arguments.length = (formOfEach arguments).length := by
      rw [formOfEach_eq_map, List.length_map]
    have hself : condition ((callRule name arguments.length).form (formOfEach arguments)) := hall.1
    rw [hlength] at hself
    rw [form, hlength, CallRule.nodes_form, List.forall_mem_cons, Form.forall_mem_nodesOfEach]
    refine ⟨hself, ?_⟩
    rw [formOfEach_eq_map, List.forall_mem_map]
    exact fun argument hmem ↦ ih argument hmem (hranges argument hmem) (hall.2 argument hmem)
  | literal value =>
    exact Literal.forall_mem_nodes_form hplain (hall (literal value) (by simp [nodes]))
  | array elements elementType ih =>
    rw [nodes, List.forall_mem_cons, forall_mem_nodesOfEach] at hall
    rw [rangesInPlace, rangesInPlaceInEach_iff] at hranges
    rw [form, Form.nodes_ofElements, List.forall_mem_cons, Form.forall_mem_nodesOfEach]
    refine ⟨hplain _ (Form.isPlain_ofElements _ _), ?_⟩
    rw [formOfEach_eq_map, List.forall_mem_map]
    exact fun element hmem ↦ ih element hmem (hranges element hmem) (hall.2 element hmem)

end Expr

end SqlCompose
