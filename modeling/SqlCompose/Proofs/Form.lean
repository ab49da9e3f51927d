import SqlCompose.Expr.Tokens
import SqlCompose.Proofs.Catalog
import SqlCompose.Proofs.Structure

/-!
Written forms of expressions. Composing an expression decides several things at once: how the
catalog writes a call, which side of a comparison with null is tested, whether an array is a literal
or an expression. A form records the outcome of these decisions and nothing else, so two expressions
have the same form exactly when they differ only in what the decisions forget: the name by which a
call found its symbol, the side on which null stood, the kind of an array and the element type of an
array that has elements.

`Expr.form` is the form of an expression and `Form.tokens` writes a form down, without any check and
without any failure. That composing writes exactly these tokens, whenever it succeeds, is shown in
`SqlCompose.Proofs.Acceptance`.
-/

set_option autoImplicit false
set_option relaxedAutoImplicit false

namespace SqlCompose

/-- How an expression is written. -/
inductive Form
  | column (position : UInt64) (name : String)
  | wholeSource (position : UInt64)
  | negation (operand : Form)
  | nullTest (operand : Form) (negated : Bool)
  | equality (left right : Form) (negated : Bool)
  | membership (value collection : Form)
  | between (value first last : Form)
  /-- A range outside of a membership test, which is never written. -/
  | bareRange (first last : Form)
  | quotient (left right : Form)
  | truncation (unit : Truncation) (operand : Form)
  | infixed (symbol : String) (left right : Form)
  | signed (symbol : String) (operand : Form)
  | word (name : String)
  | function (name : String) (arguments : List Form)
  | scalar (value : Literal) (isScalar : value.isScalar = true)
  /-- An array with at least one element. -/
  | array (first : Form) (rest : List Form)
  | emptyArray (elementType : ValueType)

namespace Form

/-- Induction over forms, with a hypothesis for every argument and every element. -/
theorem induction {motive : Form → Prop}
    (column : ∀ position name, motive (.column position name))
    (wholeSource : ∀ position, motive (.wholeSource position))
    (negation : ∀ operand, motive operand → motive (.negation operand))
    (nullTest : ∀ operand negated, motive operand → motive (.nullTest operand negated))
    (equality : ∀ left right negated, motive left → motive right →
      motive (.equality left right negated))
    (membership : ∀ value collection, motive value → motive collection →
      motive (.membership value collection))
    (between : ∀ value first last, motive value → motive first → motive last →
      motive (.between value first last))
    (bareRange : ∀ first last, motive (.bareRange first last))
    (quotient : ∀ left right, motive left → motive right → motive (.quotient left right))
    (truncation : ∀ unit operand, motive operand → motive (.truncation unit operand))
    (infixed : ∀ symbol left right, motive left → motive right →
      motive (.infixed symbol left right))
    (signed : ∀ symbol operand, motive operand → motive (.signed symbol operand))
    (word : ∀ name, motive (.word name))
    (function : ∀ name arguments, (∀ argument ∈ arguments, motive argument) →
      motive (.function name arguments))
    (scalar : ∀ value hscalar, motive (.scalar value hscalar))
    (array : ∀ first rest, (∀ element ∈ first :: rest, motive element) →
      motive (.array first rest))
    (emptyArray : ∀ elementType, motive (.emptyArray elementType)) : ∀ form, motive form := by
  intro form
  have again (smaller : Form) (_ : sizeOf smaller < sizeOf form) : motive smaller :=
    induction column wholeSource negation nullTest equality membership between bareRange quotient
      truncation infixed signed word function scalar array emptyArray smaller
  cases form with
  | column position name => exact column position name
  | wholeSource position => exact wholeSource position
  | negation operand => exact negation operand (again _ (by simp +arith))
  | nullTest operand negated => exact nullTest operand negated (again _ (by simp +arith))
  | equality left right negated =>
    exact equality left right negated (again _ (by simp +arith)) (again _ (by simp +arith))
  | membership value collection =>
    exact membership value collection (again _ (by simp +arith)) (again _ (by simp +arith))
  | between value first last =>
    exact between value first last (again _ (by simp +arith)) (again _ (by simp +arith))
      (again _ (by simp +arith))
  | bareRange first last => exact bareRange first last
  | quotient left right =>
    exact quotient left right (again _ (by simp +arith)) (again _ (by simp +arith))
  | truncation unit operand => exact truncation unit operand (again _ (by simp +arith))
  | infixed symbol left right =>
    exact infixed symbol left right (again _ (by simp +arith)) (again _ (by simp +arith))
  | signed symbol operand => exact signed symbol operand (again _ (by simp +arith))
  | word name => exact word name
  | function name arguments =>
    refine function name arguments fun argument hmem ↦ again _ ?_
    exact Nat.lt_trans (List.sizeOf_lt_of_mem hmem) (by simp +arith)
  | scalar value hscalar => exact scalar value hscalar
  | array first rest =>
    refine array first rest fun element hmem ↦ again _ ?_
    exact Nat.lt_of_lt_of_le (List.sizeOf_lt_of_mem hmem) (by simp +arith)
  | emptyArray elementType => exact emptyArray elementType
termination_by form => sizeOf form

/-! ### Writing a form down -/

/-- Written with an operator between two operands. -/
def isBinary : Form → Bool
  | nullTest .. | equality .. | membership .. | between .. | quotient .. | infixed .. => true
  | _ => false

/-- Written with a sign in front. -/
def isSigned : Form → Bool
  | signed .. => true
  | scalar value _ => value.isNegative
  | _ => false

/-- An operand that stands between parentheses after a sign or before a cast. -/
def isGrouped (operand : Form) : Bool :=
  operand.isBinary || operand.isSigned

/-- An array of the given elements; the type is kept only when there are none. -/
def ofElements (elements : List Form) (elementType : ValueType) : Form :=
  match elements with
  | [] => emptyArray elementType
  | first :: rest => array first rest

end Form

/-- The tokens of a scalar, whether or not it can be written. -/
def Literal.scalarTokens : Literal → List Token
  | null => [.null]
  | boolean value => [.boolean value]
  | text value => [.text value]
  | integer value => [.integer value]
  | float value => [.float value, .cast, .typeName .float]
  | decimal value => [.decimal value]
  | binary bytes => [.bytes bytes, .cast, .typeName .binary]
  | date value => [.typed "date" (String.ofList value.text)]
  | time value => [.typed "time" (String.ofList value.text)]
  | timestamp value => [.typed "timestamp" (String.ofList (value.text ' '))]
  | interval value => [.typed "interval" (String.ofList value.text)]
  | array .. => []

namespace Form

mutual

/-- The tokens of a form; a position without alias or source is written without them. -/
def tokens (scope : Scope) : Form → List Token
  | column position name => columnTokens (scope.aliases.getD position.toNat "") name
  | wholeSource position =>
    match scope.source? position.toNat with
    | .ok (table, shortName) => sourceTokens table shortName
    | .error _ => []
  | negation operand =>
    .keyword .not :: .space :: Token.parenthesized (tokens scope operand)
  | nullTest operand negated =>
    Expr.nullTest (Expr.grouped operand.isBinary (tokens scope operand)) negated
  | equality left right negated =>
    Expr.equalityTest (Expr.grouped left.isBinary (tokens scope left))
      (Expr.grouped right.isBinary (tokens scope right)) negated
  | membership value collection =>
    Expr.anyTest (Expr.grouped value.isBinary (tokens scope value)) (tokens scope collection)
  | between value first last =>
    Expr.betweenTest (Expr.grouped value.isBinary (tokens scope value))
      (Expr.grouped first.isBinary (tokens scope first))
      (Expr.grouped last.isBinary (tokens scope last))
  | bareRange _ _ => []
  | quotient left right =>
    Expr.quotient (Expr.grouped left.isBinary (tokens scope left))
      (Expr.grouped right.isGrouped (tokens scope right))
  | truncation unit operand =>
    Expr.grouped operand.isGrouped (tokens scope operand) ++ [.cast, .typeName unit.valueType]
  | infixed symbol left right =>
    Expr.grouped left.isBinary (tokens scope left) ++ [.space, .operator symbol, .space] ++
      Expr.grouped right.isBinary (tokens scope right)
  | signed symbol operand =>
    .operator symbol :: Expr.grouped operand.isGrouped (tokens scope operand)
  | word name => [.functionName name]
  | function name arguments => Expr.functionCall name (tokensOfEach scope arguments)
  | scalar value _ => value.scalarTokens
  | array first rest =>
    .keyword .array :: .openBracket ::
      (Token.commaSeparated (tokens scope first :: tokensOfEach scope rest) ++ [.closeBracket])
  | emptyArray elementType => arrayTokens [] elementType

/-- The tokens of each of several forms. -/
def tokensOfEach (scope : Scope) : List Form → List (List Token)
  | [] => []
  | form :: rest => tokens scope form :: tokensOfEach scope rest

end

theorem tokensOfEach_eq_map (scope : Scope) (forms : List Form) :
    tokensOfEach scope forms = forms.map (tokens scope) := by
  induction forms with
  | nil => rfl
  | cons form rest ih => rw [tokensOfEach, ih, List.map_cons]

theorem tokens_ofElements (scope : Scope) (elements : List Form) (elementType : ValueType) :
    (ofElements elements elementType).tokens scope =
      arrayTokens (tokensOfEach scope elements) elementType := by
  cases elements with
  | nil => rfl
  | cons first rest => rfl

/-! ### The parts of a form -/

mutual

/-- The form itself, its operands, arguments and elements, those below them and so on. -/
def nodes : Form → List Form
  | column position name => [column position name]
  | wholeSource position => [wholeSource position]
  | negation operand => negation operand :: nodes operand
  | nullTest operand negated => nullTest operand negated :: nodes operand
  | equality left right negated => equality left right negated :: (nodes left ++ nodes right)
  | membership value collection =>
    membership value collection :: (nodes value ++ nodes collection)
  | between value first last =>
    between value first last :: (nodes value ++ nodes first ++ nodes last)
  | bareRange first last => bareRange first last :: (nodes first ++ nodes last)
  | quotient left right => quotient left right :: (nodes left ++ nodes right)
  | truncation unit operand => truncation unit operand :: nodes operand
  | infixed symbol left right => infixed symbol left right :: (nodes left ++ nodes right)
  | signed symbol operand => signed symbol operand :: nodes operand
  | word name => [word name]
  | function name arguments => function name arguments :: nodesOfEach arguments
  | scalar value isScalar => [scalar value isScalar]
  | array first rest => array first rest :: (nodes first ++ nodesOfEach rest)
  | emptyArray elementType => [emptyArray elementType]

/-- The nodes of each of several forms. -/
def nodesOfEach : List Form → List Form
  | [] => []
  | form :: rest => nodes form ++ nodesOfEach rest

end

theorem forall_mem_nodesOfEach {condition : Form → Prop} {forms : List Form} :
    (∀ node ∈ nodesOfEach forms, condition node) ↔
      ∀ form ∈ forms, ∀ node ∈ form.nodes, condition node := by
  induction forms with
  | nil => simp [nodesOfEach]
  | cons form rest ih => rw [nodesOfEach, List.forall_mem_append, ih, List.forall_mem_cons]

theorem mem_nodes_self (form : Form) : form ∈ form.nodes := by
  cases form <;> simp [nodes]

end Form

/-! ### Forms of literals and expressions -/

mutual

/-- The form of a literal. -/
def Literal.form : Literal → Form
  | .array elements elementType => Form.ofElements (Literal.formOfEach elements) elementType
  | .null => .scalar .null rfl
  | .boolean value => .scalar (.boolean value) rfl
  | .text value => .scalar (.text value) rfl
  | .integer value => .scalar (.integer value) rfl
  | .float value => .scalar (.float value) rfl
  | .decimal value => .scalar (.decimal value) rfl
  | .binary bytes => .scalar (.binary bytes) rfl
  | .date value => .scalar (.date value) rfl
  | .time value => .scalar (.time value) rfl
  | .timestamp value => .scalar (.timestamp value) rfl
  | .interval value => .scalar (.interval value) rfl

/-- The forms of each of several literals. -/
def Literal.formOfEach : List Literal → List Form
  | [] => []
  | value :: rest => Literal.form value :: Literal.formOfEach rest

end

theorem Literal.form_of_isScalar {value : Literal} (hscalar : value.isScalar = true) :
    value.form = .scalar value hscalar := by
  cases value <;> first | rfl | simp [Literal.isScalar] at hscalar

theorem Literal.formOfEach_eq_map (values : List Literal) :
    Literal.formOfEach values = values.map Literal.form := by
  induction values with
  | nil => rfl
  | cons value rest ih => rw [Literal.formOfEach, ih, List.map_cons]

/-- The form of a call under a rule, from the forms of its arguments. -/
def CallRule.form : CallRule → List Form → Form
  | between symbol, [left, right] => .infixed symbol left right
  | before symbol, [operand] => .signed symbol operand
  | word name, [] => .word name
  | rule, arguments => .function rule.spelling arguments

mutual

/-- The form of an expression. -/
def Expr.form : Expr → Form
  | .field position name => .column position name
  | .source position => .wholeSource position
  | .not operand => .negation (Expr.form operand)
  | .equals left right negated =>
    if right.isNullLiteral then .nullTest (Expr.form left) negated
    else if left.isNullLiteral then .nullTest (Expr.form right) negated
    else .equality (Expr.form left) (Expr.form right) negated
  | .isIn value (.range first last) =>
    .between (Expr.form value) (Expr.form first) (Expr.form last)
  | .isIn value collection => .membership (Expr.form value) (Expr.form collection)
  | .range first last => .bareRange (Expr.form first) (Expr.form last)
  | .div left right => .quotient (Expr.form left) (Expr.form right)
  | .truncate unit operand => .truncation unit (Expr.form operand)
  | .call name arguments => (callRule name arguments.length).form (Expr.formOfEach arguments)
  | .literal value => value.form
  | .array elements elementType => Form.ofElements (Expr.formOfEach elements) elementType

/-- The forms of each of several expressions. -/
def Expr.formOfEach : List Expr → List Form
  | [] => []
  | expr :: rest => Expr.form expr :: Expr.formOfEach rest

end

theorem Expr.formOfEach_eq_map (exprs : List Expr) :
    Expr.formOfEach exprs = exprs.map Expr.form := by
  induction exprs with
  | nil => rfl
  | cons expr rest ih => rw [Expr.formOfEach, ih, List.map_cons]

/-! ### Grouping of operands is decided by the form -/

theorem Form.isGrouped_ofElements (elements : List Form) (elementType : ValueType) :
    (ofElements elements elementType).isBinary = false ∧
      (ofElements elements elementType).isSigned = false := by
  cases elements <;> exact ⟨rfl, rfl⟩

theorem Literal.isBinary_form (value : Literal) : value.form.isBinary = false := by
  cases value with
  | array elements elementType => exact (Form.isGrouped_ofElements _ _).1
  | _ => rfl

theorem Literal.isSigned_form (value : Literal) : value.form.isSigned = value.isNegative := by
  cases value with
  | array elements elementType => exact (Form.isGrouped_ofElements _ _).2
  | _ => rfl

theorem Expr.isBinary_form (expr : Expr) : expr.form.isBinary = expr.isBinary := by
  cases expr with
  | equals left right negated =>
    rw [Expr.form]
    split
    · rfl
    · split <;> rfl
  | isIn value collection => cases collection <;> rfl
  | call name arguments =>
    rw [Expr.form, Expr.isBinary, Expr.formOfEach_eq_map]
    rcases callRule_cases name arguments with ⟨symbol, left, right, rfl, hrule⟩ |
      ⟨symbol, operand, rfl, hrule⟩ | ⟨bare, rfl, hrule⟩ | ⟨function, hrule⟩ | hrule <;>
    rw [hrule] <;> rfl
  | literal value => exact value.isBinary_form
  | array elements elementType => exact (Form.isGrouped_ofElements _ _).1
  | _ => rfl

theorem Expr.isSigned_form (expr : Expr) : expr.form.isSigned = expr.isSigned := by
  cases expr with
  | equals left right negated =>
    rw [Expr.form]
    split
    · rfl
    · split <;> rfl
  | isIn value collection => cases collection <;> rfl
  | call name arguments =>
    rw [Expr.form, Expr.isSigned, Expr.formOfEach_eq_map]
    rcases callRule_cases name arguments with ⟨symbol, left, right, rfl, hrule⟩ |
      ⟨symbol, operand, rfl, hrule⟩ | ⟨bare, rfl, hrule⟩ | ⟨function, hrule⟩ | hrule <;>
    rw [hrule] <;> rfl
  | literal value => exact value.isSigned_form
  | array elements elementType => exact (Form.isGrouped_ofElements _ _).2
  | _ => rfl

theorem Expr.asOperand_form (expr : Expr) (tokens : List Token) :
    expr.asOperand tokens = Expr.grouped expr.form.isBinary tokens := by
  rw [Expr.asOperand, Expr.isBinary_form]

theorem Expr.asUnaryOperand_form (expr : Expr) (tokens : List Token) :
    expr.asUnaryOperand tokens = Expr.grouped expr.form.isGrouped tokens := by
  rw [Expr.asUnaryOperand, Form.isGrouped, Expr.isBinary_form, Expr.isSigned_form]

/-- A call whose arguments are written as their forms say is written as its own form says. -/
theorem Expr.callTokens_form (scope : Scope) (name : String) (arguments : List Expr) :
    Expr.callTokens name arguments (Form.tokensOfEach scope (Expr.formOfEach arguments)) =
      .ok (((callRule name arguments.length).form (Expr.formOfEach arguments)).tokens scope) := by
  unfold Expr.callTokens
  rcases callRule_cases name arguments with ⟨symbol, left, right, rfl, hrule⟩ |
    ⟨symbol, operand, rfl, hrule⟩ | ⟨bare, rfl, hrule⟩ | ⟨function, hrule⟩ | hrule
  · rw [hrule]
    simp only [Expr.formOfEach, Form.tokensOfEach, CallRule.form, Form.tokens, Expr.asOperand_form]
  · rw [hrule]
    simp only [Expr.formOfEach, Form.tokensOfEach, CallRule.form, Form.tokens,
      Expr.asUnaryOperand_form]
  · rw [hrule]
    rfl
  · rw [hrule]
    rfl
  · rw [hrule]
    rfl

end SqlCompose
