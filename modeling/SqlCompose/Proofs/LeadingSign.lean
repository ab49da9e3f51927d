import SqlCompose.Proofs.StatementText

/-!
Signs at the front of operands. An operand after a sign or before a cast goes between parentheses
when it is an operator between two operands, a sign or a negative number, and the question is what
is left that could begin with a sign. The answer is a call under the name of an operator with a
number of arguments for which the catalog has no entry: it is written as a function, with the
operator for its name. Such a call may also stand before casts, since these come behind it.

`Expr.leadingName?` is the name of that call, and `Expr.leading_sign_iff` shows that nothing else
begins with a sign, that a minus sign in an expression is followed by another one exactly when its
operand is led by the name `-`, and that only then does the text contain a comment.
-/

set_option autoImplicit false
set_option relaxedAutoImplicit false

namespace SqlCompose

open Token

/-! ### Calls outside the catalog -/

/-- The catalog has an entry for the name and the number of arguments. -/
def isListed (name : String) (arity : Nat) : Bool :=
  catalog.any fun entry ↦ entry.name == name && entry.arity == arity

/-- A rule as the catalog has them: no fallback, and functions and bare words go by a word. -/
def CallRule.isCatalogued : CallRule → Bool
  | between _ => true
  | before _ => true
  | function name => Lexeme.isWord name.toList
  | word name => Lexeme.isWord name.toList
  | fallback _ => false

theorem isCatalogued_of_mem {entry : CatalogEntry} (hmem : entry ∈ catalog) :
    entry.rule.isCatalogued = true := by
  have hall : ∀ entry ∈ catalog, entry.rule.isCatalogued = true := by decide
  exact hall entry hmem

/-- A call follows a rule of the catalog exactly when it is listed there. -/
theorem isCatalogued_callRule (name : String) (arity : Nat) :
    (callRule name arity).isCatalogued = isListed name arity := by
  unfold callRule isListed
  cases hfind : catalog.find? fun entry ↦ entry.name == name && entry.arity == arity with
  | none =>
    rw [CallRule.isCatalogued, eq_comm, List.any_eq_false]
    exact List.find?_eq_none.mp hfind
  | some entry =>
    have hmatch := List.find?_some hfind
    rw [isCatalogued_of_mem (List.mem_of_find?_eq_some hfind), eq_comm, List.any_eq_true]
    exact ⟨entry, List.mem_of_find?_eq_some hfind, hmatch⟩

/-- A function of the catalog and a bare word are words. -/
theorem isWord_of_callRule {name : String} {arity : Nat} {written : String}
    (hrule : callRule name arity = .function written ∨ callRule name arity = .word written) :
    Lexeme.isWord written.toList = true := by
  rcases callRule_eq_fallback_or_mem name arity with hfallback | ⟨entry, hmem, -, -, hentry⟩
  · rw [hfallback] at hrule
    rcases hrule with hrule | hrule <;> cases hrule
  · have hcatalogued := isCatalogued_of_mem hmem
    rw [← hentry] at hcatalogued
    rcases hrule with hrule | hrule <;> rwa [hrule] at hcatalogued

/-- The signs are called by the symbols themselves. -/
theorem callRule_eq_before_iff {name sign : String} (hsign : sign = "-" ∨ sign = "+") :
    callRule name 1 = .before sign ↔ name = sign := by
  constructor
  · intro hrule
    have hall : ∀ entry ∈ catalog, entry.rule.isBefore = true →
        entry.rule = .before entry.name := by decide
    rcases callRule_eq_fallback_or_mem name 1 with hfallback | ⟨entry, hmem, hname, -, hentry⟩
    · rw [hfallback] at hrule
      cases hrule
    · rw [hentry] at hrule
      have hsame := hall entry hmem (by rw [hrule]; rfl)
      rw [hrule, hname] at hsame
      exact (CallRule.before.inj hsame).symm
  · rintro rfl
    rcases hsign with rfl | rfl <;> decide

/-! ### The first token of an operand -/

namespace Expr

/-- The name with which an expression is written first: that of a call without entry in the catalog,
also when casts follow it. -/
def leadingName? : Expr → Option String
  | call name arguments => if isListed name arguments.length then none else some name
  | truncate _ operand => operand.leadingName?
  | _ => none

theorem leadingName?_call_eq_some_iff {caller name : String} {arguments : List Expr} :
    (call caller arguments).leadingName? = some name ↔
      callRule caller arguments.length = .fallback name := by
  rw [leadingName?, ← isCatalogued_callRule]
  rcases callRule_eq_fallback_or_mem caller arguments.length with hrule | ⟨entry, hmem, -, -, hrule⟩
  · simp [hrule, CallRule.isCatalogued]
  · have hcatalogued := isCatalogued_of_mem hmem
    have hne : entry.rule ≠ .fallback name := by
      intro hfallback
      rw [hfallback] at hcatalogued
      cases hcatalogued
    simp [hrule, hcatalogued, hne]

theorem head?_grouped_eq_iff {group : Bool} {tokens : List Token} {name : String} :
    (grouped group tokens).head? = some (.functionName name) ↔
      group = false ∧ tokens.head? = some (.functionName name) := by
  cases group <;> simp [grouped, parenthesized]

theorem head?_arrayTokens_ne (elements : List (List Token)) (elementType : ValueType)
    (name : String) : (arrayTokens elements elementType).head? ≠ some (.functionName name) := by
  unfold arrayTokens
  split <;> simp

section Symbol

variable {name : String} (hsymbol : Lexeme.isSymbol name.toList = true)

include hsymbol

theorem ne_of_isSymbol {written : String} (hwritten : Lexeme.isWord written.toList = true) :
    written ≠ name := by
  rintro rfl
  rw [Lexeme.isWord_of_isSymbol hsymbol] at hwritten
  cases hwritten

theorem head?_sourceTokens_ne (source : Source) (shortName : String) :
    (sourceTokens source shortName).head? ≠ some (.functionName name) := by
  intro hhead
  have hsign : "-" = "-" ∨ "-" = "+" := Or.inl rfl
  exact not_apart_sign_symbol hsign hsymbol (apart_sign_source hsign hhead)

/-- Only a call outside the catalog begins with a symbol and has no parentheses around it: those
under a sign or an operator have them, and the functions of the catalog go by words. -/
theorem head?_grouped_call_iff (scope : Scope) (caller : String) (arguments : List Expr) :
    (grouped (call caller arguments).form.isGrouped
        ((call caller arguments).form.tokens scope)).head? = some (.functionName name) ↔
      (call caller arguments).leadingName? = some name := by
  rw [head?_grouped_eq_iff, form, formOfEach_eq_map, leadingName?_call_eq_some_iff]
  rcases callRule_cases caller arguments with ⟨symbol, left, right, rfl, hrule⟩ |
    ⟨symbol, operand, rfl, hrule⟩ | ⟨bare, rfl, hrule⟩ | ⟨function, hrule⟩ | hrule
  · rw [hrule]
    simp [CallRule.form, Form.isGrouped, Form.isBinary]
  · rw [hrule]
    simp [CallRule.form, Form.isGrouped, Form.isSigned]
  · have hbare := ne_of_isSymbol hsymbol (isWord_of_callRule (Or.inr hrule))
    rw [hrule]
    simp [CallRule.form, Form.tokens, hbare]
  · have hfunction := ne_of_isSymbol hsymbol (isWord_of_callRule (Or.inl hrule))
    rw [hrule]
    simp [CallRule.form, Form.tokens, functionCall, CallRule.spelling, hfunction]
  · rw [hrule]
    simp [CallRule.form, Form.isGrouped, Form.isBinary, Form.isSigned, Form.tokens, functionCall,
      CallRule.spelling]

/-- The first token of an operand after a sign or before a cast is a function with a symbol for its
name exactly when the symbol is the leading name. -/
theorem head?_grouped_form_iff (scope : Scope) (expr : Expr) :
    (grouped expr.form.isGrouped (expr.form.tokens scope)).head? = some (.functionName name) ↔
      expr.leadingName? = some name := by
  have hnone {other : Expr} (hname : other.leadingName? = none)
      (hhead : other.isBinary = true ∨
        (other.form.tokens scope).head? ≠ some (.functionName name)) :
      (grouped other.form.isGrouped (other.form.tokens scope)).head? = some (.functionName name) ↔
        other.leadingName? = some name := by
    rw [head?_grouped_eq_iff, hname, Form.isGrouped, isBinary_form]
    rcases hhead with hbinary | hhead
    · simp [hbinary]
    · simp [hhead]
  induction expr using Expr.induction with
  | field position field => exact hnone rfl (Or.inr (by simp [form, Form.tokens, columnTokens]))
  | source position =>
    refine hnone rfl (Or.inr ?_)
    rw [form, Form.tokens]
    split
    · exact head?_sourceTokens_ne hsymbol _ _
    · simp
  | not operand ih => exact hnone rfl (Or.inr (by simp [form, Form.tokens]))
  | equals left right negated => exact hnone rfl (Or.inl rfl)
  | between value first last => exact hnone rfl (Or.inl rfl)
  | isIn value collection => exact hnone rfl (Or.inl rfl)
  | range first last => exact hnone rfl (Or.inr (by simp [form, Form.tokens]))
  | div left right => exact hnone rfl (Or.inl rfl)
  | truncate unit operand ih =>
    refine Iff.trans ?_ ih
    change (Form.tokens scope (.truncation unit operand.form)).head? = _ ↔ _
    rw [Form.tokens]
    cases grouped operand.form.isGrouped (operand.form.tokens scope) with
    | nil => simp
    | cons first rest => rfl
  | call caller arguments => exact head?_grouped_call_iff hsymbol scope caller arguments
  | literal value =>
    refine hnone rfl (Or.inr ?_)
    rw [form]
    cases value with
    | array elements elementType =>
      rw [Literal.form, Form.tokens_ofElements]
      exact head?_arrayTokens_ne _ _ _
    | _ => simp [Literal.form, Form.tokens, Literal.scalarTokens]
  | array elements elementType =>
    refine hnone rfl (Or.inr ?_)
    rw [form, Form.tokens_ofElements]
    exact head?_arrayTokens_ne _ _ _

end Symbol

end Expr

/-! ### A sign directly before a name -/

/-- Two neighbours in a list stand on the same side of any other element. -/
theorem pair_infix_append_cons {α : Type} {first second separator : α} (hfirst : first ≠ separator)
    (hsecond : second ≠ separator) {before after : List α} :
    [first, second] <:+: before ++ separator :: after ↔
      [first, second] <:+: before ∨ [first, second] <:+: after := by
  induction before with
  | nil => simp [List.infix_cons_iff, hfirst]
  | cons item before ih =>
    rw [List.cons_append, List.infix_cons_iff, ih, List.infix_cons_iff, or_assoc]
    refine or_congr_left ?_
    cases before <;> simp [hsecond]

namespace Token

/-- The sign stands directly before a function of the given name. -/
def Joins (sign name : String) (tokens : List Token) : Prop :=
  [.operator sign, .functionName name] <:+: tokens

/-- Neither a sign nor the name of a function. -/
@[reducible]
def isNeutral : Token → Bool
  | .operator _ | .functionName _ => false
  | _ => true

variable {sign name : String}

theorem joins_append {token : Token} (hneutral : token.isNeutral = true)
    {before after : List Token} :
    Joins sign name (before ++ token :: after) ↔
      Joins sign name before ∨ Joins sign name after := by
  refine pair_infix_append_cons ?_ ?_ <;> rintro rfl <;> cases hneutral

@[simp]
theorem not_joins_nil : ¬ Joins sign name [] := by
  simp [Joins]

@[simp]
theorem not_joins_singleton (token : Token) : ¬ Joins sign name [token] := by
  simp [Joins, List.infix_cons_iff]

theorem joins_cons {token : Token} (hneutral : token.isNeutral = true) {after : List Token} :
    Joins sign name (token :: after) ↔ Joins sign name after := by
  rw [← List.nil_append (token :: after), joins_append hneutral]
  simp

theorem joins_cons_cons {token next : Token} (hneutral : next.isNeutral = true)
    {after : List Token} :
    Joins sign name (token :: next :: after) ↔ Joins sign name after := by
  rw [← List.singleton_append, joins_append hneutral]
  simp

theorem joins_parenthesized {tokens : List Token} :
    Joins sign name (parenthesized tokens) ↔ Joins sign name tokens := by
  rw [parenthesized, joins_cons rfl, joins_append rfl]
  simp

theorem joins_grouped {group : Bool} {tokens : List Token} :
    Joins sign name (Expr.grouped group tokens) ↔ Joins sign name tokens := by
  cases group
  · rfl
  · exact joins_parenthesized

theorem joins_commaSeparated {items : List (List Token)} :
    Joins sign name (commaSeparated items) ↔ ∃ item ∈ items, Joins sign name item := by
  unfold commaSeparated
  induction items with
  | nil => simp [separatedBy]
  | cons item rest ih =>
    cases rest with
    | nil => simp [separatedBy]
    | cons next rest =>
      rw [separatedBy, List.append_assoc, List.cons_append, joins_append rfl, List.singleton_append,
        joins_cons rfl, ih]
      simp

theorem joins_arrayTokens {elements : List (List Token)} {elementType : ValueType} :
    Joins sign name (arrayTokens elements elementType) ↔
      ∃ element ∈ elements, Joins sign name element := by
  unfold arrayTokens
  split <;>
    simp (disch := rfl) [joins_cons, joins_append, joins_commaSeparated]

theorem joins_nullTest {operand : List Token} {negated : Bool} :
    Joins sign name (Expr.nullTest operand negated) ↔ Joins sign name operand := by
  cases negated <;> simp (disch := rfl) [Expr.nullTest, joins_append, joins_cons]

theorem not_joins_sourceTokens (source : Source) (shortName : String) :
    ¬ Joins sign name (sourceTokens source shortName) := by
  unfold sourceTokens
  split
  · simp (disch := rfl) [joins_cons]
  · rw [joins_commaSeparated]
    simp (disch := rfl) [columnTokens, joins_cons]

theorem joins_cons_iff {token : Token} {after : List Token} :
    Joins sign name (token :: after) ↔
      (token = .operator sign ∧ after.head? = some (.functionName name)) ∨
        Joins sign name after := by
  rw [Joins, List.infix_cons_iff, List.cons_prefix_cons, Joins]
  refine or_congr_left ?_
  cases after <;> simp [eq_comm]

end Token

/-- A literal has no signs apart from those of its numbers. -/
theorem Literal.not_joins_form {sign name : String} (scope : Scope) (value : Literal) :
    ¬ Joins sign name (value.form.tokens scope) := by
  induction value using Literal.induction with
  | scalar value hscalar =>
    rw [form_of_isScalar hscalar, Form.tokens]
    cases value <;> simp (disch := rfl) [scalarTokens, joins_cons]
  | array elements elementType ih =>
    rw [form, Form.tokens_ofElements, joins_arrayTokens, Form.tokensOfEach_eq_map,
      formOfEach_eq_map]
    simpa using ih

namespace Expr

variable {sign name : String}

/-- A sign joins the leading name of its operand, and all other calls join only what their arguments
do. -/
theorem joins_callForm (scope : Scope) (hsign : sign = "-" ∨ sign = "+") (caller : String)
    (arguments : List Form) :
    Joins sign name (((callRule caller arguments.length).form arguments).tokens scope) ↔
      (∃ operand, caller = sign ∧ arguments = [operand] ∧
        (grouped operand.isGrouped (operand.tokens scope)).head? = some (.functionName name)) ∨
      ∃ argument ∈ arguments, Joins sign name (argument.tokens scope) := by
  have hfunction (function : String) (hne : callRule caller arguments.length ≠ .before sign) :
      Joins sign name ((Form.function function arguments).tokens scope) ↔
        (∃ operand, caller = sign ∧ arguments = [operand] ∧
          (grouped operand.isGrouped (operand.tokens scope)).head? = some (.functionName name)) ∨
        ∃ argument ∈ arguments, Joins sign name (argument.tokens scope) := by
    rw [Form.tokens, functionCall, parenthesized, joins_cons_cons rfl, joins_append rfl,
      joins_commaSeparated, Form.tokensOfEach_eq_map, or_iff_left not_joins_nil, or_iff_right]
    · simp
    · rintro ⟨operand, rfl, rfl, -⟩
      exact hne ((callRule_eq_before_iff hsign).mpr rfl)
  rcases callRule_cases caller arguments with ⟨symbol, left, right, rfl, hrule⟩ |
    ⟨symbol, operand, rfl, hrule⟩ | ⟨bare, rfl, hrule⟩ | ⟨function, hrule⟩ | hrule
  · rw [hrule]
    simp (disch := rfl) [CallRule.form, Form.tokens, joins_append, joins_cons_cons, joins_grouped]
  · have hsymbol : symbol = sign ↔ caller = sign := by
      have hcaller : callRule caller 1 = .before sign ↔ caller = sign :=
        callRule_eq_before_iff hsign
      have hone : callRule caller 1 = .before symbol := hrule
      rwa [hone, CallRule.before.injEq] at hcaller
    rw [hrule]
    simp [CallRule.form, Form.tokens, joins_cons_iff, joins_grouped, hsymbol]
  · rw [hrule]
    simp [CallRule.form, Form.tokens]
  · rw [hrule]
    exact hfunction function (by simp [hrule])
  · rw [hrule]
    exact hfunction caller (by simp [hrule])

/-- Somewhere in the expression the sign has an operand with the given leading name. -/
def PutsBefore (sign name : String) (expr : Expr) : Prop :=
  ∃ operand, call sign [operand] ∈ expr.nodes ∧ operand.leadingName? = some name

theorem exists_putsBefore {exprs : List Expr} :
    (∃ expr ∈ exprs, expr.PutsBefore sign name) ↔
      ∃ operand, call sign [operand] ∈ nodesOfEach exprs ∧ operand.leadingName? = some name := by
  simp only [PutsBefore, mem_nodesOfEach]
  constructor
  · rintro ⟨expr, hexpr, operand, hnode, hleading⟩
    exact ⟨operand, ⟨expr, hexpr, hnode⟩, hleading⟩
  · rintro ⟨operand, ⟨expr, hexpr, hnode⟩, hleading⟩
    exact ⟨expr, hexpr, operand, hnode, hleading⟩

theorem putsBefore_call {caller : String} {arguments : List Expr} :
    (call caller arguments).PutsBefore sign name ↔
      (∃ operand, caller = sign ∧ arguments = [operand] ∧ operand.leadingName? = some name) ∨
        ∃ argument ∈ arguments, argument.PutsBefore sign name := by
  rw [exists_putsBefore]
  simp [PutsBefore, nodes, or_and_right, exists_or, eq_comm, and_assoc]

theorem putsBefore_array {elements : List Expr} {elementType : ValueType} :
    (array elements elementType).PutsBefore sign name ↔
      ∃ element ∈ elements, element.PutsBefore sign name := by
  rw [exists_putsBefore]
  simp [PutsBefore, nodes]

/-- The tokens of an expression join a sign and a symbol exactly when the expression puts the sign
before an operand that the symbol leads. -/
theorem joins_form_iff (scope : Scope) (hsign : sign = "-" ∨ sign = "+")
    (hsymbol : Lexeme.isSymbol name.toList = true) {expr : Expr}
    (hranges : expr.rangesInPlace = true) :
    Joins sign name (expr.form.tokens scope) ↔ expr.PutsBefore sign name := by
  induction expr using Expr.induction with
  | field position field =>
    simp (disch := rfl) [form, Form.tokens, columnTokens, joins_cons, PutsBefore, nodes]
  | source position =>
    have hnone : ¬ Joins sign name ((source position).form.tokens scope) := by
      rw [form, Form.tokens]
      split
      · exact not_joins_sourceTokens _ _
      · exact not_joins_nil
    simp [hnone, PutsBefore, nodes]
  | not operand ih =>
    rw [form, Form.tokens, joins_cons rfl, joins_cons rfl, joins_parenthesized, ih hranges]
    simp [PutsBefore, nodes]
  | equals left right negated ihleft ihright =>
    rw [rangesInPlace, Bool.and_eq_true] at hranges
    have hputs : (equals left right negated).PutsBefore sign name ↔
        left.PutsBefore sign name ∨ right.PutsBefore sign name := by
      simp [PutsBefore, nodes, or_and_right, exists_or]
    rw [form, hputs, ← ihleft hranges.1, ← ihright hranges.2]
    split_ifs with hright hleft
    · rw [eq_null_of_isNullLiteral hright, Form.tokens, joins_nullTest, joins_grouped, form,
        or_iff_left (Literal.not_joins_form _ _)]
    · rw [eq_null_of_isNullLiteral hleft, Form.tokens, joins_nullTest, joins_grouped, form,
        or_iff_right (Literal.not_joins_form _ _)]
    · rw [Form.tokens, equalityTest]
      cases negated <;> simp (disch := rfl) [joins_append, joins_cons, joins_grouped]
  | between value first last ihvalue ihfirst ihlast =>
    simp only [rangesInPlace, Bool.and_eq_true] at hranges
    rw [form, Form.tokens, betweenTest]
    simp (disch := rfl) [joins_append, joins_cons, joins_grouped, ihvalue hranges.1,
      ihfirst hranges.2.1, ihlast hranges.2.2, PutsBefore, nodes, or_and_right, exists_or]
  | isIn value collection hrange ihvalue ihcollection =>
    rw [rangesInPlace, Bool.and_eq_true] at hranges
    · rw [form, Form.tokens, anyTest]
      · simp (disch := rfl) [joins_append, joins_cons, joins_grouped, joins_parenthesized,
          ihvalue hranges.1, ihcollection hranges.2, PutsBefore, nodes, or_and_right, exists_or]
      · exact fun first last heq ↦ hrange first last heq
    · exact fun first last heq ↦ hrange first last heq
  | range first last ihfirst ihlast => cases hranges
  | div left right ihleft ihright =>
    rw [rangesInPlace, Bool.and_eq_true] at hranges
    rw [form, Form.tokens, quotient]
    simp (disch := rfl) [joins_append, joins_cons, joins_grouped, ihleft hranges.1,
      ihright hranges.2, PutsBefore, nodes, or_and_right, exists_or]
  | truncate unit operand ih =>
    rw [form, Form.tokens, joins_append rfl, joins_grouped, ih hranges]
    simp [PutsBefore, nodes]
  | call caller arguments ih =>
    rw [rangesInPlace, rangesInPlaceInEach_iff] at hranges
    have hlength : arguments.length = (formOfEach arguments).length := by
      rw [formOfEach_eq_map, List.length_map]
    rw [form, hlength, joins_callForm scope hsign, putsBefore_call, formOfEach_eq_map]
    simp only [List.mem_map, exists_exists_and_eq_and]
    refine or_congr ?_ (exists_congr fun argument ↦ and_congr_right fun hmem ↦
      ih argument hmem (hranges argument hmem))
    constructor
    · rintro ⟨operandForm, rfl, hmap, hhead⟩
      obtain ⟨operand, rfl, rfl⟩ := List.map_eq_singleton_iff.mp hmap
      exact ⟨operand, rfl, rfl, (head?_grouped_form_iff hsymbol scope operand).mp hhead⟩
    · rintro ⟨operand, rfl, rfl, hleading⟩
      exact ⟨operand.form, rfl, rfl, (head?_grouped_form_iff hsymbol scope operand).mpr hleading⟩
  | literal value =>
    simp [form, value.not_joins_form, PutsBefore, nodes]
  | array elements elementType ih =>
    rw [rangesInPlace, rangesInPlaceInEach_iff] at hranges
    rw [form, Form.tokens_ofElements, joins_arrayTokens, Form.tokensOfEach_eq_map,
      formOfEach_eq_map, List.map_map, putsBefore_array]
    simp only [List.mem_map, exists_exists_and_eq_and]
    exact exists_congr fun element ↦ and_congr_right fun hmem ↦
      ih element hmem (hranges element hmem)

end Expr

/-! ### The first character behind a sign -/

/-- An operator character directly behind a sign is the first one of a function's symbol. -/
theorem head?_render_eq_some_iff {sign : String} (hsign : sign = "-" ∨ sign = "+")
    {after : List Token} (hmeets : ∀ next ∈ after.head?, (operator sign).Meets True next)
    {c : Char} (hc : Lexeme.isOperatorChar c = true) :
    (Dialect.postgres.render after).toList.head? = some c ↔
      ∃ name, after.head? = some (.functionName name) ∧ Lexeme.isSymbol name.toList = true ∧
        name.toList.head? = some c := by
  cases after with
  | nil => simp [Dialect.render]
  | cons next rest =>
    rw [Dialect.toList_render_cons]
    rcases hmeets next rfl with happart | ⟨-, hcollides⟩
    · refine iff_of_false ?_ ?_
      · obtain ⟨d, tail, hspell, htakes⟩ := happart
        rw [hspell]
        intro hhead
        cases hhead
        rw [takesIn_sign hsign, hc] at htakes
        cases htakes
      · rintro ⟨name, hhead, hsymbol, -⟩
        cases hhead
        exact not_apart_sign_symbol hsign hsymbol happart
    · obtain ⟨symbol, name, -, rfl, -, hsymbol⟩ := hcollides.exists_eq
      obtain ⟨d, tail, hname, -, -, -⟩ := Lexeme.exists_cons_of_isSymbol hsymbol
      rw [hname] at hsymbol
      simp [Dialect.spell, hname, hsymbol]

/-- The text of an operand after a sign or before a cast begins with an operator character exactly
when its leading name is a symbol that does. -/
theorem Expr.head?_render_asUnaryOperand {scope : Scope} {depth : Nat} {expr : Expr}
    {tokens : List Token} (htokens : expr.tokensBelow scope depth = .ok tokens)
    (hnames : expr.CallsByName) {c : Char} (hc : Lexeme.isOperatorChar c = true) :
    (Dialect.postgres.render (expr.asUnaryOperand tokens)).toList.head? = some c ↔
      ∃ name, expr.leadingName? = some name ∧ Lexeme.isSymbol name.toList = true ∧
        name.toList.head? = some c := by
  obtain ⟨rfl, hcomposable⟩ := (settles_tokensBelow scope expr depth).eq_of_ok htokens
  have hsign : "-" = "-" ∨ "-" = "+" := Or.inl rfl
  have hmeets : ∀ next ∈ (grouped expr.form.isGrouped (expr.form.tokens scope)).head?,
      (operator "-").Meets True next := by
    cases hgrouped : expr.form.isGrouped with
    | true =>
      intro next hnext
      cases hnext
      exact Or.inl (apart_of_isSeparator _ rfl)
    | false =>
      have hwritable := expr.isWritable_form hcomposable hnames
      exact (meets_sign_iff hsign scope expr.form hgrouped hwritable).mpr (Or.inl trivial)
  rw [asUnaryOperand_form, head?_render_eq_some_iff hsign hmeets hc]
  constructor
  · rintro ⟨name, hhead, hsymbol, hfirst⟩
    exact ⟨name, (head?_grouped_form_iff hsymbol scope expr).mp hhead, hsymbol, hfirst⟩
  · rintro ⟨name, hleading, hsymbol, hfirst⟩
    exact ⟨name, (head?_grouped_form_iff hsymbol scope expr).mpr hleading, hsymbol, hfirst⟩

/-- In legible tokens, a minus sign directly behind another one is the first character of a function
that the other one joins. -/
theorem exists_joins_iff {tokens : List Token} (hlegible : Legible True tokens) :
    (∃ before after, tokens = before ++ .operator "-" :: after ∧
        (Dialect.postgres.render after).toList.head? = some '-') ↔
      ∃ name, Joins "-" name tokens ∧ Lexeme.isSymbol name.toList = true ∧
        name.toList.head? = some '-' := by
  have hmeets {before after : List Token} (hsplit : tokens = before ++ .operator "-" :: after) :
      ∀ next ∈ after.head?, (operator "-").Meets True next := by
    have hchain := hlegible.2
    rw [hsplit, List.isChain_append, List.isChain_cons] at hchain
    exact hchain.2.1.1
  constructor
  · rintro ⟨before, after, hsplit, hhead⟩
    obtain ⟨name, hname, hsymbol, hfirst⟩ :=
      (head?_render_eq_some_iff (Or.inl rfl) (hmeets hsplit) (by decide)).mp hhead
    obtain ⟨rest, rfl⟩ := List.head?_eq_some_iff.mp hname
    exact ⟨name, ⟨before, rest, by simp [hsplit]⟩, hsymbol, hfirst⟩
  · rintro ⟨name, ⟨before, rest, hsplit⟩, hsymbol, hfirst⟩
    have hsplit' : tokens = before ++ .operator "-" :: .functionName name :: rest := by
      simp [← hsplit]
    refine ⟨before, .functionName name :: rest, hsplit', ?_⟩
    exact (head?_render_eq_some_iff (Or.inl rfl) (hmeets hsplit') (by decide)).mpr
      ⟨name, rfl, hsymbol, hfirst⟩

/-! ### Comments -/

theorem Lexeme.isSymbol_cons {c : Char} {text : List Char} (hc : isOperatorChar c = true)
    (hopens : opensComment (c :: text) = false) (htext : isSymbol text = true) :
    isSymbol (c :: text) = true := by
  obtain ⟨d, tail, -, -, -, hscanned⟩ := exists_cons_of_isSymbol htext
  simp [isSymbol, scanOperator, hc, hopens, hscanned]

theorem Lexeme.head?_lexemes_minus_minus (rest : List Char) :
    (lexemes ('-' :: '-' :: rest)).head? =
      some (.comment ('-' :: '-' :: rest.takeWhile (· != '\n'))) := by
  have hscan : scan '-' ('-' :: rest) = (.comment ('-' :: '-' :: rest.takeWhile (· != '\n')),
      rest.dropWhile (· != '\n')) := rfl
  rw [lexemes_of_scan rfl hscan, List.head?_cons]

/-- A sign and the symbol behind it are one operator, unless both begin with a minus sign. -/
theorem lexemes_sign_symbol_append {sign : String} (hsign : sign = "-" ∨ sign = "+")
    {symbol rest : List Char} (hsymbol : Lexeme.isSymbol symbol = true)
    (hrest : Stops Lexeme.isOperatorChar rest)
    (hfirst : ¬ (sign = "-" ∧ symbol.head? = some '-')) :
    lexemes (sign.toList ++ (symbol ++ rest)) =
      .operator (sign.toList ++ symbol) :: lexemes rest := by
  have hjoined : Lexeme.isSymbol (sign.toList ++ symbol) = true := by
    rcases hsign with rfl | rfl
    · have hopens : Lexeme.opensComment ('-' :: symbol) = false := by
        cases symbol with
        | nil => rfl
        | cons c tail =>
          have hc : c ≠ '-' := fun heq ↦ hfirst ⟨rfl, by rw [heq, List.head?_cons]⟩
          simp [Lexeme.opensComment, hc]
      exact Lexeme.isSymbol_cons rfl hopens hsymbol
    · exact Lexeme.isSymbol_cons rfl rfl hsymbol
  rw [← List.append_assoc]
  exact Lexeme.lexemes_symbol_append hjoined hrest

theorem comment_mem_lexemes_render_cons {token : Token} {rest : List Token}
    (hlexical : token.IsLexical) (hnext : ∀ next ∈ rest.head?, token.Apart next) :
    (∃ content, .comment content ∈ lexemes (Dialect.postgres.render (token :: rest)).toList) ↔
      ∃ content, .comment content ∈ lexemes (Dialect.postgres.render rest).toList := by
  rw [lexemes_render_cons hlexical hnext]
  simp only [List.mem_append, Token.comment_not_mem_lexemes hlexical, false_or]

/-- A sign before a function whose name is a symbol opens a comment if both begin with a minus sign,
and otherwise leaves the comments behind them as they are. -/
theorem comment_mem_lexemes_render_sign {sign name : String} (hsign : sign = "-" ∨ sign = "+")
    (hsymbol : Lexeme.isSymbol name.toList = true) {after : List Token}
    (hafter : ∀ next ∈ after.head?, (functionName name).Apart next) :
    (∃ content, .comment content ∈ lexemes
        (Dialect.postgres.render (.operator sign :: .functionName name :: after)).toList) ↔
      (sign = "-" ∧ name.toList.head? = some '-') ∨
        ∃ content, .comment content ∈ lexemes (Dialect.postgres.render after).toList := by
  rw [Dialect.toList_render_cons, Dialect.toList_render_cons]
  by_cases hdouble : sign = "-" ∧ name.toList.head? = some '-'
  · refine iff_of_true ?_ (Or.inl hdouble)
    obtain ⟨rfl, hfirst⟩ := hdouble
    obtain ⟨tail, htail⟩ := List.head?_eq_some_iff.mp hfirst
    simp only [Dialect.spell, htail]
    exact ⟨_, List.mem_of_mem_head? (Lexeme.head?_lexemes_minus_minus _)⟩
  · have hstops := stops_render_symbol hsymbol hafter
    rw [or_iff_right hdouble]
    simp only [Dialect.spell, lexemes_sign_symbol_append hsign hsymbol hstops hdouble,
      List.mem_cons, reduceCtorEq, false_or]

/-- Legible tokens are read with a comment exactly when a minus sign joins a function whose name
begins with a minus sign. -/
theorem comment_mem_lexemes_render_iff {tokens : List Token} (hlegible : Legible True tokens) :
    (∃ content, .comment content ∈ lexemes (Dialect.postgres.render tokens).toList) ↔
      ∃ name, Joins "-" name tokens ∧ Lexeme.isSymbol name.toList = true ∧
        name.toList.head? = some '-' := by
  induction tokens with
  | nil => simp [Dialect.render, lexemes]
  | cons token rest ih =>
    obtain ⟨hlexical, -, hrest⟩ := legible_cons.mp hlegible
    by_cases hapart : ∀ next ∈ rest.head?, token.Apart next
    · rw [comment_mem_lexemes_render_cons hlexical hapart, ih hrest]
      refine exists_congr fun name ↦ and_congr_left fun hname ↦ ?_
      rw [joins_cons_iff, or_iff_right]
      rintro ⟨rfl, hhead⟩
      exact not_apart_sign_symbol (Or.inl rfl) hname.1 (hapart _ hhead)
    · obtain ⟨second, after, rfl, hcollides, hafter⟩ := hlegible.exists_collides hapart
      obtain ⟨sign, name, rfl, rfl, hsign, hsymbol⟩ := hcollides.exists_eq
      rw [comment_mem_lexemes_render_sign hsign hsymbol hafter,
        ← comment_mem_lexemes_render_cons (legible_cons.mp hrest).1 hafter, ih hrest]
      constructor
      · rintro (⟨rfl, hfirst⟩ | ⟨other, hjoins, hother⟩)
        · exact ⟨name, joins_cons_iff.mpr (Or.inl ⟨rfl, rfl⟩), hsymbol, hfirst⟩
        · exact ⟨other, joins_cons_iff.mpr (Or.inr hjoins), hother⟩
      · rintro ⟨other, hjoins, hother⟩
        rcases joins_cons_iff.mp hjoins with ⟨hoperator, hhead⟩ | hjoins
        · cases hoperator
          cases hhead
          exact Or.inl ⟨rfl, hother.2⟩
        · exact Or.inr ⟨other, hjoins, hother⟩

/-! ### Names that begin with a sign -/

/-- Among the names of calls three begin with a sign. -/
theorem head?_eq_sign_iff {name : String} (hname : IsCallName name) :
    (name.toList.head? = some '-' ↔ name = "-") ∧
      (name.toList.head? = some '+' ↔ name = "+" ∨ name = "++") := by
  rcases hname with ⟨entry, hmem, rfl⟩ | hplain
  · have hall : ∀ entry ∈ catalog, (entry.name.toList.head? = some '-' ↔ entry.name = "-") ∧
        (entry.name.toList.head? = some '+' ↔ entry.name = "+" ∨ entry.name = "++") := by decide
    exact hall entry hmem
  · have hhead {c : Char} (hc : Lexeme.startsWord c = false) : name.toList.head? ≠ some c := by
      intro hfirst
      obtain ⟨rest, hcons⟩ := List.head?_eq_some_iff.mp hfirst
      rw [IsPlainName, hcons, Lexeme.isWord, hc] at hplain
      cases hplain
    have hne {symbol : String} (hsymbol : Lexeme.isWord symbol.toList = false) :
        name ≠ symbol := by
      rintro rfl
      rw [IsPlainName, hsymbol] at hplain
      cases hplain
    exact ⟨iff_of_false (hhead rfl) (hne rfl),
      iff_of_false (hhead rfl) (not_or.mpr ⟨hne rfl, hne rfl⟩)⟩

theorem Expr.isCallName_of_leadingName? {expr : Expr} {name : String} (hnames : expr.CallsByName)
    (hleading : expr.leadingName? = some name) : IsCallName name := by
  fun_induction leadingName? expr with
  | case1 caller arguments hlisted => cases hleading
  | case2 caller arguments hlisted =>
    cases hleading
    exact hnames (call name arguments) (by simp [nodes])
  | case3 unit operand ih =>
    exact ih (fun node hnode ↦ hnames node (List.mem_cons_of_mem _ hnode)) hleading
  | case4 expr hcall htruncate => cases hleading

/-! ### Main result -/

/-- A minus sign joins a name that begins with one exactly when it is put before an operand that the
name `-` leads. -/
theorem Expr.exists_joins_tokensBelow {scope : Scope} {depth : Nat} {expr : Expr}
    {tokens : List Token} (hnames : expr.CallsByName)
    (htokens : expr.tokensBelow scope depth = .ok tokens) :
    (∃ name, Joins "-" name tokens ∧ Lexeme.isSymbol name.toList = true ∧
        name.toList.head? = some '-') ↔ expr.PutsBefore "-" "-" := by
  obtain ⟨rfl, -, -, -, hranges⟩ := (settles_tokensBelow scope expr depth).eq_of_ok htokens
  constructor
  · rintro ⟨name, hjoins, hsymbol, hfirst⟩
    obtain ⟨operand, hnode, hleading⟩ :=
      (joins_form_iff scope (Or.inl rfl) hsymbol hranges).mp hjoins
    have hbelow : operand.CallsByName := fun inner hinner ↦
      hnames inner (nodes_subset hnode (by simp [nodes, nodesOfEach, hinner]))
    have hname : name = "-" :=
      (head?_eq_sign_iff (isCallName_of_leadingName? hbelow hleading)).1.mp hfirst
    exact ⟨operand, hnode, hname ▸ hleading⟩
  · intro hputs
    exact ⟨"-", (joins_form_iff scope (Or.inl rfl) rfl hranges).mpr hputs, rfl, rfl⟩

/-- The text of an operand after a sign or before a cast begins with a sign exactly when a call
without entry in the catalog leads it whose name does: `-` for a minus sign, `+` or `++` for a plus
sign. In an expression a minus sign is directly followed by another one, and the text contains a
comment, exactly when a minus sign is put before an operand that the name `-` leads. -/
theorem Expr.leading_sign_iff {scope : Scope} {depth : Nat} {expr : Expr} {tokens : List Token}
    (hnames : expr.CallsByName) (htokens : expr.tokensBelow scope depth = .ok tokens) :
    ((Dialect.postgres.render (expr.asUnaryOperand tokens)).toList.head? = some '-' ↔
        expr.leadingName? = some "-") ∧
      ((Dialect.postgres.render (expr.asUnaryOperand tokens)).toList.head? = some '+' ↔
        expr.leadingName? = some "+" ∨ expr.leadingName? = some "++") ∧
      ((∃ before after, tokens = before ++ .operator "-" :: after ∧
          (Dialect.postgres.render after).toList.head? = some '-') ↔
        expr.PutsBefore "-" "-") ∧
      ((∃ content, .comment content ∈ lexemes (Dialect.postgres.render tokens).toList) ↔
        expr.PutsBefore "-" "-") := by
  have hlegible : Legible True tokens :=
    (legible_tokensBelow htokens hnames).mpr fun _ _ ↦ Or.inl trivial
  have hputs := exists_joins_tokensBelow hnames htokens
  refine ⟨?_, ?_, (exists_joins_iff hlegible).trans hputs,
    (comment_mem_lexemes_render_iff hlegible).trans hputs⟩
  · rw [head?_render_asUnaryOperand htokens hnames (by decide)]
    constructor
    · rintro ⟨name, hleading, -, hfirst⟩
      rw [hleading, (head?_eq_sign_iff (isCallName_of_leadingName? hnames hleading)).1.mp hfirst]
    · intro hleading
      exact ⟨"-", hleading, rfl, rfl⟩
  · rw [head?_render_asUnaryOperand htokens hnames (by decide)]
    constructor
    · rintro ⟨name, hleading, -, hfirst⟩
      rcases (head?_eq_sign_iff (isCallName_of_leadingName? hnames hleading)).2.mp hfirst
        with rfl | rfl
      · exact Or.inl hleading
      · exact Or.inr hleading
    · rintro (hleading | hleading)
      · exact ⟨"+", hleading, rfl, rfl⟩
      · exact ⟨"++", hleading, rfl, rfl⟩

/-- A sign before a cast of a function, inside of which a sign stands before a negative number. -/
theorem Expr.leading_sign_iff_coalesce :
    let expr : Expr := .call "-" [.truncate .date (.call "coalesce"
      [.call "-" [.literal (.integer (-5))], .now])]
    let scope : Scope := ⟨[], [], 512⟩
    let tokens : List Token := [.operator "-", .functionName "coalesce", .openParen, .operator "-",
      .openParen, .integer (-5), .closeParen, .comma, .space, .functionName "localtimestamp",
      .closeParen, .cast, .typeName .date]
    expr.CallsByName ∧ expr.tokensBelow scope 0 = .ok tokens ∧
      Dialect.postgres.render tokens = "-coalesce(-(-5), localtimestamp)::date" ∧
      ¬ (Dialect.postgres.render (expr.asUnaryOperand tokens)).toList.head? = some '-' ∧
      ¬ (Dialect.postgres.render (expr.asUnaryOperand tokens)).toList.head? = some '+' ∧
      (¬ ∃ before after, tokens = before ++ .operator "-" :: after ∧
        (Dialect.postgres.render after).toList.head? = some '-') ∧
      ¬ ∃ content, .comment content ∈ lexemes (Dialect.postgres.render tokens).toList := by
  intro expr scope tokens
  have hplain : IsPlainName "coalesce" := by
    unfold IsPlainName
    decide
  have hnames : expr.CallsByName := by
    simp [expr, Expr.CallsByName, Expr.nodes, Expr.nodesOfEach, Expr.IsNamedCall, IsCallName,
      catalog, hplain, Expr.now]
  have htokens : expr.tokensBelow scope 0 = .ok tokens := rfl
  have hleading : expr.leadingName? = none := rfl
  have hputs : ¬ expr.PutsBefore "-" "-" := by
    rintro ⟨operand, hnode, hoperand⟩
    simp only [expr, Expr.now, Expr.nodes, Expr.nodesOfEach, List.mem_cons, List.mem_append,
      List.not_mem_nil, Expr.call.injEq, List.cons.injEq, reduceCtorEq, and_true, true_and,
      and_false, or_false, false_or] at hnode
    rcases hnode with rfl | rfl
    · revert hoperand
      decide
    · cases hoperand
  obtain ⟨hminus, hplus, hdoubled, hcomment⟩ := Expr.leading_sign_iff hnames htokens
  refine ⟨hnames, htokens, rfl, ?_, ?_, hdoubled.not.mpr hputs, hcomment.not.mpr hputs⟩
  · rw [hminus, hleading]
    decide
  · rw [hplus, hleading]
    decide

/-- A call of the minus sign with three arguments begins with it as an operand, be it behind a sign
or before a cast; behind another minus sign it opens a comment. -/
theorem Expr.unary_operand_three_arguments :
    let operand : Expr := .call "-"
      [.literal (.integer 1), .literal (.integer 2), .literal (.integer 3)]
    let scope : Scope := ⟨[], [], 512⟩
    let text (expr : Expr) := (expr.tokens scope).map Dialect.postgres.render
    operand.CallsByName ∧
      (operand.tokensBelow scope 1).map
        (fun tokens ↦ Dialect.postgres.render (operand.asUnaryOperand tokens)) =
          .ok "-(1, 2, 3)" ∧
      text (.call "-" [operand]) = .ok "--(1, 2, 3)" ∧
      text (.truncate .date operand) = .ok "-(1, 2, 3)::date" ∧
      .comment "--(1, 2, 3)".toList ∈ lexemes "--(1, 2, 3)".toList := by
  intro operand scope text
  refine ⟨?_, rfl, rfl, rfl, by decide +kernel⟩
  simp [operand, Expr.CallsByName, Expr.nodes, Expr.nodesOfEach, Expr.IsNamedCall, IsCallName,
    catalog]

end SqlCompose
