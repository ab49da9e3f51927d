import SqlCompose.Proofs.Adjacency
import SqlCompose.Proofs.Origin

/-!
Expressions as text. Everything that composing puts side by side is apart from its neighbour, with
one exception. A sign stands directly before its operand, and only operands that are operators or
signed numbers go between parentheses. A function does not, whatever its name is, and a call of an
operator with an unusual number of arguments is a function with a symbol for its name.

`Form.SignsApart` says that this does not happen, and `Form.legible_tokens_iff` that it is the only
thing that can go wrong.
-/

set_option autoImplicit false
set_option relaxedAutoImplicit false

namespace SqlCompose

open Token

variable {tolerant : Prop}

/-! ### The parts from which expressions are composed -/

theorem legible_grouped {group : Bool} {tokens : List Token} :
    Legible tolerant (Expr.grouped group tokens) ↔ Legible tolerant tokens := by
  cases group
  · rfl
  · exact legible_parenthesized

theorem legible_cons_separator_cons {token separator : Token} {after : List Token}
    (hseparator : separator.isSeparator = true) :
    Legible tolerant (token :: separator :: after) ↔
      token.IsLexical ∧ Legible tolerant after := by
  rw [← List.singleton_append, legible_append_separator hseparator, legible_singleton]

theorem legible_nullTest {operand : List Token} {negated : Bool} :
    Legible tolerant (Expr.nullTest operand negated) ↔ Legible tolerant operand := by
  cases negated <;>
    simp (disch := rfl) [Expr.nullTest, legible_append_separator, legible_cons_separator_cons,
      IsLexical]

theorem legible_equalityTest {left right : List Token} {negated : Bool} :
    Legible tolerant (Expr.equalityTest left right negated) ↔
      Legible tolerant left ∧ Legible tolerant right := by
  cases negated <;>
    simp (disch := rfl) [Expr.equalityTest, legible_append_separator, legible_cons_separator_cons,
      IsLexical]

theorem legible_betweenTest {value first last : List Token} :
    Legible tolerant (Expr.betweenTest value first last) ↔
      Legible tolerant value ∧ Legible tolerant first ∧ Legible tolerant last := by
  simp (disch := rfl) [Expr.betweenTest, legible_append_separator, legible_cons_separator_cons,
    IsLexical]

theorem legible_anyTest {value array : List Token} :
    Legible tolerant (Expr.anyTest value array) ↔
      Legible tolerant value ∧ Legible tolerant array := by
  simp (disch := rfl) [Expr.anyTest, legible_append_separator, legible_cons_separator_cons,
    legible_parenthesized, IsLexical]

theorem legible_quotient {left right : List Token} :
    Legible tolerant (Expr.quotient left right) ↔
      Legible tolerant left ∧ Legible tolerant right := by
  simp (disch := rfl) [Expr.quotient, legible_append_separator, legible_cons_separator_cons,
    IsLexical]

theorem legible_functionCall {name : String} {arguments : List (List Token)} :
    Legible tolerant (Expr.functionCall name arguments) ↔
      (functionName name).IsLexical ∧ ∀ argument ∈ arguments, Legible tolerant argument := by
  rw [Expr.functionCall, parenthesized, legible_cons_separator_cons rfl,
    legible_append_separator rfl, legible_commaSeparated, and_iff_left legible_nil]

theorem legible_columnTokens (shortName field : String) :
    Legible tolerant (columnTokens shortName field) := by
  have hdot : (identifier shortName).Apart dot := ⟨'.', [], rfl, rfl⟩
  have hfield : dot.Apart (identifier field) := by
    refine ⟨'"', Text.doubled '"' field.toList ++ ['"'], ?_, rfl⟩
    simp [Dialect.spell, Dialect.postgres, Text.quoted]
  simp [columnTokens, legible_cons, Meets, hdot, hfield, IsLexical]

theorem legible_sourceTokens (source : Source) (shortName : String) :
    Legible tolerant (sourceTokens source shortName) := by
  unfold sourceTokens
  split
  · have hdot : (identifier shortName).Apart dot := ⟨'.', [], rfl, rfl⟩
    have hstar : dot.Apart star := ⟨'*', [], rfl, rfl⟩
    simp [legible_cons, Meets, hdot, hstar, IsLexical]
  · refine legible_commaSeparated.mpr fun item hitem ↦ ?_
    obtain ⟨field, -, rfl⟩ := List.mem_map.mp hitem
    exact legible_columnTokens shortName field

theorem legible_arrayTokens {elements : List (List Token)} {elementType : ValueType} :
    Legible tolerant (arrayTokens elements elementType) ↔
      ∀ element ∈ elements, Legible tolerant element := by
  cases hempty : elements.isEmpty <;>
    simp (disch := rfl) [arrayTokens, hempty, legible_append_separator, legible_separator_cons,
      legible_cons_separator_cons, legible_commaSeparated, IsLexical]

theorem legible_scalarTokens {value : Literal} :
    Legible tolerant value.scalarTokens ↔
      ∀ number, value = .float number → number.isFinite = true := by
  cases value <;>
    simp (disch := rfl) [Literal.scalarTokens, legible_cons_separator_cons, IsLexical] <;> decide

/-! ### What stands behind a sign -/

namespace Form

/-- Written with a function first whose name is a symbol. -/
def leadsWithSymbol : Form → Bool
  | function name _ => Lexeme.isSymbol name.toList
  | truncation _ operand => !operand.isGrouped && leadsWithSymbol operand
  | _ => false

/-- A node that is no sign, or whose operand does not begin with a symbol. -/
def keepsSignApart : Form → Bool
  | signed _ operand => operand.isGrouped || !operand.leadsWithSymbol
  | _ => true

/-- No sign in a form stands directly before a symbol. -/
def SignsApart (form : Form) : Prop :=
  ∀ node ∈ form.nodes, node.keepsSignApart = true

/-- A node whose own names and numbers can be part of a statement. -/
def IsWritable : Form → Prop
  | infixed symbol _ _ => (operator symbol).IsLexical
  | signed symbol _ => symbol = "-" ∨ symbol = "+"
  | word name => Lexeme.isWord name.toList = true
  | function name _ => (functionName name).IsLexical
  | scalar value _ => value.IsFinite
  | bareRange _ _ => False
  | _ => True

end Form

theorem takesIn_sign {sign : String} (hsign : sign = "-" ∨ sign = "+") (c : Char) :
    (operator sign).takesIn c = Lexeme.isOperatorChar c := by
  rcases hsign with rfl | rfl <;> rfl

theorem isOperatorChar_of_startsWord {c : Char} (hstarts : Lexeme.startsWord c = true) :
    Lexeme.isOperatorChar c = false := by
  cases hoperator : Lexeme.isOperatorChar c with
  | false => rfl
  | true =>
    rw [(Lexeme.isOperatorChar_not_startsWord hoperator).2.2.2.1] at hstarts
    cases hstarts

theorem isOperatorChar_of_isDigit {c : Char} (hdigit : c.isDigit = true) :
    Lexeme.isOperatorChar c = false := by
  cases hoperator : Lexeme.isOperatorChar c with
  | false => rfl
  | true =>
    rw [(Lexeme.isOperatorChar_not_startsWord hoperator).2.2.2.2.1] at hdigit
    cases hdigit

section Sign

variable {sign : String} (hsign : sign = "-" ∨ sign = "+")

include hsign

theorem apart_sign_of_head {next : Token} {c : Char}
    (hhead : (Dialect.postgres.spell next).toList.head? = some c)
    (hc : Lexeme.isOperatorChar c = false) : (operator sign).Apart next := by
  obtain ⟨rest, hspell⟩ := List.head?_eq_some_iff.mp hhead
  exact ⟨c, rest, hspell, by rw [takesIn_sign hsign, hc]⟩

/-- A sign takes in nothing of a number that is written without one. -/
theorem apart_sign_number {next : Token}
    (hnumber : IsSignedNumeral false (Dialect.postgres.spell next).toList) :
    (operator sign).Apart next := by
  obtain ⟨numeral, hnumeral, hspell⟩ := hnumber
  obtain ⟨c, rest, rfl, hdigit⟩ := Lexeme.IsNumeral.exists_digit_cons hnumeral
  exact apart_sign_of_head hsign (by rw [hspell]; rfl) (isOperatorChar_of_isDigit hdigit)

theorem apart_sign_word {next : Token}
    (hword : Lexeme.isWord (Dialect.postgres.spell next).toList = true) :
    (operator sign).Apart next := by
  cases hspell : (Dialect.postgres.spell next).toList with
  | nil =>
    rw [hspell] at hword
    cases hword
  | cons c rest =>
    rw [hspell, Lexeme.isWord, Bool.and_eq_true] at hword
    exact apart_sign_of_head hsign (by rw [hspell]; rfl) (isOperatorChar_of_startsWord hword.1)

theorem apart_sign_identifier (name : String) : (operator sign).Apart (identifier name) :=
  apart_sign_of_head (c := '"') hsign
    (by simp [Dialect.spell, Dialect.postgres, Text.quoted]) (by decide)

theorem apart_sign_typed {heading : String} (hheading : Lexeme.isWord heading.toList = true)
    (content : String) : (operator sign).Apart (typed heading content) := by
  cases hspell : heading.toList with
  | nil =>
    rw [hspell] at hheading
    cases hheading
  | cons c rest =>
    rw [hspell, Lexeme.isWord, Bool.and_eq_true] at hheading
    refine apart_sign_of_head hsign ?_ (isOperatorChar_of_startsWord hheading.1)
    simp [Dialect.spell, hspell]

theorem apart_sign_scalar {value : Literal} (hpositive : value.isNegative = false)
    (hfinite : value.IsFinite) {next : Token} (hnext : next ∈ value.scalarTokens.head?) :
    (operator sign).Apart next := by
  cases value with
  | null =>
    cases hnext
    exact apart_sign_word hsign (by decide)
  | boolean value =>
    cases hnext
    exact apart_sign_word hsign (by cases value <;> decide)
  | text value =>
    cases hnext
    exact apart_sign_of_head (c := '\'') hsign
      (by simp [Dialect.spell, Dialect.postgres, Text.quoted]) (by decide)
  | integer value =>
    cases hnext
    have hsigned := isSignedNumeral_signedDecimal value.toInt
    have hlt : decide (value.toInt < 0) = false := by
      rw [← hpositive, Literal.isNegative, decide_eq_decide, Int64.lt_iff_toInt_lt]
      rfl
    rw [hlt] at hsigned
    refine apart_sign_number hsign ?_
    rwa [Dialect.spell, String.toList_ofList]
  | float value =>
    cases hnext
    have hsigned := FloatLayout.isSignedNumeral_write
      (hfinite value (by simp [Literal.nodes]))
    rw [show value.isNegative = false from hpositive] at hsigned
    exact apart_sign_number hsign hsigned
  | decimal value =>
    cases hnext
    have hsigned := isSignedNumeral_decimalText value
    rw [show value.negative = false from hpositive] at hsigned
    exact apart_sign_number hsign hsigned
  | binary bytes =>
    cases hnext
    exact apart_sign_of_head (c := '\'') hsign
      (by simp [Dialect.spell, Dialect.postgres, quotedBytes]) (by decide)
  | date value =>
    cases hnext
    exact apart_sign_typed hsign (by decide) _
  | time value =>
    cases hnext
    exact apart_sign_typed hsign (by decide) _
  | timestamp value =>
    cases hnext
    exact apart_sign_typed hsign (by decide) _
  | interval value =>
    cases hnext
    exact apart_sign_typed hsign (by decide) _
  | array elements elementType => cases hnext

theorem apart_sign_source {source : Source} {shortName : String} {next : Token}
    (hnext : next ∈ (sourceTokens source shortName).head?) : (operator sign).Apart next := by
  unfold sourceTokens at hnext
  split_ifs at hnext with hfields
  · cases hnext
    exact apart_sign_identifier hsign _
  · cases hlist : source.schema.fields with
    | nil => simp [hlist] at hfields
    | cons field rest =>
      rw [hlist] at hnext
      cases rest with
      | nil =>
        cases hnext
        exact apart_sign_identifier hsign _
      | cons other rest =>
        cases hnext
        exact apart_sign_identifier hsign _

/-- A sign takes in the beginning of a symbol. -/
theorem not_apart_sign_symbol {name : String} (hsymbol : Lexeme.isSymbol name.toList = true) :
    ¬ (operator sign).Apart (functionName name) := by
  rintro ⟨c, rest, hspell, htakes⟩
  obtain ⟨d, tail, hname, hd, -, -⟩ := Lexeme.exists_cons_of_isSymbol hsymbol
  rw [Dialect.spell, hname] at hspell
  cases hspell
  rw [takesIn_sign hsign, hd] at htakes
  cases htakes

/-- A sign may stand before an operand without parentheses unless that begins with a symbol. -/
theorem meets_sign_iff (scope : Scope) (operand : Form) (hgrouped : operand.isGrouped = false)
    (hwritable : ∀ node ∈ operand.nodes, node.IsWritable) :
    (∀ next ∈ (operand.tokens scope).head?, (operator sign).Meets tolerant next) ↔
      tolerant ∨ operand.leadsWithSymbol = false := by
  have happart {form : Form} (hleads : form.leadsWithSymbol = false)
      (hnext : ∀ next ∈ (form.tokens scope).head?, (operator sign).Apart next) :
      (∀ next ∈ (form.tokens scope).head?, (operator sign).Meets tolerant next) ↔
        tolerant ∨ form.leadsWithSymbol = false :=
    iff_of_true (fun next hmem ↦ Or.inl (hnext next hmem)) (Or.inr hleads)
  induction operand using Form.induction with
  | column position name =>
    refine happart rfl fun next hnext ↦ ?_
    cases hnext
    exact apart_sign_identifier hsign _
  | wholeSource position =>
    refine happart rfl fun next hnext ↦ ?_
    rw [Form.tokens] at hnext
    split at hnext
    · exact apart_sign_source hsign hnext
    · cases hnext
  | negation operand ih =>
    refine happart rfl fun next hnext ↦ ?_
    cases hnext
    exact apart_sign_word hsign (by decide)
  | nullTest | equality | membership | between | quotient | infixed | signed => cases hgrouped
  | bareRange first last => exact absurd (hwritable _ (Form.mem_nodes_self _)) id
  | truncation unit operand ih =>
    by_cases hinner : operand.isGrouped = true
    · refine happart (by simp [Form.leadsWithSymbol, hinner]) fun next hnext ↦ ?_
      rw [Form.tokens, hinner] at hnext
      cases hnext
      exact apart_of_isSeparator _ rfl
    · rw [Bool.not_eq_true] at hinner
      have hleads : (Form.truncation unit operand).leadsWithSymbol = operand.leadsWithSymbol := by
        simp [Form.leadsWithSymbol, hinner]
      have hbelow : ∀ node ∈ operand.nodes, node.IsWritable := fun node hnode ↦
        hwritable node (List.mem_cons_of_mem _ hnode)
      rw [hleads]
      refine Iff.trans ?_ (ih hinner hbelow)
      rw [Form.tokens, hinner]
      cases htokens : operand.tokens scope with
      | nil =>
        refine iff_of_true (fun next hnext ↦ ?_) fun next hnext ↦ by cases hnext
        cases hnext
        exact Or.inl (apart_of_isSeparator _ rfl)
      | cons first rest => rfl
  | word name =>
    refine happart rfl fun next hnext ↦ ?_
    cases hnext
    exact apart_sign_word hsign (hwritable _ (Form.mem_nodes_self _))
  | function name arguments ih =>
    rcases hwritable _ (Form.mem_nodes_self _) with hword | hsymbol
    · refine happart ?_ fun next hnext ↦ ?_
      · cases hsymbol : Lexeme.isSymbol name.toList with
        | false => exact hsymbol
        | true =>
          rw [Lexeme.isWord_of_isSymbol hsymbol] at hword
          cases hword
      · cases hnext
        exact apart_sign_word hsign hword
    · have hleads : (Form.function name arguments).leadsWithSymbol = true := hsymbol
      rw [hleads, or_iff_left (by decide)]
      constructor
      · intro hmeets
        rcases hmeets (functionName name) rfl with happartName | ⟨htolerant, -⟩
        · exact absurd happartName (not_apart_sign_symbol hsign hsymbol)
        · exact htolerant
      · intro htolerant next hnext
        cases hnext
        exact Or.inr ⟨htolerant, hsign, hsymbol⟩
  | scalar value hscalar =>
    exact happart rfl fun next hnext ↦
      apart_sign_scalar hsign hgrouped (hwritable _ (Form.mem_nodes_self _)) hnext
  | array first rest ih =>
    refine happart rfl fun next hnext ↦ ?_
    cases hnext
    exact apart_sign_word hsign (by decide)
  | emptyArray elementType =>
    refine happart rfl fun next hnext ↦ ?_
    cases hnext
    exact apart_sign_word hsign (by decide)

end Sign

/-! ### Forms -/

/-- The tokens of a writable form are lexical and apart from each other, but for the signs that
stand before a symbol. -/
theorem Form.legible_tokens_iff (scope : Scope) (form : Form)
    (hwritable : ∀ node ∈ form.nodes, node.IsWritable) :
    Legible tolerant (form.tokens scope) ↔
      ∀ node ∈ form.nodes, tolerant ∨ node.keepsSignApart = true := by
  induction form using Form.induction with
  | column position name =>
    exact iff_of_true (legible_columnTokens _ _) (by simp [nodes, keepsSignApart])
  | wholeSource position =>
    refine iff_of_true ?_ (by simp [nodes, keepsSignApart])
    rw [tokens]
    split
    · exact legible_sourceTokens _ _
    · exact legible_nil
  | negation operand ih =>
    simp only [nodes, List.forall_mem_cons] at hwritable ⊢
    rw [tokens, legible_cons_separator_cons rfl, legible_parenthesized, ih hwritable.2]
    simp [keepsSignApart, IsLexical]
  | nullTest operand negated ih =>
    simp only [nodes, List.forall_mem_cons] at hwritable ⊢
    rw [tokens, legible_nullTest, legible_grouped, ih hwritable.2]
    simp [keepsSignApart]
  | equality left right negated ihLeft ihRight =>
    simp only [nodes, List.forall_mem_cons, List.forall_mem_append] at hwritable ⊢
    rw [tokens, legible_equalityTest, legible_grouped, legible_grouped, ihLeft hwritable.2.1,
      ihRight hwritable.2.2]
    simp [keepsSignApart]
  | membership value collection ihValue ihCollection =>
    simp only [nodes, List.forall_mem_cons, List.forall_mem_append] at hwritable ⊢
    rw [tokens, legible_anyTest, legible_grouped, ihValue hwritable.2.1,
      ihCollection hwritable.2.2]
    simp [keepsSignApart]
  | between value first last ihValue ihFirst ihLast =>
    simp only [nodes, List.forall_mem_cons, List.forall_mem_append, and_assoc] at hwritable ⊢
    rw [tokens, legible_betweenTest, legible_grouped, legible_grouped, legible_grouped,
      ihValue hwritable.2.1, ihFirst hwritable.2.2.1, ihLast hwritable.2.2.2]
    simp [keepsSignApart]
  | bareRange first last => exact absurd (hwritable _ (mem_nodes_self _)) id
  | quotient left right ihLeft ihRight =>
    simp only [nodes, List.forall_mem_cons, List.forall_mem_append] at hwritable ⊢
    rw [tokens, legible_quotient, legible_grouped, legible_grouped, ihLeft hwritable.2.1,
      ihRight hwritable.2.2]
    simp [keepsSignApart]
  | truncation unit operand ih =>
    simp only [nodes, List.forall_mem_cons] at hwritable ⊢
    rw [tokens, legible_append_separator rfl, legible_singleton, legible_grouped, ih hwritable.2]
    simp [keepsSignApart, IsLexical]
  | infixed symbol left right ihLeft ihRight =>
    simp only [nodes, List.forall_mem_cons, List.forall_mem_append] at hwritable ⊢
    simp only [tokens, List.append_assoc, List.cons_append, List.nil_append]
    have hsymbol : (operator symbol).IsLexical := hwritable.1
    rw [legible_append_separator rfl, legible_cons_separator_cons rfl, legible_grouped,
      legible_grouped, ihLeft hwritable.2.1, ihRight hwritable.2.2]
    simp [keepsSignApart, hsymbol]
  | signed symbol operand ih =>
    simp only [nodes, List.forall_mem_cons] at hwritable ⊢
    have hsign : symbol = "-" ∨ symbol = "+" := hwritable.1
    have hlexical : (operator symbol).IsLexical := by
      rcases hsign with rfl | rfl <;> exact Or.inr rfl
    have hhead : (∀ next ∈ (Expr.grouped operand.isGrouped (tokens scope operand)).head?,
        (operator symbol).Meets tolerant next) ↔
        tolerant ∨ (signed symbol operand).keepsSignApart = true := by
      cases hgrouped : operand.isGrouped with
      | false =>
        rw [keepsSignApart, hgrouped, Bool.false_or, Bool.not_eq_true']
        exact meets_sign_iff hsign scope operand hgrouped hwritable.2
      | true =>
        refine iff_of_true (fun next hnext ↦ ?_) (Or.inr (by simp [keepsSignApart, hgrouped]))
        cases hnext
        exact Or.inl (apart_of_isSeparator _ rfl)
    rw [tokens, legible_cons, legible_grouped, hhead, ih hwritable.2, and_iff_right hlexical]
  | word name =>
    refine iff_of_true ?_ (by simp [nodes, keepsSignApart])
    exact legible_singleton.mpr (Or.inl (hwritable _ (mem_nodes_self _)))
  | function name arguments ih =>
    simp only [nodes, List.forall_mem_cons, forall_mem_nodesOfEach] at hwritable ⊢
    have hname : (functionName name).IsLexical := hwritable.1
    have harguments : (∀ argument ∈ arguments, Legible tolerant (tokens scope argument)) ↔
        ∀ argument ∈ arguments, ∀ node ∈ argument.nodes, tolerant ∨ node.keepsSignApart = true :=
      forall₂_congr fun argument hmem ↦ ih argument hmem (hwritable.2 argument hmem)
    rw [tokens, legible_functionCall, tokensOfEach_eq_map, List.forall_mem_map, harguments]
    simp [keepsSignApart, hname]
  | scalar value hscalar =>
    refine iff_of_true ?_ (by simp [nodes, keepsSignApart])
    refine legible_scalarTokens.mpr fun number hnumber ↦ ?_
    have hfinite : value.IsFinite := hwritable _ (mem_nodes_self _)
    subst hnumber
    exact hfinite number (by simp [Literal.nodes])
  | array first rest ih =>
    simp only [nodes, List.forall_mem_cons, List.forall_mem_append,
      forall_mem_nodesOfEach] at hwritable ih ⊢
    have hrest : (∀ element ∈ rest, Legible tolerant (tokens scope element)) ↔
        ∀ element ∈ rest, ∀ node ∈ element.nodes, tolerant ∨ node.keepsSignApart = true :=
      forall₂_congr fun element hmem ↦ ih.2 element hmem (hwritable.2.2 element hmem)
    rw [tokens, legible_cons_separator_cons rfl, legible_append_separator rfl,
      legible_commaSeparated, List.forall_mem_cons, tokensOfEach_eq_map, List.forall_mem_map,
      ih.1 hwritable.2.1, hrest]
    simp [keepsSignApart, IsLexical]
  | emptyArray elementType =>
    refine iff_of_true ?_ (by simp [nodes, keepsSignApart])
    exact legible_arrayTokens.mpr (by simp)

/-! ### Expressions -/

/-- A name by which a call may be made: that of a catalog entry, or a plain one. -/
def IsCallName (name : String) : Prop :=
  (∃ entry ∈ catalog, entry.name = name) ∨ IsPlainName name

/-- If the expression is itself a call, then it is made by such a name. -/
def Expr.IsNamedCall : Expr → Prop
  | call name _ => IsCallName name
  | _ => True

/-- A text that a statement may contain as it stands: a word or an operator. -/
def isVerbatim (text : String) : Bool :=
  Lexeme.isWord text.toList || Lexeme.isSymbol text.toList

/-- What a rule contributes to a statement can be read again. -/
def CallRule.isWritable : CallRule → Bool
  | between symbol => isVerbatim symbol
  | before symbol => symbol == "-" || symbol == "+"
  | word name => Lexeme.isWord name.toList
  | function name => isVerbatim name
  | fallback name => isVerbatim name

theorem isVerbatim_of_isCallName {name : String} (hname : IsCallName name) :
    isVerbatim name = true := by
  have hcatalog : ∀ entry ∈ catalog, isVerbatim entry.name = true := by decide
  rcases hname with ⟨entry, hmem, rfl⟩ | hplain
  · exact hcatalog entry hmem
  · rw [isVerbatim, hplain, Bool.true_or]

theorem isWritable_callRule {name : String} (hname : IsCallName name) (arity : Nat) :
    (callRule name arity).isWritable = true := by
  have hcatalog : ∀ entry ∈ catalog, entry.rule.isWritable = true := by decide
  rcases callRule_eq_fallback_or_mem name arity with hrule | ⟨entry, hmem, -, -, hrule⟩
  · rw [hrule]
    exact isVerbatim_of_isCallName hname
  · rw [hrule]
    exact hcatalog entry hmem

theorem isWritable_form_callRule {name : String} (hname : IsCallName name)
    (arguments : List Form) :
    ((callRule name arguments.length).form arguments).IsWritable := by
  have hrule := isWritable_callRule hname arguments.length
  rcases callRule_cases name arguments with ⟨symbol, left, right, rfl, heq⟩ |
    ⟨symbol, operand, rfl, heq⟩ | ⟨bare, rfl, heq⟩ | ⟨function, heq⟩ | heq
  · rw [heq] at hrule ⊢
    exact Bool.or_eq_true_iff.mp hrule
  · rw [heq, CallRule.isWritable, Bool.or_eq_true, beq_iff_eq, beq_iff_eq] at hrule
    rw [heq]
    exact hrule
  · rw [heq] at hrule ⊢
    exact hrule
  · rw [heq] at hrule ⊢
    exact Bool.or_eq_true_iff.mp hrule
  · rw [heq] at hrule ⊢
    exact Bool.or_eq_true_iff.mp hrule

theorem Form.isWritable_of_isPlain (form : Form) (hform : form.isPlain = true) :
    form.IsWritable := by
  cases form <;> first | exact trivial | cases hform

theorem Literal.isWritable_scalar {value : Literal} (hfinite : value.IsFinite) :
    ∀ origin ∈ value.nodes, ∀ hscalar : origin.isScalar = true,
      (Form.scalar origin hscalar).IsWritable := by
  intro origin horigin hscalar number hnumber
  rw [nodes_of_isScalar hscalar, List.mem_singleton] at hnumber
  exact hfinite number (hnumber ▸ horigin)

theorem Literal.isWritable_form {value : Literal} (hfinite : value.IsFinite) :
    ∀ node ∈ value.form.nodes, node.IsWritable :=
  Literal.forall_mem_nodes_form Form.isWritable_of_isPlain (isWritable_scalar hfinite)

/-- An expression that can be composed and calls everything by its name has a writable form. -/
theorem Expr.isWritable_form {scope : Scope} {depth : Nat} {expr : Expr}
    (hcomposable : expr.ComposableBelow scope depth)
    (hnames : ∀ node ∈ expr.nodes, node.IsNamedCall) :
    ∀ node ∈ expr.form.nodes, node.IsWritable := by
  refine forall_mem_nodes_form Form.isWritable_of_isPlain hcomposable.2.2.2 fun origin horigin ↦ ?_
  cases origin with
  | call name arguments =>
    have hform := isWritable_form_callRule (hnames _ horigin) (formOfEach arguments)
    rwa [formOfEach_eq_map, List.length_map, ← formOfEach_eq_map] at hform
  | literal value => exact Literal.isWritable_scalar (hcomposable.2.2.1 _ horigin)
  | _ => exact trivial

end SqlCompose
