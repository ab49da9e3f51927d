import SqlCompose.Proofs.Clause

/-!
Qualifiers: the names directly before a dot. In a composed expression they are the aliases of the
positions to which the expression refers, be it by a field or as a whole source, and nothing else
(`Expr.mem_qualifiers_written`). They can be collected part by part, because the parts of a
statement are set off from each other by tokens that are neither names nor dots.
-/

set_option autoImplicit false
set_option relaxedAutoImplicit false

namespace SqlCompose

/-! ### Qualifiers of token lists -/

namespace Token

/-- The names that stand directly before a dot. -/
def qualifiers : List Token → List String
  | [] => []
  | .identifier name :: .dot :: rest => name :: qualifiers rest
  | _ :: rest => qualifiers rest

/-- Neither a name nor a dot. -/
@[reducible]
def setsApart : Token → Bool
  | identifier _ | dot => false
  | _ => true

theorem qualifiers_nil : qualifiers [] = [] := rfl

theorem qualifiers_cons {token : Token} (htoken : token.setsApart = true) (rest : List Token) :
    qualifiers (token :: rest) = qualifiers rest := by
  cases token with
  | identifier name => cases htoken
  | _ => rfl

/-- The qualifiers before and after a token that sets them apart. -/
theorem qualifiers_append {token : Token} (htoken : token.setsApart = true)
    (before after : List Token) :
    qualifiers (before ++ token :: after) = qualifiers before ++ qualifiers after := by
  fun_induction qualifiers before with
  | case1 => exact qualifiers_cons htoken after
  | case2 name rest ih => rw [List.cons_append, List.cons_append, qualifiers, ih, List.cons_append]
  | case3 first rest hdot ih =>
    rw [List.cons_append, qualifiers, ih]
    rintro name others rfl hrest
    cases rest with
    | nil =>
      cases hrest
      cases htoken
    | cons second rest =>
      cases hrest
      exact hdot name rest rfl rfl

theorem qualifiers_parenthesized (tokens : List Token) :
    qualifiers (parenthesized tokens) = qualifiers tokens := by
  rw [parenthesized, qualifiers_cons rfl, qualifiers_append rfl]
  exact List.append_nil _

/-- The qualifiers of items between which a separator stands are those of the items. -/
theorem qualifiers_separatedBy {separator : List Token}
    (hseparator : ∀ before after, qualifiers (before ++ (separator ++ after)) =
      qualifiers before ++ qualifiers after) (items : List (List Token)) :
    qualifiers (separatedBy separator items) = items.flatMap qualifiers := by
  induction items with
  | nil => rfl
  | cons item rest ih =>
    cases rest with
    | nil => simp [separatedBy]
    | cons next others =>
      rw [separatedBy, List.append_assoc, hseparator, ih, ← List.flatMap_cons]

theorem qualifiers_commaSeparated (items : List (List Token)) :
    qualifiers (commaSeparated items) = items.flatMap qualifiers := by
  refine qualifiers_separatedBy (fun before after ↦ ?_) items
  rw [List.cons_append, qualifiers_append rfl]
  exact congrArg _ (qualifiers_cons rfl after)

theorem qualifiers_grouped (group : Bool) (tokens : List Token) :
    qualifiers (Expr.grouped group tokens) = qualifiers tokens := by
  cases group with
  | false => rfl
  | true => exact qualifiers_parenthesized tokens

theorem qualifiers_arrayTokens (elements : List (List Token)) (elementType : ValueType) :
    qualifiers (arrayTokens elements elementType) = elements.flatMap qualifiers := by
  unfold arrayTokens
  split <;>
    simp (disch := rfl) [qualifiers_cons, qualifiers_append, qualifiers_commaSeparated,
      qualifiers_nil]

theorem qualifiers_nullTest (operand : List Token) (negated : Bool) :
    qualifiers (Expr.nullTest operand negated) = qualifiers operand := by
  cases negated <;>
    simp (disch := rfl) [Expr.nullTest, qualifiers_append, qualifiers_cons, qualifiers_nil]

theorem qualifiers_equalityTest (left right : List Token) (negated : Bool) :
    qualifiers (Expr.equalityTest left right negated) = qualifiers left ++ qualifiers right := by
  cases negated <;> simp (disch := rfl) [Expr.equalityTest, qualifiers_append, qualifiers_cons]

theorem qualifiers_betweenTest (value first last : List Token) :
    qualifiers (Expr.betweenTest value first last) =
      qualifiers value ++ (qualifiers first ++ qualifiers last) := by
  simp (disch := rfl) [Expr.betweenTest, qualifiers_append, qualifiers_cons]

theorem qualifiers_anyTest (value collection : List Token) :
    qualifiers (Expr.anyTest value collection) = qualifiers value ++ qualifiers collection := by
  simp (disch := rfl) [Expr.anyTest, qualifiers_append, qualifiers_cons, qualifiers_parenthesized]

theorem qualifiers_quotient (left right : List Token) :
    qualifiers (Expr.quotient left right) = qualifiers left ++ qualifiers right := by
  simp (disch := rfl) [Expr.quotient, qualifiers_append, qualifiers_cons, qualifiers_nil]

theorem qualifiers_functionCall (name : String) (arguments : List (List Token)) :
    qualifiers (Expr.functionCall name arguments) = arguments.flatMap qualifiers := by
  rw [Expr.functionCall, qualifiers_cons rfl, qualifiers_parenthesized, qualifiers_commaSeparated]

theorem qualifiers_columnTokens (shortName field : String) :
    qualifiers (columnTokens shortName field) = [shortName] := rfl

/-- All columns of a source are qualified by its alias. -/
theorem mem_qualifiers_sourceTokens {source : Source} {shortName name : String} :
    name ∈ qualifiers (sourceTokens source shortName) ↔ name = shortName := by
  unfold sourceTokens
  split_ifs with hfields
  · simp [qualifiers]
  · obtain ⟨field, hfield⟩ := List.exists_mem_of_ne_nil _ (mt List.isEmpty_iff.mpr hfields)
    simp only [qualifiers_commaSeparated, List.mem_flatMap, List.mem_map]
    constructor
    · rintro ⟨-, ⟨other, -, rfl⟩, hname⟩
      exact List.mem_singleton.mp hname
    · rintro rfl
      exact ⟨_, ⟨field, hfield, rfl⟩, List.mem_singleton.mpr rfl⟩

end Token

/-! ### Literals have none -/

theorem Literal.qualifiers_form (scope : Scope) (value : Literal) :
    Token.qualifiers (value.form.tokens scope) = [] := by
  induction value using Literal.induction with
  | scalar value hscalar =>
    rw [form_of_isScalar hscalar, Form.tokens]
    cases value <;> rfl
  | array elements elementType ih =>
    rw [form, Form.tokens_ofElements, Token.qualifiers_arrayTokens, formOfEach_eq_map,
      Form.tokensOfEach_eq_map, List.map_map, List.flatMap_map, List.flatMap_eq_nil_iff]
    exact ih

/-! ### Expressions -/

/-- The alias of the source at a position. -/
def Scope.shortName (scope : Scope) (position : UInt64) : String :=
  scope.aliases.getD position.toNat ""

theorem Scope.shortName_eq_getElem {scope : Scope} {position : UInt64}
    (hposition : position.toNat < scope.aliases.length) :
    scope.shortName position = scope.aliases[position.toNat] := by
  rw [shortName, List.getD_eq_getElem?_getD, List.getElem?_eq_getElem hposition, Option.getD_some]

namespace Expr

/-- The position to which an expression itself refers. -/
def position? : Expr → Option UInt64
  | field position _ => some position
  | source position => some position
  | _ => none

/-- The positions to which an expression refers, itself or in one of its parts. -/
def positions (expr : Expr) : List UInt64 :=
  expr.nodes.filterMap position?

theorem positions_field (position : UInt64) (name : String) :
    (field position name).positions = [position] := rfl

theorem positions_source (position : UInt64) : (source position).positions = [position] := rfl

theorem positions_literal (value : Literal) : (literal value).positions = [] := rfl

theorem positions_not (operand : Expr) : (not operand).positions = operand.positions := rfl

theorem positions_truncate (unit : Truncation) (operand : Expr) :
    (truncate unit operand).positions = operand.positions := rfl

theorem positions_equals (left right : Expr) (negated : Bool) :
    (equals left right negated).positions = left.positions ++ right.positions :=
  List.filterMap_append

theorem positions_isIn (value collection : Expr) :
    (isIn value collection).positions = value.positions ++ collection.positions :=
  List.filterMap_append

theorem positions_range (first last : Expr) :
    (range first last).positions = first.positions ++ last.positions :=
  List.filterMap_append

theorem positions_div (left right : Expr) :
    (div left right).positions = left.positions ++ right.positions :=
  List.filterMap_append

theorem filterMap_nodesOfEach (exprs : List Expr) :
    (nodesOfEach exprs).filterMap position? = exprs.flatMap positions := by
  induction exprs with
  | nil => rfl
  | cons expr rest ih => rw [nodesOfEach, List.filterMap_append, ih, List.flatMap_cons, positions]

theorem positions_call (name : String) (arguments : List Expr) :
    (call name arguments).positions = arguments.flatMap positions :=
  filterMap_nodesOfEach arguments

theorem positions_array (elements : List Expr) (elementType : ValueType) :
    (array elements elementType).positions = elements.flatMap positions :=
  filterMap_nodesOfEach elements

/-- Calls add no qualifiers to those of their arguments, whatever the catalog says. -/
theorem qualifiers_callForm (scope : Scope) (name : String) (arguments : List Form) :
    Token.qualifiers (((callRule name arguments.length).form arguments).tokens scope) =
      arguments.flatMap fun argument ↦ Token.qualifiers (argument.tokens scope) := by
  have hfunction (function : String) :
      Token.qualifiers ((Form.function function arguments).tokens scope) =
        arguments.flatMap fun argument ↦ Token.qualifiers (argument.tokens scope) := by
    rw [Form.tokens, Token.qualifiers_functionCall, Form.tokensOfEach_eq_map, List.flatMap_map]
  rcases callRule_cases name arguments with ⟨symbol, left, right, rfl, hrule⟩ |
    ⟨symbol, operand, rfl, hrule⟩ | ⟨bare, rfl, hrule⟩ | ⟨function, hrule⟩ | hrule
  · rw [hrule]
    simp (disch := rfl) [CallRule.form, Form.tokens, Token.qualifiers_append,
      Token.qualifiers_grouped, Token.qualifiers]
  · rw [hrule]
    simp (disch := rfl) [CallRule.form, Form.tokens, Token.qualifiers_cons,
      Token.qualifiers_grouped]
  · rw [hrule]
    rfl
  · rw [hrule]
    exact hfunction function
  · rw [hrule]
    exact hfunction name

/-- The qualifiers of expressions side by side, from those of each. -/
theorem mem_qualifiers_each {scope : Scope} {exprs : List Expr} {name : String}
    (hall : ∀ expr ∈ exprs, (name ∈ Token.qualifiers (expr.form.tokens scope) ↔
      name ∈ expr.positions.map scope.shortName)) :
    name ∈ (formOfEach exprs).flatMap (fun form ↦ Token.qualifiers (form.tokens scope)) ↔
      name ∈ (exprs.flatMap positions).map scope.shortName := by
  rw [formOfEach_eq_map, List.flatMap_map, List.map_flatMap, List.mem_flatMap, List.mem_flatMap]
  exact exists_congr fun expr ↦ and_congr_right fun hmem ↦ hall expr hmem

/-- The qualifiers of an expression are the aliases of the positions to which it refers. -/
theorem mem_qualifiers_form {scope : Scope} {expr : Expr} {name : String}
    (hrefers : ∀ node ∈ expr.nodes, node.RefersWithin scope)
    (hranges : expr.rangesInPlace = true) :
    name ∈ Token.qualifiers (expr.form.tokens scope) ↔
      name ∈ expr.positions.map scope.shortName := by
  induction expr using Expr.induction with
  | field position field =>
    rw [form, Form.tokens, Token.qualifiers_columnTokens, positions_field]
    rfl
  | source position =>
    obtain ⟨halias, hsource⟩ : (source position).RefersWithin scope := hrefers _ (by simp [nodes])
    rw [form, Form.tokens, Scope.source?_eq_ok halias hsource, positions_source, List.map_singleton,
      List.mem_singleton, Scope.shortName_eq_getElem halias]
    exact Token.mem_qualifiers_sourceTokens
  | not operand ih =>
    rw [nodes, List.forall_mem_cons] at hrefers
    rw [form, Form.tokens, Token.qualifiers_cons rfl, Token.qualifiers_cons rfl,
      Token.qualifiers_parenthesized, positions_not, ih hrefers.2 hranges]
  | equals left right negated ihleft ihright =>
    rw [nodes, List.forall_mem_cons, List.forall_mem_append] at hrefers
    rw [rangesInPlace, Bool.and_eq_true] at hranges
    rw [form, positions_equals, List.map_append, List.mem_append,
      ← ihleft hrefers.2.1 hranges.1, ← ihright hrefers.2.2 hranges.2, ← List.mem_append]
    split_ifs with hright hleft
    · rw [eq_null_of_isNullLiteral hright, form, Literal.qualifiers_form, List.append_nil,
        Form.tokens, Token.qualifiers_nullTest, Token.qualifiers_grouped]
    · rw [eq_null_of_isNullLiteral hleft, form, Literal.qualifiers_form, List.nil_append,
        Form.tokens, Token.qualifiers_nullTest, Token.qualifiers_grouped]
    · rw [Form.tokens, Token.qualifiers_equalityTest, Token.qualifiers_grouped,
        Token.qualifiers_grouped]
  | between value first last ihvalue ihfirst ihlast =>
    simp only [nodes, List.forall_mem_cons, List.forall_mem_append] at hrefers
    simp only [rangesInPlace, Bool.and_eq_true] at hranges
    obtain ⟨-, hvalue, -, hfirst, hlast⟩ := hrefers
    rw [form, Form.tokens, Token.qualifiers_betweenTest, Token.qualifiers_grouped,
      Token.qualifiers_grouped, Token.qualifiers_grouped, positions_isIn, positions_range,
      List.map_append, List.map_append, List.mem_append, List.mem_append, List.mem_append,
      List.mem_append, ihvalue hvalue hranges.1, ihfirst hfirst hranges.2.1,
      ihlast hlast hranges.2.2]
  | isIn value collection hrange ihvalue ihcollection =>
    rw [nodes, List.forall_mem_cons, List.forall_mem_append] at hrefers
    rw [rangesInPlace, Bool.and_eq_true] at hranges
    · rw [form, Form.tokens, Token.qualifiers_anyTest, Token.qualifiers_grouped, positions_isIn,
        List.map_append, List.mem_append, List.mem_append, ihvalue hrefers.2.1 hranges.1,
        ihcollection hrefers.2.2 hranges.2]
      exact fun first last heq ↦ hrange first last heq
    · exact fun first last heq ↦ hrange first last heq
  | range first last ihfirst ihlast => cases hranges
  | div left right ihleft ihright =>
    rw [nodes, List.forall_mem_cons, List.forall_mem_append] at hrefers
    rw [rangesInPlace, Bool.and_eq_true] at hranges
    rw [form, Form.tokens, Token.qualifiers_quotient, Token.qualifiers_grouped,
      Token.qualifiers_grouped, positions_div, List.map_append, List.mem_append, List.mem_append,
      ihleft hrefers.2.1 hranges.1, ihright hrefers.2.2 hranges.2]
  | truncate unit operand ih =>
    rw [nodes, List.forall_mem_cons] at hrefers
    rw [form, Form.tokens, Token.qualifiers_append rfl, Token.qualifiers_grouped,
      positions_truncate, ← ih hrefers.2 hranges]
    simp [Token.qualifiers]
  | call name arguments ih =>
    rw [nodes, List.forall_mem_cons, forall_mem_nodesOfEach] at hrefers
    rw [rangesInPlace, rangesInPlaceInEach_iff] at hranges
    have hlength : arguments.length = (formOfEach arguments).length := by
      rw [formOfEach_eq_map, List.length_map]
    rw [form, hlength, qualifiers_callForm, positions_call]
    exact mem_qualifiers_each fun argument hmem ↦
      ih argument hmem (hrefers.2 argument hmem) (hranges argument hmem)
  | literal value =>
    rw [form, Literal.qualifiers_form, positions_literal]
    simp
  | array elements elementType ih =>
    rw [nodes, List.forall_mem_cons, forall_mem_nodesOfEach] at hrefers
    rw [rangesInPlace, rangesInPlaceInEach_iff] at hranges
    rw [form, Form.tokens_ofElements, Token.qualifiers_arrayTokens, Form.tokensOfEach_eq_map,
      List.flatMap_map, positions_array]
    exact mem_qualifiers_each fun element hmem ↦
      ih element hmem (hrefers.2 element hmem) (hranges element hmem)

theorem mem_qualifiers_written {scope : Scope} {expr : Expr} (hcomposable : expr.Composable scope)
    {name : String} : name ∈ Token.qualifiers (expr.written scope) ↔
      name ∈ expr.positions.map scope.shortName :=
  mem_qualifiers_form hcomposable.2.1 hcomposable.2.2.2

end Expr

/-! ### Queries -/

/-- The qualifiers of an expression in a scope where it can be composed. -/
def Expr.qualifiers (scope : Scope) (expr : Expr) : List String :=
  Token.qualifiers (expr.written scope)

theorem qualifiers_clauseTokens (word : Keyword) (items : List (List Token)) :
    Token.qualifiers (clauseTokens word items) = items.flatMap Token.qualifiers := by
  rw [clauseTokens, Token.qualifiers_cons rfl, Token.qualifiers_cons rfl,
    Token.qualifiers_commaSeparated]

theorem qualifiers_conjunctionTokens (word : Keyword) (conditions : List (List Token)) :
    Token.qualifiers (conjunctionTokens word conditions) =
      conditions.flatMap Token.qualifiers := by
  rw [conjunctionTokens, Token.qualifiers_cons rfl, Token.qualifiers_cons rfl,
    Token.qualifiers_separatedBy, List.flatMap_map]
  · simp only [Token.qualifiers_parenthesized]
  · intro before after
    simp (disch := rfl) [Token.qualifiers_append, Token.qualifiers]

/-- The qualifiers of an optional clause are those of its expressions. -/
theorem qualifiers_clauseWritten? (scope : Scope) (exprs : List Expr)
    {line : List (List Token) → List Token}
    (hline : ∀ items, Token.qualifiers (line items) = items.flatMap Token.qualifiers) :
    (clauseWritten? scope exprs line).toList.flatMap Token.qualifiers =
      exprs.flatMap (Expr.qualifiers scope) := by
  unfold clauseWritten?
  split_ifs with hempty
  · rw [List.isEmpty_iff.mp hempty]
    rfl
  · simp only [Option.toList_some, List.flatMap_singleton, hline, List.flatMap_map]
    rfl

namespace Query

theorem qualifiers_distinctWritten (scope : Scope) (distinct : Option Distinct)
    (after : List Token) :
    Token.qualifiers (distinctWritten scope distinct ++ after) =
      (distinct.toList.flatMap Distinct.exprs).flatMap (Expr.qualifiers scope) ++
        Token.qualifiers after := by
  rcases distinct with - | (- | (- | ⟨first, rest⟩))
  · rfl
  · rfl
  · rfl
  · simp (disch := rfl) only [distinctWritten, List.append_assoc, List.cons_append,
      List.nil_append, Token.qualifiers_cons, Token.parenthesized, Token.qualifiers_append,
      Token.qualifiers_commaSeparated, Option.toList_some, List.flatMap_singleton, Distinct.exprs,
      List.flatMap_map]
    rfl

theorem qualifiers_selectWritten (query : Query) (scope : Scope) :
    Token.qualifiers (query.selectWritten scope) =
      (query.distinct.toList.flatMap Distinct.exprs ++ query.projection).flatMap
        (Expr.qualifiers scope) := by
  rw [selectWritten, List.append_assoc, List.cons_append, List.cons_append, List.nil_append,
    Token.qualifiers_cons rfl, Token.qualifiers_cons rfl, qualifiers_distinctWritten,
    Token.qualifiers_commaSeparated, List.flatMap_append, List.flatMap_map]
  rfl

theorem qualifiers_joinWritten (scope : Scope) (joined : (Source × String) × Join) :
    Token.qualifiers (joinWritten scope joined) = joined.2.on.qualifiers scope := by
  unfold joinWritten
  cases joined.2.kind <;>
    simp [JoinKind.tokens, aliasedTable, Token.qualifiers, Expr.qualifiers]

/-- The lines of the tables have the qualifiers of the join conditions. -/
theorem qualifiers_tablesWritten {query : Query}
    (hjoins : query.joins.length ≤ query.sources.length - 1) (scope : Scope) :
    (query.tablesWritten scope).flatMap Token.qualifiers =
      (query.joins.map Join.on).flatMap (Expr.qualifiers scope) := by
  have hfrom : (query.tables.head?.map fromWritten).toList.flatMap Token.qualifiers = [] := by
    cases query.tables.head? <;> rfl
  rw [tablesWritten, List.flatMap_append, hfrom, List.nil_append, ← map_snd_joined hjoins]
  simp only [List.flatMap_map, qualifiers_joinWritten]

theorem qualifiers_sortTerm (scope : Scope) (term : SortTerm) :
    Token.qualifiers (term.written scope) = term.expr.qualifiers scope := by
  unfold SortTerm.written
  split
  · rw [Token.qualifiers_append rfl]
    exact List.append_nil _
  · rfl

theorem qualifiers_orderByWritten? (query : Query) (scope : Scope) :
    (query.orderByWritten? scope).toList.flatMap Token.qualifiers =
      (query.orderBys.map SortTerm.expr).flatMap (Expr.qualifiers scope) := by
  unfold orderByWritten?
  split_ifs with hempty
  · rw [List.isEmpty_iff.mp hempty]
    rfl
  · simp only [Option.toList_some, List.flatMap_singleton, qualifiers_clauseTokens,
      List.flatMap_map, qualifiers_sortTerm]

theorem qualifiers_restWritten (query : Query) (scope : Scope) :
    (query.restWritten scope).flatMap Token.qualifiers =
      (query.wheres ++ query.groupBys ++ query.havings ++
        query.orderBys.map SortTerm.expr).flatMap (Expr.qualifiers scope) := by
  have hcount (word : Keyword) (rows : Option UInt64) :
      (rows.map (rowCountTokens word)).toList.flatMap Token.qualifiers = [] := by
    cases rows <;> rfl
  have hlock : (query.lock.map fun lock ↦ [lock.token]).toList.flatMap Token.qualifiers = [] := by
    rcases query.lock with - | (- | text) <;> rfl
  simp only [restWritten, whereWritten?, laterWritten, List.flatMap_append, hcount, hlock,
    List.append_nil, List.append_assoc,
    qualifiers_clauseWritten? scope _ (qualifiers_clauseTokens _),
    qualifiers_clauseWritten? scope _ (qualifiers_conjunctionTokens _), qualifiers_orderByWritten?]

/-- The qualifiers of a query are those of its expressions, in the same order. -/
theorem qualifiers_tokens_eq {query : Query} {limit : Nat} {tokens : List Token}
    (hok : query.tokens limit = .ok tokens) :
    Token.qualifiers tokens =
      query.spelledOut.exprs.flatMap (Expr.qualifiers (query.scope limit)) := by
  obtain ⟨rfl, -, hjoins⟩ := tokens_eq_of_ok hok
  have hnewline (before after : List Token) :
      Token.qualifiers (before ++ ([.newline] ++ after)) =
        Token.qualifiers before ++ Token.qualifiers after := Token.qualifiers_append rfl _ _
  rw [Token.qualifiers_separatedBy hnewline, linesWritten, List.flatMap_cons, List.flatMap_append,
    qualifiers_selectWritten, qualifiers_tablesWritten hjoins, qualifiers_restWritten]
  simp only [exprs, spelledOut, List.flatMap_append, List.append_assoc]

end Query

end SqlCompose
