import SqlCompose.Proofs.Lines
import SqlCompose.Proofs.Origin

/-!
Adding a join. All aliases are allocated anew when a query gets another source, but those of the
earlier sources stay what they were, because an alias depends on the tables before it alone. The
scope of the longer query therefore extends the scope of the shorter one, and an expression that can
be composed is written in the same way in every extension of its scope
(`Expr.written_eq_of_extends`).

A query that is composed and gets one more join thus keeps all its lines. The condition of the join
alone decides the outcome: if it fails, so does the query, for the same cause, and otherwise one
line is added behind those of the tables (`Query.tokens_join`).
-/

set_option autoImplicit false
set_option relaxedAutoImplicit false

namespace SqlCompose

/-! ### Aliases of more tables -/

namespace Alias

/-- The alias of a table that comes after the given aliases. -/
def next (earlier : List String) (table : String) : String :=
  candidate (seed table) (freeSuffix earlier (seed table))

theorem allocateAfter_append (earlier tables : List String) (table : String) :
    allocateAfter earlier (tables ++ [table]) =
      allocateAfter earlier tables ++ [next (earlier ++ allocateAfter earlier tables) table] := by
  induction tables generalizing earlier with
  | nil =>
    rw [allocateAfter, List.append_nil]
    rfl
  | cons first rest ih =>
    rw [List.cons_append, allocateAfter, ih, allocateAfter, List.cons_append, List.append_assoc,
      List.singleton_append]

/-- The aliases of the earlier tables stay, and one is added. -/
theorem allocate_append (tables : List String) (table : String) :
    allocate (tables ++ [table]) = allocate tables ++ [next (allocate tables) table] :=
  allocateAfter_append [] tables table

end Alias

/-! ### Extended scopes -/

/-- The larger scope has the sources and aliases of the smaller one in front, and the same limit. -/
structure Scope.Extends (larger scope : Scope) : Prop where
  sources : scope.sources <+: larger.sources
  aliases : scope.aliases <+: larger.aliases
  limit : larger.limit = scope.limit

/-- If the form is itself a reference to a source, then there is such a source. -/
def Form.RefersWithin (scope : Scope) : Form → Prop
  | column position _ => position.toNat < scope.aliases.length
  | wholeSource position =>
    position.toNat < scope.aliases.length ∧ position.toNat < scope.sources.length
  | _ => True

theorem Expr.refersWithin_form {scope : Scope} {expr : Expr} (hcomposable : expr.Composable scope) :
    ∀ node ∈ expr.form.nodes, node.RefersWithin scope := by
  have hplain (form : Form) (hform : form.isPlain = true) : form.RefersWithin scope := by
    cases form <;> first | exact trivial | cases hform
  refine Expr.forall_mem_nodes_form hplain hcomposable.2.2.2 fun origin horigin ↦ ?_
  cases origin with
  | field position name => exact hcomposable.2.1 _ horigin
  | source position => exact hcomposable.2.1 _ horigin
  | call name arguments =>
    change ((callRule name arguments.length).form (formOfEach arguments)).RefersWithin scope
    unfold CallRule.form
    split <;> exact trivial
  | literal value => exact fun _ _ _ ↦ trivial
  | _ => exact trivial

section Extension

variable {larger scope : Scope} (hextends : larger.Extends scope)

include hextends

namespace Form

/-- A reference that is within a scope is written in the same way in every extension. -/
theorem tokens_wholeSource_of_extends {position : UInt64}
    (hrefers : (wholeSource position).RefersWithin scope) :
    (wholeSource position).tokens larger = (wholeSource position).tokens scope := by
  have halias := Nat.lt_of_lt_of_le hrefers.1 hextends.aliases.length_le
  have hsource := Nat.lt_of_lt_of_le hrefers.2 hextends.sources.length_le
  rw [tokens, tokens, Scope.source?_eq_ok halias hsource, Scope.source?_eq_ok hrefers.1 hrefers.2,
    hextends.aliases.getElem hrefers.1, hextends.sources.getElem hrefers.2]

theorem tokens_of_extends (form : Form) (hrefers : ∀ node ∈ form.nodes, node.RefersWithin scope) :
    form.tokens larger = form.tokens scope := by
  induction form using Form.induction with
  | column position name =>
    have hposition : position.toNat < scope.aliases.length := hrefers _ (mem_nodes_self _)
    have hlonger := Nat.lt_of_lt_of_le hposition hextends.aliases.length_le
    rw [tokens, tokens, List.getD_eq_getElem?_getD, List.getD_eq_getElem?_getD,
      List.getElem?_eq_getElem hlonger, List.getElem?_eq_getElem hposition,
      hextends.aliases.getElem hposition]
  | wholeSource position =>
    exact tokens_wholeSource_of_extends hextends (hrefers _ (mem_nodes_self _))
  | bareRange | word | scalar | emptyArray => rfl
  | function name arguments ih =>
    rw [nodes, List.forall_mem_cons, forall_mem_nodesOfEach] at hrefers
    have heach : ∀ argument ∈ arguments, argument.tokens larger = argument.tokens scope :=
      fun argument hmem ↦ ih argument hmem (hrefers.2 argument hmem)
    rw [tokens, tokens, tokensOfEach_eq_map, tokensOfEach_eq_map, List.map_congr_left heach]
  | array first rest ih =>
    rw [nodes, List.forall_mem_cons, List.forall_mem_append, forall_mem_nodesOfEach] at hrefers
    rw [List.forall_mem_cons] at ih
    have heach : ∀ element ∈ rest, element.tokens larger = element.tokens scope :=
      fun element hmem ↦ ih.2 element hmem (hrefers.2.2 element hmem)
    rw [tokens, tokens, tokensOfEach_eq_map, tokensOfEach_eq_map, ih.1 hrefers.2.1,
      List.map_congr_left heach]
  | negation operand ih | nullTest operand negated ih | truncation unit operand ih
  | signed symbol operand ih =>
    rw [nodes, List.forall_mem_cons] at hrefers
    rw [tokens, tokens, ih hrefers.2]
  | equality left right negated ihleft ihright | membership left right ihleft ihright
  | quotient left right ihleft ihright | infixed symbol left right ihleft ihright =>
    rw [nodes, List.forall_mem_cons, List.forall_mem_append] at hrefers
    rw [tokens, tokens, ihleft hrefers.2.1, ihright hrefers.2.2]
  | between value first last ihvalue ihfirst ihlast =>
    rw [nodes, List.forall_mem_cons, List.forall_mem_append, List.forall_mem_append] at hrefers
    rw [tokens, tokens, ihvalue hrefers.2.1.1, ihfirst hrefers.2.1.2, ihlast hrefers.2.2]

end Form

namespace Expr

theorem Composable.of_extends {expr : Expr} (hcomposable : expr.Composable scope) :
    expr.Composable larger := by
  obtain ⟨hheight, hrefers, hrest⟩ := hcomposable
  refine ⟨hextends.limit ▸ hheight, fun node hnode ↦ ?_, hrest⟩
  have hwithin := hrefers node hnode
  have haliases := hextends.aliases.length_le
  have hsources := hextends.sources.length_le
  cases node with
  | field position name => exact Nat.lt_of_lt_of_le hwithin haliases
  | source position =>
    exact ⟨Nat.lt_of_lt_of_le hwithin.1 haliases, Nat.lt_of_lt_of_le hwithin.2 hsources⟩
  | _ => exact trivial

/-- An expression that can be composed is written in the same way in every extension. -/
theorem written_eq_of_extends {expr : Expr} (hcomposable : expr.Composable scope) :
    expr.written larger = expr.written scope :=
  expr.form.tokens_of_extends hextends (refersWithin_form hcomposable)

theorem map_written_of_extends {exprs : List Expr}
    (hcomposable : ∀ expr ∈ exprs, expr.Composable scope) :
    exprs.map (written larger) = exprs.map (written scope) :=
  List.map_congr_left fun expr hmem ↦ written_eq_of_extends hextends (hcomposable expr hmem)

end Expr

/-! ### Clauses in an extended scope -/

theorem clauseLine?_of_extends {exprs : List Expr}
    (hcomposable : ∀ expr ∈ exprs, expr.Composable scope)
    (line : List (List Token) → List Token) :
    clauseLine? larger exprs line = .ok (clauseWritten? scope exprs line) := by
  rw [(settles_clauseLine? larger exprs line).1 fun expr hmem ↦
      (hcomposable expr hmem).of_extends hextends,
    clauseWritten?, clauseWritten?, Expr.map_written_of_extends hextends hcomposable]

namespace Query

theorem selectLine_of_extends {query : Query}
    (hdistinct : ∀ expr ∈ query.distinct.toList.flatMap Distinct.exprs, expr.Composable scope)
    (hprojection : ∀ expr ∈ query.projection, expr.Composable scope) :
    query.selectLine larger = .ok (query.selectWritten scope) := by
  have hkept : distinctWritten larger query.distinct = distinctWritten scope query.distinct := by
    rcases hcase : query.distinct with - | (- | (- | ⟨first, rest⟩))
    · rfl
    · rfl
    · rfl
    · rw [hcase] at hdistinct
      have hexprs : ∀ expr ∈ first :: rest, expr.Composable scope := by
        simpa [Distinct.exprs] using hdistinct
      rw [distinctWritten, distinctWritten, Expr.map_written_of_extends hextends hexprs]
  rw [(query.settles_selectLine larger).1
      ⟨fun expr hmem ↦ (hdistinct expr hmem).of_extends hextends,
        fun expr hmem ↦ (hprojection expr hmem).of_extends hextends⟩,
    selectWritten, selectWritten, hkept, Expr.map_written_of_extends hextends hprojection]

theorem orderByLine?_of_extends {query : Query}
    (hcomposable : ∀ term ∈ query.orderBys, term.expr.Composable scope) :
    query.orderByLine? larger = .ok (query.orderByWritten? scope) := by
  have hterms : query.orderBys.map (SortTerm.written larger) =
      query.orderBys.map (SortTerm.written scope) := by
    refine List.map_congr_left fun term hmem ↦ ?_
    rw [SortTerm.written, SortTerm.written,
      Expr.written_eq_of_extends hextends (hcomposable term hmem)]
  rw [(query.settles_orderByLine? larger).1 fun term hmem ↦
      (hcomposable term hmem).of_extends hextends,
    orderByWritten?, orderByWritten?, hterms]

theorem joinWritten_of_extends (table : Source × String) {join : Join}
    (hcomposable : join.on.Composable scope) :
    joinWritten larger (table, join) = joinWritten scope (table, join) := by
  rw [joinWritten, joinWritten, Expr.written_eq_of_extends hextends hcomposable]

end Query

end Extension

/-! ### A query with one more join -/

namespace Query

theorem joinLines_append (scope : Scope) (position : Nat) (joins : List Join) (join : Join) :
    joinLines scope position (joins ++ [join]) = (do
      let lines ← joinLines scope position joins
      let line ← joinLine scope (position + joins.length) join
      pure (lines ++ [line])) := by
  induction joins generalizing position with
  | nil =>
    rw [List.nil_append, joinLines.eq_2, joinLines.eq_1, joinLines.eq_1]
    cases joinLine scope position join <;> rfl
  | cons first rest ih =>
    have hposition : position + 1 + rest.length = position + (first :: rest).length := by
      rw [List.length_cons]
      omega
    rw [List.cons_append, joinLines, joinLines, ih, hposition]
    cases joinLine scope position first with
    | error cause => rfl
    | ok line =>
      cases joinLines scope (position + 1) rest with
      | error cause => rfl
      | ok lines => cases joinLine scope (position + (first :: rest).length) join <;> rfl

section Join

variable (query : Query) (kind : JoinKind) (source : Source) (on : Expr)

/-- The alias of a source that is added to a query. -/
def nextAlias : String :=
  Alias.next query.aliases source.table

theorem aliases_join :
    (query.join kind source on).aliases = query.aliases ++ [query.nextAlias source] := by
  rw [aliases, join, List.map_append, List.map_singleton, Alias.allocate_append]
  rfl

theorem tables_join :
    (query.join kind source on).tables = query.tables ++ [(source, query.nextAlias source)] := by
  rw [tables, aliases_join]
  exact List.zip_append query.length_aliases.symm

theorem scope_join_extends (limit : Nat) :
    ((query.join kind source on).scope limit).Extends (query.scope limit) where
  sources := List.prefix_append _ _
  aliases := by
    change query.aliases <+: (query.join kind source on).aliases
    rw [aliases_join]
    exact List.prefix_append _ _
  limit := rfl

/-- The line that a join adds, from the tokens of its condition. -/
def addedLine (condition : List Token) : List Token :=
  kind.tokens ++ [.space, .keyword .join, .space] ++
    aliasedTable source (query.nextAlias source) ++ [.space, .keyword .on, .space] ++ condition

variable {query}

/-- The condition of a join that is added behind all others is composed in the extended scope. -/
theorem joinLine_join (hlength : query.sources.length = query.joins.length + 1) (limit : Nat) :
    joinLine ((query.join kind source on).scope limit) (1 + query.joins.length) ⟨kind, on⟩ = (do
      let condition ← on.tokens ((query.join kind source on).scope limit)
      pure (query.addedLine kind source condition)) := by
  have htable : (query.join kind source on).tables[1 + query.joins.length]? =
      some (source, query.nextAlias source) := by
    rw [tables_join, List.getElem?_append_right (by rw [length_tables]; omega), length_tables,
      hlength, Nat.add_comm, Nat.sub_self]
    rfl
  rw [joinLine, source?_eq, htable]
  rfl

/-- With one source more than joins, the new table has no join among the earlier ones. -/
theorem zip_joins_of_join (hlength : query.sources.length = query.joins.length + 1) :
    ((query.join kind source on).tables.drop 1).zip query.joins = query.joined := by
  have htables := query.length_tables
  have hdrop : (query.tables.drop 1).length = query.joins.length := by
    rw [List.length_drop, htables, hlength, Nat.add_sub_cancel]
  have hzip : (query.tables.drop 1 ++ [(source, query.nextAlias source)]).zip
      (query.joins ++ []) = query.joined ++ [] := List.zip_append hdrop
  rw [List.append_nil, List.append_nil] at hzip
  rw [tables_join, List.drop_append_of_le_length (by omega), hzip]

/-- The earlier joins are composed to the same lines in the extended scope. -/
theorem joinLines_of_join (hlength : query.sources.length = query.joins.length + 1) {limit : Nat}
    (hjoins : ∀ join ∈ query.joins, join.on.Composable (query.scope limit)) :
    joinLines ((query.join kind source on).scope limit) 1 query.joins =
      .ok (query.joined.map (joinWritten (query.scope limit))) := by
  have hextends := query.scope_join_extends kind source on limit
  have hcount : query.joins.length ≤ (query.join kind source on).tables.length - 1 := by
    rw [tables_join, List.length_append, length_tables]
    omega
  rw [((query.join kind source on).settles_joinLines limit 1 query.joins).1
      ⟨fun join hmem ↦ (hjoins join hmem).of_extends hextends, hcount⟩,
    zip_joins_of_join kind source on hlength]
  refine congrArg Except.ok (List.map_congr_left fun entry hmem ↦ ?_)
  exact joinWritten_of_extends hextends entry.1 (hjoins _ (List.of_mem_zip hmem).2)

theorem fromLine?_join (hlength : query.sources.length = query.joins.length + 1) (limit : Nat) :
    (query.join kind source on).fromLine? ((query.join kind source on).scope limit) =
      .ok (query.tables.head?.map fromWritten) := by
  have htables := query.length_tables
  rw [fromLine?_eq, tables_join]
  cases hcase : query.tables with
  | nil =>
    rw [hcase, List.length_nil] at htables
    omega
  | cons table rest => rfl

/-- The lines of a query with one more join, by its condition in the extended scope. -/
theorem lines_join (hlength : query.sources.length = query.joins.length + 1) {limit : Nat}
    (hcomposable : query.IsComposable limit) :
    (query.join kind source on).lines ((query.join kind source on).scope limit) = (do
      let condition ← on.tokens ((query.join kind source on).scope limit)
      pure (query.selectWritten (query.scope limit) ::
        (query.tablesWritten (query.scope limit) ++
          query.addedLine kind source condition :: query.restWritten (query.scope limit)))) := by
  have hextends := query.scope_join_extends kind source on limit
  obtain ⟨hdistinct, hprojection, hjoins, hwheres, hgroupBys, hhavings, horderBys⟩ :=
    hcomposable.each
  have hselect : (query.join kind source on).selectLine
      ((query.join kind source on).scope limit) = .ok (query.selectWritten (query.scope limit)) :=
    selectLine_of_extends hextends hdistinct hprojection
  have hordering : (query.join kind source on).orderByLine?
      ((query.join kind source on).scope limit) = .ok (query.orderByWritten? (query.scope limit)) :=
    orderByLine?_of_extends hextends horderBys
  have hlines : joinLines ((query.join kind source on).scope limit) 1
      (query.join kind source on).joins = (do
        let condition ← on.tokens ((query.join kind source on).scope limit)
        pure (query.joined.map (joinWritten (query.scope limit)) ++
          [query.addedLine kind source condition])) := by
    rw [join, joinLines_append, ← join, joinLines_of_join kind source on hlength hjoins,
      joinLine_join kind source on hlength]
    cases on.tokens ((query.join kind source on).scope limit) <;> rfl
  have hclause (exprs : List Expr) (line : List (List Token) → List Token)
      (heach : ∀ expr ∈ exprs, expr.Composable (query.scope limit)) :
      clauseLine? ((query.join kind source on).scope limit) exprs line =
        .ok (clauseWritten? (query.scope limit) exprs line) :=
    clauseLine?_of_extends hextends heach line
  rw [lines, hselect, fromLine?_join kind source on hlength, hlines, whereLine?,
    hclause (query.join kind source on).wheres _ hwheres,
    hclause (query.join kind source on).groupBys _ hgroupBys,
    hclause (query.join kind source on).havings _ hhavings, hordering]
  cases on.tokens ((query.join kind source on).scope limit) with
  | error cause => rfl
  | ok condition =>
    refine congrArg Except.ok ?_
    simp only [tablesWritten, restWritten, whereWritten?, laterWritten, List.append_assoc,
      List.singleton_append]
    rfl

end Join

/-- The condition of a further join decides what becomes of a query that is composed. If it fails,
the query fails for the same cause. Otherwise all lines stay, and that of the join is added behind
those of the tables. -/
theorem tokens_join {query : Query} {limit : Nat} {tokens : List Token}
    (hlength : query.sources.length = query.joins.length + 1)
    (hok : query.tokens limit = .ok tokens) (kind : JoinKind) (source : Source) (on : Expr) :
    ∃ shortName select tables rest,
      (query.join kind source on).aliases = query.aliases ++ [shortName] ∧
        Token.lines tokens = select :: (tables ++ rest) ∧
        (∀ line ∈ tables, Token.isTableLine line = true) ∧
        (∀ line ∈ select :: rest, Token.isTableLine line = false) ∧
        ((query.join kind source on).tokens limit).map Token.lines =
          (on.tokens ((query.join kind source on).scope limit)).map fun condition ↦
            select :: (tables ++ (kind.tokens ++ [.space, .keyword .join, .space] ++
              aliasedTable source shortName ++ [.space, .keyword .on, .space] ++ condition) ::
                rest) := by
  obtain ⟨-, hcomposable⟩ := tokens_eq_of_ok hok
  have hlines := lines_join kind source on hlength hcomposable
  refine ⟨query.nextAlias source, query.selectWritten (query.scope limit),
    query.tablesWritten (query.scope limit), query.restWritten (query.scope limit),
    query.aliases_join kind source on, lines_tokens hok, ?_, ?_, ?_⟩
  · intro line hmem
    obtain ⟨shortName, hline⟩ := query.exists_isLineOf _ line hmem
    exact hline.isTableLine
  · rw [List.forall_mem_cons]
    exact ⟨(query.inline_selectWritten _).isTableLine_eq_false,
      fun line hmem ↦ (query.inline_restWritten _ line hmem).isTableLine_eq_false⟩
  · cases hcondition : on.tokens ((query.join kind source on).scope limit) with
    | error cause =>
      rw [Query.tokens, hlines, hcondition]
      rfl
    | ok condition =>
      rw [hcondition] at hlines
      obtain ⟨hwritten, -⟩ := ((query.join kind source on).settles_lines limit).eq_of_ok hlines
      obtain ⟨extended, hjoined⟩ : ∃ extended,
          (query.join kind source on).tokens limit = .ok extended :=
        ⟨_, bind_eq_ok.mpr ⟨_, hlines, rfl⟩⟩
      rw [hjoined]
      exact congrArg Except.ok ((lines_tokens hjoined).trans hwritten.symm)

/-- A query of one table with a condition on rows, to which the table of its authors is joined. -/
theorem tokens_join_authors :
    let query : Query :=
      { sources := [.ofSchema ⟨"articles", ["title"], none⟩]
        wheres := [.isNull (.field 0 "deleted_at")] }
    let authors := Source.ofSchema ⟨"authors", [], none⟩
    let on := Expr.eq (.field 1 "id") (.field 0 "author_id")
    ∃ tokens extended select tables rest condition,
      query.tokens 512 = .ok tokens ∧ (query.join .left authors on).tokens 512 = .ok extended ∧
        Token.lines tokens = select :: (tables ++ rest) ∧
        Token.lines extended = select :: (tables ++ (JoinKind.left.tokens ++
          [.space, .keyword .join, .space] ++ aliasedTable authors "a1" ++
          [.space, .keyword .on, .space] ++ condition) :: rest) := by
  intro query authors on
  have hok : query.tokens 512 = .ok _ := rfl
  obtain ⟨shortName, select, tables, rest, haliases, hlines, -, -, hjoined⟩ :=
    tokens_join rfl hok .left authors on
  have hbefore : query.aliases = ["a0"] := by decide +kernel
  have hafter : (query.join .left authors on).aliases = ["a0", "a1"] := by decide +kernel
  rw [hbefore, hafter] at haliases
  cases haliases
  exact ⟨_, _, select, tables, rest, _, hok, rfl, hlines, Except.ok.inj hjoined⟩

end Query

end SqlCompose
