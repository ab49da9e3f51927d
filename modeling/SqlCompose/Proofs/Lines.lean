import SqlCompose.Proofs.Clause

/-!
The lines of a statement. Splitting the tokens of a composed query at its line breaks gives back its
written lines (`Query.lines_tokens`), because expressions never contain a line break. They contain
none of the words `FROM`, `AS` and `JOIN` either, so the lines that bring in tables can be told from
the others, and the aliases that these lines declare are those of the first sources, one for the
table read from and one for each join (`Query.tableAliases_tokens`). The line of a clause is found
by its first word (`Query.clause?_from`, `Query.clause?_where`).
-/

set_option autoImplicit false
set_option relaxedAutoImplicit false

namespace SqlCompose

namespace Token

/-! ### Splitting into lines -/

/-- The parts of a token list between its line breaks. -/
def lines (tokens : List Token) : List (List Token) :=
  tokens.splitOn .newline

theorem separatedBy_eq_intercalate (separator : List Token) (items : List (List Token)) :
    separatedBy separator items = separator.intercalate items := by
  induction items with
  | nil => rfl
  | cons item rest ih =>
    cases rest with
    | nil => simp [separatedBy]
    | cons next others => rw [separatedBy, ih, List.intercalate_cons_cons]

/-- Lines without line breaks are found again. -/
theorem lines_separatedBy {written : List (List Token)} (hne : written ≠ [])
    (hlines : ∀ line ∈ written, .newline ∉ line) :
    lines (separatedBy [.newline] written) = written := by
  rw [separatedBy_eq_intercalate]
  exact List.splitOn_intercalate .newline hlines hne

/-- A line begins with a word. -/
def opensWith (word : Keyword) (line : List Token) : Bool :=
  line.head? == some (.keyword word)

/-- The first line that begins with a word. -/
def clause? (word : Keyword) (tokens : List Token) : Option (List Token) :=
  (lines tokens).find? (opensWith word)

/-! ### Table lines -/

/-- The names that are declared by `AS`. -/
def declaredAliases : List Token → List String
  | [] => []
  | .keyword .as :: .space :: .identifier name :: rest => name :: declaredAliases rest
  | _ :: rest => declaredAliases rest

/-- A line that brings in a table: it begins with `FROM` or contains `JOIN`. -/
def isTableLine (line : List Token) : Bool :=
  opensWith .from line || line.contains (.keyword .join)

/-- The aliases that are declared in the lines that bring in tables. -/
def tableAliases (tokens : List Token) : List String :=
  ((lines tokens).filter isTableLine).flatMap declaredAliases

/-! ### Inline tokens -/

/-- Neither a line break nor one of the words by which tables are brought in. -/
@[simp]
def isInline : Token → Bool
  | newline | keyword .from | keyword .as | keyword .join => false
  | _ => true

/-- All tokens are inline. -/
def Inline (tokens : List Token) : Prop :=
  ∀ token ∈ tokens, token.isInline = true

@[simp]
theorem inline_nil : Inline [] := by
  simp [Inline]

@[simp]
theorem inline_cons {token : Token} {rest : List Token} :
    Inline (token :: rest) ↔ token.isInline = true ∧ Inline rest :=
  List.forall_mem_cons

@[simp]
theorem inline_append {before after : List Token} :
    Inline (before ++ after) ↔ Inline before ∧ Inline after :=
  List.forall_mem_append

theorem inline_separatedBy {separator : List Token} (hseparator : Inline separator)
    {items : List (List Token)} (hitems : ∀ item ∈ items, Inline item) :
    Inline (separatedBy separator items) := by
  induction items with
  | nil => exact inline_nil
  | cons item rest ih =>
    rw [List.forall_mem_cons] at hitems
    cases rest with
    | nil => exact hitems.1
    | cons next others =>
      rw [separatedBy, inline_append, inline_append]
      exact ⟨⟨hitems.1, hseparator⟩, ih hitems.2⟩

theorem inline_commaSeparated {items : List (List Token)} (hitems : ∀ item ∈ items, Inline item) :
    Inline (commaSeparated items) :=
  inline_separatedBy (by simp) hitems

@[simp]
theorem inline_parenthesized {tokens : List Token} :
    Inline (parenthesized tokens) ↔ Inline tokens := by
  simp [parenthesized]

@[simp]
theorem inline_grouped {group : Bool} {tokens : List Token} :
    Inline (Expr.grouped group tokens) ↔ Inline tokens := by
  cases group with
  | false => rfl
  | true => exact inline_parenthesized

theorem inline_arrayTokens {elements : List (List Token)} {elementType : ValueType}
    (helements : ∀ element ∈ elements, Inline element) :
    Inline (arrayTokens elements elementType) := by
  have hlisted := inline_commaSeparated helements
  unfold arrayTokens
  split <;> simp [hlisted]

@[simp]
theorem inline_sourceTokens (source : Source) (shortName : String) :
    Inline (sourceTokens source shortName) := by
  unfold sourceTokens
  split
  · simp
  · refine inline_commaSeparated ?_
    simp [columnTokens]

theorem Inline.newline_not_mem {tokens : List Token} (hinline : Inline tokens) :
    .newline ∉ tokens :=
  fun hmem ↦ nomatch hinline _ hmem

theorem Inline.opensWith_from {line : List Token} (hinline : Inline line) :
    opensWith .from line = false := by
  have hhead : line.head? ≠ some (.keyword .from) := fun hfrom ↦
    nomatch hinline _ (List.mem_of_mem_head? hfrom)
  simp [opensWith, hhead]

theorem Inline.isTableLine_eq_false {line : List Token} (hinline : Inline line) :
    isTableLine line = false := by
  have hjoin : .keyword .join ∉ line := fun hmem ↦ nomatch hinline _ hmem
  simp [isTableLine, hinline.opensWith_from, hjoin]

theorem Inline.declaredAliases_eq_nil {tokens : List Token} (hinline : Inline tokens) :
    declaredAliases tokens = [] := by
  fun_induction declaredAliases tokens with
  | case1 => rfl
  | case2 name rest ih => exact nomatch hinline (.keyword .as) (by simp)
  | case3 first rest hlater ih => exact ih (inline_cons.mp hinline).2

end Token

/-! ### Expressions are inline -/

open Token

@[simp]
theorem Form.inline_tokens (scope : Scope) (form : Form) : Inline (form.tokens scope) := by
  induction form using Form.induction with
  | column position name => simp [tokens, columnTokens]
  | wholeSource position =>
    rw [tokens]
    split
    · exact inline_sourceTokens _ _
    · exact inline_nil
  | negation operand ih => simp [tokens, ih]
  | nullTest operand negated ih => cases negated <;> simp [tokens, Expr.nullTest, ih]
  | equality left right negated ihleft ihright =>
    cases negated <;> simp [tokens, Expr.equalityTest, ihleft, ihright]
  | membership value collection ihvalue ihcollection =>
    simp [tokens, Expr.anyTest, ihvalue, ihcollection]
  | between value first last ihvalue ihfirst ihlast =>
    simp [tokens, Expr.betweenTest, ihvalue, ihfirst, ihlast]
  | bareRange first last => exact inline_nil
  | quotient left right ihleft ihright => simp [tokens, Expr.quotient, ihleft, ihright]
  | truncation unit operand ih => simp [tokens, ih]
  | infixed symbol left right ihleft ihright => simp [tokens, ihleft, ihright]
  | signed symbol operand ih => simp [tokens, ih]
  | word name => simp [tokens]
  | function name arguments ih =>
    have harguments : Inline (commaSeparated (tokensOfEach scope arguments)) := by
      rw [tokensOfEach_eq_map]
      exact inline_commaSeparated (List.forall_mem_map.mpr ih)
    simp [tokens, Expr.functionCall, harguments]
  | scalar value hscalar => cases value <;> simp [tokens, Literal.scalarTokens]
  | array first rest ih =>
    have helements : Inline (commaSeparated (tokens scope first :: tokensOfEach scope rest)) := by
      rw [tokensOfEach_eq_map, ← List.map_cons]
      exact inline_commaSeparated (List.forall_mem_map.mpr ih)
    simp [tokens, helements]
  | emptyArray elementType => exact inline_arrayTokens (by simp)

@[simp]
theorem Expr.inline_written (scope : Scope) (expr : Expr) : Inline (expr.written scope) :=
  expr.form.inline_tokens scope

/-! ### Clauses -/

theorem inline_clauseTokens {word : Keyword} (hword : (keyword word).isInline = true)
    {items : List (List Token)} (hitems : ∀ item ∈ items, Inline item) :
    Inline (clauseTokens word items) := by
  rw [clauseTokens, inline_cons, inline_cons]
  exact ⟨hword, rfl, inline_commaSeparated hitems⟩

theorem inline_conjunctionTokens {word : Keyword} (hword : (keyword word).isInline = true)
    {conditions : List (List Token)} (hconditions : ∀ condition ∈ conditions, Inline condition) :
    Inline (conjunctionTokens word conditions) := by
  rw [conjunctionTokens, inline_cons, inline_cons]
  refine ⟨hword, rfl, inline_separatedBy (by simp) (List.forall_mem_map.mpr ?_)⟩
  exact fun condition hmem ↦ inline_parenthesized.mpr (hconditions condition hmem)

/-- What holds of a clause when it is there holds of it as an optional clause. -/
theorem forall_mem_clauseWritten? {scope : Scope} {exprs : List Expr}
    {line : List (List Token) → List Token} {condition : List Token → Prop}
    (hline : condition (line (exprs.map (Expr.written scope)))) :
    ∀ tokens ∈ (clauseWritten? scope exprs line).toList, condition tokens := by
  unfold clauseWritten?
  split
  · simp
  · rwa [Option.toList_some, List.forall_mem_singleton]

/-- An optional clause is inline when putting its expressions together is. -/
theorem inline_clauseWritten? (scope : Scope) (exprs : List Expr)
    {line : List (List Token) → List Token}
    (hline : ∀ items, (∀ item ∈ items, Inline item) → Inline (line items)) :
    ∀ tokens ∈ (clauseWritten? scope exprs line).toList, Inline tokens :=
  forall_mem_clauseWritten?
    (hline _ (List.forall_mem_map.mpr fun expr _ ↦ expr.inline_written scope))

namespace Query

theorem inline_selectWritten (query : Query) (scope : Scope) :
    Inline (query.selectWritten scope) := by
  have heach (exprs : List Expr) : Inline (commaSeparated (exprs.map (Expr.written scope))) :=
    inline_commaSeparated (List.forall_mem_map.mpr fun expr _ ↦ expr.inline_written scope)
  have hdistinct : Inline (distinctWritten scope query.distinct) := by
    rcases query.distinct with - | (- | (- | ⟨first, rest⟩))
    · exact inline_nil
    · simp [distinctWritten]
    · simp [distinctWritten]
    · simpa [distinctWritten] using heach (first :: rest)
  simp [selectWritten, hdistinct, heach]

theorem inline_sortTerm (scope : Scope) (term : SortTerm) : Inline (term.written scope) := by
  unfold SortTerm.written
  split <;> simp

theorem forall_mem_orderByWritten? {query : Query} {scope : Scope} {condition : List Token → Prop}
    (hline : condition (clauseTokens .orderBy (query.orderBys.map (SortTerm.written scope)))) :
    ∀ line ∈ (query.orderByWritten? scope).toList, condition line := by
  unfold orderByWritten?
  split
  · simp
  · rwa [Option.toList_some, List.forall_mem_singleton]

/-- The lines behind those of the tables are inline. -/
theorem inline_restWritten (query : Query) (scope : Scope) :
    ∀ line ∈ query.restWritten scope, Inline line := by
  have horder : ∀ line ∈ (query.orderByWritten? scope).toList, Inline line :=
    forall_mem_orderByWritten? (inline_clauseTokens rfl
      (List.forall_mem_map.mpr fun term _ ↦ inline_sortTerm scope term))
  have hlock : ∀ line ∈ (query.lock.map fun lock ↦ [lock.token]).toList, Inline line := by
    rcases query.lock with - | (- | text) <;> simp [Lock.token]
  simp only [restWritten, whereWritten?, laterWritten, List.forall_mem_append]
  refine ⟨?_, ⟨⟨⟨⟨?_, ?_⟩, horder⟩, ?_⟩, ?_⟩, hlock⟩
  · exact inline_clauseWritten? scope _ fun _ ↦ inline_conjunctionTokens rfl
  · exact inline_clauseWritten? scope _ fun _ ↦ inline_clauseTokens rfl
  · exact inline_clauseWritten? scope _ fun _ ↦ inline_conjunctionTokens rfl
  · simp [rowCountTokens]
  · simp [rowCountTokens]

/-! ### Lines of a query -/

/-- A table line has no line break, is recognized as such and declares one alias. -/
structure IsLineOf (shortName : String) (line : List Token) : Prop where
  newline_not_mem : .newline ∉ line
  isTableLine : isTableLine line = true
  declaredAliases : declaredAliases line = [shortName]

theorem isLineOf_fromWritten (table : Source × String) : IsLineOf table.2 (fromWritten table) where
  newline_not_mem := by simp [fromWritten, aliasedTable]
  isTableLine := rfl
  declaredAliases := rfl

theorem isLineOf_joinWritten (scope : Scope) (joined : (Source × String) × Join) :
    IsLineOf joined.1.2 (joinWritten scope joined) := by
  have hcondition := joined.2.on.inline_written scope
  constructor
  · cases hkind : joined.2.kind <;>
      simp [joinWritten, hkind, JoinKind.tokens, aliasedTable, hcondition.newline_not_mem]
  · simp [isTableLine, joinWritten]
  · cases hkind : joined.2.kind <;>
      simp [joinWritten, hkind, JoinKind.tokens, aliasedTable, Token.declaredAliases,
        hcondition.declaredAliases_eq_nil]

theorem exists_isLineOf (query : Query) (scope : Scope) :
    ∀ line ∈ query.tablesWritten scope, ∃ shortName, IsLineOf shortName line := by
  rw [tablesWritten, List.forall_mem_append, List.forall_mem_map]
  constructor
  · intro line hmem
    obtain ⟨table, -, rfl⟩ := Option.map_eq_some_iff.mp (Option.mem_toList.mp hmem)
    exact ⟨_, isLineOf_fromWritten table⟩
  · exact fun joined _ ↦ ⟨_, isLineOf_joinWritten scope joined⟩

/-- The lines of the tables declare the aliases of the first sources, one more than there are
joins. -/
theorem declaredAliases_tablesWritten (query : Query) (scope : Scope) :
    (query.tablesWritten scope).flatMap declaredAliases =
      query.aliases.take (query.joins.length + 1) := by
  have hfrom : (query.tables.head?.map fromWritten).toList.flatMap declaredAliases =
      (query.tables.take 1).map Prod.snd := by
    cases query.tables <;> rfl
  have hjoined : (query.joined.map (joinWritten scope)).flatMap declaredAliases =
      ((query.tables.drop 1).take query.joins.length).map Prod.snd := by
    rw [← map_fst_joined, List.map_map, List.flatMap_map, List.map_eq_flatMap]
    simp only [(isLineOf_joinWritten scope _).declaredAliases]
    rfl
  rw [tablesWritten, List.flatMap_append, hfrom, hjoined, ← List.map_append, Nat.add_comm,
    ← List.take_add, List.map_take, map_snd_tables]

/-- The lines of a composed query are its written lines. -/
theorem lines_tokens {query : Query} {limit : Nat} {tokens : List Token}
    (hok : query.tokens limit = .ok tokens) :
    Token.lines tokens = query.linesWritten (query.scope limit) := by
  obtain ⟨rfl, -⟩ := tokens_eq_of_ok hok
  refine lines_separatedBy (by simp [linesWritten]) ?_
  rw [linesWritten, List.forall_mem_cons, List.forall_mem_append]
  refine ⟨(query.inline_selectWritten _).newline_not_mem, fun line hmem ↦ ?_, fun line hmem ↦ ?_⟩
  · obtain ⟨shortName, hline⟩ := query.exists_isLineOf _ line hmem
    exact hline.newline_not_mem
  · exact (query.inline_restWritten _ line hmem).newline_not_mem

/-- The aliases that a composed query declares are those of the first sources, one more than there
are joins. -/
theorem tableAliases_tokens {query : Query} {limit : Nat} {tokens : List Token}
    (hok : query.tokens limit = .ok tokens) :
    tableAliases tokens = query.aliases.take (query.joins.length + 1) := by
  have hselect := (query.inline_selectWritten (query.scope limit)).isTableLine_eq_false
  have htables : (query.tablesWritten (query.scope limit)).filter Token.isTableLine =
      query.tablesWritten (query.scope limit) := by
    refine List.filter_eq_self.mpr fun line hmem ↦ ?_
    obtain ⟨shortName, hline⟩ := query.exists_isLineOf _ line hmem
    exact hline.isTableLine
  have hrest : (query.restWritten (query.scope limit)).filter Token.isTableLine = [] := by
    refine List.filter_eq_nil_iff.mpr fun line hmem ↦ ?_
    simp [(query.inline_restWritten _ line hmem).isTableLine_eq_false]
  rw [tableAliases, lines_tokens hok, linesWritten, List.filter_cons_of_neg (by simp [hselect]),
    List.filter_append, htables, hrest, List.append_nil, declaredAliases_tablesWritten]

/-! ### Clauses by their first word -/

/-- The clause that begins with `FROM` is the line of the table read from. -/
theorem clause?_from {query : Query} {limit : Nat} {tokens : List Token}
    (hok : query.tokens limit = .ok tokens) :
    clause? .from tokens = query.tables.head?.map fromWritten := by
  have hselect := (query.inline_selectWritten (query.scope limit)).opensWith_from
  rw [clause?, lines_tokens hok, linesWritten, List.find?_cons_of_neg (by simp [hselect]),
    tablesWritten, List.append_assoc, List.find?_append]
  cases htables : query.tables with
  | cons table rest => rfl
  | nil =>
    have hjoined : query.joined = [] := by
      rw [joined, htables]
      rfl
    rw [hjoined]
    refine List.find?_eq_none.mpr fun line hmem ↦ ?_
    simp [(query.inline_restWritten _ line hmem).opensWith_from]

theorem opensWith_tablesWritten (query : Query) (scope : Scope) :
    ∀ line ∈ query.tablesWritten scope, opensWith .where line = false := by
  rw [tablesWritten, List.forall_mem_append, List.forall_mem_map]
  constructor
  · intro line hmem
    obtain ⟨table, -, rfl⟩ := Option.map_eq_some_iff.mp (Option.mem_toList.mp hmem)
    rfl
  · intro joined _
    unfold joinWritten
    cases joined.2.kind <;> rfl

/-- No line behind the conditions on rows begins like them. -/
theorem opensWith_laterWritten (query : Query) (scope : Scope) :
    ∀ line ∈ query.laterWritten scope, opensWith .where line = false := by
  have hlock : ∀ line ∈ (query.lock.map fun lock ↦ [lock.token]).toList,
      opensWith .where line = false := by
    rcases query.lock with - | (- | text) <;> simp [Lock.token, opensWith]
  simp only [laterWritten, List.forall_mem_append]
  refine ⟨⟨⟨⟨⟨?_, ?_⟩, ?_⟩, ?_⟩, ?_⟩, hlock⟩
  · exact forall_mem_clauseWritten? rfl
  · exact forall_mem_clauseWritten? rfl
  · exact forall_mem_orderByWritten? rfl
  · simp [rowCountTokens, opensWith]
  · simp [rowCountTokens, opensWith]

/-- The clause that begins with `WHERE` is that of the conditions on rows. -/
theorem clause?_where {query : Query} {limit : Nat} {tokens : List Token}
    (hok : query.tokens limit = .ok tokens) :
    clause? .where tokens = query.whereWritten? (query.scope limit) := by
  have hnone {written : List (List Token)}
      (hwritten : ∀ line ∈ written, opensWith .where line = false) :
      written.find? (opensWith .where) = none :=
    List.find?_eq_none.mpr fun line hmem ↦ by simp [hwritten line hmem]
  have hwhere : (query.whereWritten? (query.scope limit)).toList.find? (opensWith .where) =
      query.whereWritten? (query.scope limit) := by
    unfold whereWritten? clauseWritten?
    split <;> rfl
  have hselect : opensWith .where (query.selectWritten (query.scope limit)) = false := rfl
  rw [clause?, lines_tokens hok, linesWritten, List.find?_cons_of_neg (by simp [hselect]),
    List.find?_append, hnone (query.opensWith_tablesWritten _), Option.none_or, restWritten,
    List.find?_append, hwhere, hnone (query.opensWith_laterWritten _), Option.or_none]

end Query

end SqlCompose
