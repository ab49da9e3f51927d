import SqlCompose.Proofs.Legibility
import SqlCompose.Proofs.Statement

/-!
Statements as text. Whatever names, texts and bytes a statement contains, a lexer that reads its
text finds exactly the lexemes of its tokens, so no content can become structure. This holds for
every statement of the six kinds without a lock clause of its own wording, under one condition: no
sign stands directly before a function whose name is a symbol. Where one does, the text is read
differently, and two minus signs even open a comment.
-/

set_option autoImplicit false
set_option relaxedAutoImplicit false

namespace SqlCompose

open Token

variable {tolerant : Prop}

/-! ### Expressions and literals inside a statement -/

/-- The signs of an expression are apart from symbols, unless that is not asked for. -/
def Expr.IsClear (tolerant : Prop) (expr : Expr) : Prop :=
  ∀ node ∈ expr.form.nodes, tolerant ∨ node.keepsSignApart = true

/-- Every call in an expression is made by a name of the catalog or a plain one. -/
def Expr.CallsByName (expr : Expr) : Prop :=
  ∀ node ∈ expr.nodes, node.IsNamedCall

theorem Expr.legible_tokensBelow {scope : Scope} {depth : Nat} {expr : Expr} {tokens : List Token}
    (hok : expr.tokensBelow scope depth = .ok tokens) (hnames : expr.CallsByName) :
    Legible tolerant tokens ↔ expr.IsClear tolerant := by
  obtain ⟨rfl, hcomposable⟩ := (settles_tokensBelow scope expr depth).eq_of_ok hok
  exact Form.legible_tokens_iff scope expr.form (expr.isWritable_form hcomposable hnames)

theorem Expr.legible_tokensOfEach {scope : Scope} {depth : Nat} {exprs : List Expr}
    {written : List (List Token)} (hok : Expr.tokensOfEach scope depth exprs = .ok written)
    (hnames : ∀ expr ∈ exprs, expr.CallsByName) :
    (∀ tokens ∈ written, Legible tolerant tokens) ↔ ∀ expr ∈ exprs, expr.IsClear tolerant := by
  rw [Expr.tokensOfEach_eq_mapM] at hok
  exact forall_mem_mapM_iff hok fun expr hmem tokens htokens ↦
    Expr.legible_tokensBelow htokens (hnames expr hmem)

theorem Literal.keepsSignApart_form (value : Literal) :
    ∀ node ∈ value.form.nodes, node.keepsSignApart = true := by
  have hplain (form : Form) (hform : form.isPlain = true) : form.keepsSignApart = true := by
    cases form <;> first | rfl | cases hform
  exact Literal.forall_mem_nodes_form hplain fun _ _ _ ↦ rfl

theorem Literal.legible_tokens {limit : Nat} {value : Literal} {tokens : List Token}
    (hok : value.tokens limit = .ok tokens) : Legible tolerant tokens := by
  obtain ⟨rfl, hfinite⟩ := Literal.tokens_eq_of_ok ⟨[], [], limit⟩ hok
  rw [Form.legible_tokens_iff _ _ (Literal.isWritable_form hfinite)]
  exact fun node hnode ↦ Or.inr (value.keepsSignApart_form node hnode)

/-! ### Clauses -/

theorem legible_aliasedTable (source : Source) (shortName : String) :
    Legible tolerant (aliasedTable source shortName) := by
  simp (disch := rfl) [aliasedTable, legible_cons_separator_cons, IsLexical]

theorem legible_clauseTokens {word : Keyword} {items : List (List Token)} :
    Legible tolerant (clauseTokens word items) ↔ ∀ item ∈ items, Legible tolerant item := by
  rw [clauseTokens, legible_cons_separator_cons rfl, legible_commaSeparated]
  exact and_iff_right trivial

theorem legible_conjunctionTokens {word : Keyword} {conditions : List (List Token)} :
    Legible tolerant (conjunctionTokens word conditions) ↔
      ∀ condition ∈ conditions, Legible tolerant condition := by
  have hand (before after : List Token) :
      Legible tolerant (before ++ ([.space, .keyword .and, .space] ++ after)) ↔
        Legible tolerant before ∧ Legible tolerant after := by
    have hbetween : Legible tolerant [.keyword .and] := legible_singleton.mpr trivial
    exact legible_append_separators rfl rfl hbetween
  rw [conjunctionTokens, legible_cons_separator_cons rfl, legible_separatedBy hand,
    List.forall_mem_map]
  simp only [legible_parenthesized]
  exact and_iff_right trivial

theorem legible_assignmentTokens {column : String} {value : List Token} :
    Legible tolerant (assignmentTokens column value) ↔ Legible tolerant value := by
  simp (disch := rfl) [assignmentTokens, legible_cons_separator_cons, IsLexical]

/-- An optional clause is legible when its expressions are clear. -/
theorem legible_clauseLine? {scope : Scope} {exprs : List Expr}
    {line : List (List Token) → List Token} {written : Option (List Token)}
    (hline : ∀ items, Legible tolerant (line items) ↔ ∀ item ∈ items, Legible tolerant item)
    (hok : clauseLine? scope exprs line = .ok written)
    (hnames : ∀ expr ∈ exprs, expr.CallsByName) :
    (∀ tokens ∈ written.toList, Legible tolerant tokens) ↔
      ∀ expr ∈ exprs, expr.IsClear tolerant := by
  unfold clauseLine? at hok
  split_ifs at hok with hempty
  · rw [List.isEmpty_iff] at hempty
    cases hok
    simp [hempty]
  · obtain ⟨items, hitems, hpure⟩ := bind_eq_ok.mp hok
    cases hpure
    rw [Option.toList_some, List.forall_mem_singleton, hline]
    exact Expr.legible_tokensOfEach hitems hnames

/-! ### Queries -/

theorem legible_distinctTokens {scope : Scope} {distinct : Option Distinct} {tokens : List Token}
    (hok : Query.distinctTokens scope distinct = .ok tokens)
    (hnames : ∀ expr ∈ distinct.toList.flatMap Distinct.exprs, expr.CallsByName)
    (after : List Token) :
    Legible tolerant (tokens ++ after) ↔
      (∀ expr ∈ distinct.toList.flatMap Distinct.exprs, expr.IsClear tolerant) ∧
        Legible tolerant after := by
  have hrows : Legible tolerant ([.keyword .distinct, .space] ++ after) ↔
      Legible tolerant after := by
    simp (disch := rfl) [legible_cons_separator_cons, IsLexical]
  rcases distinct with - | (- | (- | ⟨first, rest⟩))
  · cases hok
    simp
  · cases hok
    simpa [Distinct.exprs] using hrows
  · cases hok
    simpa [Distinct.exprs] using hrows
  · obtain ⟨items, hitems, hpure⟩ := bind_eq_ok.mp hok
    cases hpure
    have heach : (∀ item ∈ items, Legible tolerant item) ↔
        ∀ expr ∈ first :: rest, expr.IsClear tolerant :=
      Expr.legible_tokensOfEach hitems (by simpa [Distinct.exprs] using hnames)
    simp (disch := rfl) [legible_cons_separator_cons, IsLexical, parenthesized,
      legible_append_separator, legible_separator_cons, legible_commaSeparated, heach,
      Distinct.exprs]

theorem legible_projectionTokens {scope : Scope} {exprs : List Expr} {tokens : List Token}
    (hok : Query.projectionTokens scope exprs = .ok tokens)
    (hnames : ∀ expr ∈ exprs, expr.CallsByName) :
    Legible tolerant tokens ↔ ∀ expr ∈ exprs, expr.IsClear tolerant := by
  unfold Query.projectionTokens at hok
  split_ifs at hok with hempty
  · rw [List.isEmpty_iff] at hempty
    have hnone : (Expr.source 0).CallsByName := by
      simp [Expr.CallsByName, Expr.nodes, Expr.IsNamedCall]
    rw [Expr.legible_tokensBelow hok hnone, hempty]
    simp [Expr.IsClear, Expr.form, Form.nodes, Form.keepsSignApart]
  · obtain ⟨items, hitems, hpure⟩ := bind_eq_ok.mp hok
    cases hpure
    rw [legible_commaSeparated]
    exact Expr.legible_tokensOfEach hitems hnames

theorem legible_joinLines {scope : Scope} {position : Nat} {joins : List Join}
    {lines : List (List Token)} (hok : Query.joinLines scope position joins = .ok lines)
    (hnames : ∀ join ∈ joins, join.on.CallsByName) :
    (∀ line ∈ lines, Legible tolerant line) ↔ ∀ join ∈ joins, join.on.IsClear tolerant := by
  induction joins generalizing position lines with
  | nil =>
    cases hok
    simp
  | cons join rest ih =>
    rw [List.forall_mem_cons] at hnames
    obtain ⟨line, hline, hothers⟩ := bind_eq_ok.mp hok
    obtain ⟨others, hrest, hpure⟩ := bind_eq_ok.mp hothers
    cases hpure
    obtain ⟨⟨source, shortName⟩, -, hcondition⟩ := bind_eq_ok.mp hline
    obtain ⟨condition, hon, hpure⟩ := bind_eq_ok.mp hcondition
    cases hpure
    have hjoin : Legible tolerant (join.kind.tokens ++ [.space, .keyword .join, .space] ++
        aliasedTable source shortName ++ [.space, .keyword .on, .space] ++ condition) ↔
        join.on.IsClear tolerant := by
      rw [← Expr.legible_tokensBelow hon hnames.1]
      have hkind : Legible tolerant join.kind.tokens := by
        cases join.kind <;>
          simp (disch := rfl) [JoinKind.tokens, legible_cons_separator_cons, IsLexical]
      simp (disch := rfl) [legible_append_separator, legible_cons_separator_cons, IsLexical, hkind,
        legible_aliasedTable]
    rw [List.forall_mem_cons, List.forall_mem_cons, hjoin, ih hrest hnames.2]

theorem legible_sortTerm {scope : Scope} {term : SortTerm} {tokens : List Token}
    (hok : term.tokens scope = .ok tokens) (hnames : term.expr.CallsByName) :
    Legible tolerant tokens ↔ term.expr.IsClear tolerant := by
  obtain ⟨written, hwritten, hpure⟩ := bind_eq_ok.mp hok
  cases hpure
  rw [← Expr.legible_tokensBelow hwritten hnames]
  split
  · simp (disch := rfl) [legible_append_separator, IsLexical]
  · rfl

theorem legible_orderByLine? {query : Query} {scope : Scope} {written : Option (List Token)}
    (hok : query.orderByLine? scope = .ok written)
    (hnames : ∀ term ∈ query.orderBys, term.expr.CallsByName) :
    (∀ tokens ∈ written.toList, Legible tolerant tokens) ↔
      ∀ term ∈ query.orderBys, term.expr.IsClear tolerant := by
  unfold Query.orderByLine? at hok
  split_ifs at hok with hempty
  · rw [List.isEmpty_iff] at hempty
    cases hok
    simp [hempty]
  · obtain ⟨items, hitems, hpure⟩ := bind_eq_ok.mp hok
    cases hpure
    rw [Option.toList_some, List.forall_mem_singleton, legible_clauseTokens]
    exact forall_mem_mapM_iff hitems fun term hmem tokens htokens ↦
      legible_sortTerm htokens (hnames term hmem)

theorem legible_fromLine? {query : Query} {scope : Scope} {written : Option (List Token)}
    (hok : query.fromLine? scope = .ok written) :
    ∀ tokens ∈ written.toList, Legible tolerant tokens := by
  unfold Query.fromLine? at hok
  split at hok
  · cases hok
    simp
  · obtain ⟨⟨source, shortName⟩, -, hpure⟩ := bind_eq_ok.mp hok
    cases hpure
    simp (disch := rfl) [legible_cons_separator_cons, IsLexical, legible_aliasedTable]

theorem legible_rowCountTokens (word : Keyword) (rows : UInt64) :
    Legible tolerant (rowCountTokens word rows) := by
  simp (disch := rfl) [rowCountTokens, legible_cons_separator_cons, IsLexical]

/-- A query without a lock clause of its own wording is legible exactly when its expressions are
clear. -/
theorem legible_query {query : Query} {limit : Nat} {tokens : List Token}
    (hok : query.tokens limit = .ok tokens) (hlock : ∀ text, query.lock ≠ some (.clause text))
    (hnames : ∀ expr ∈ query.exprs, expr.CallsByName) :
    Legible tolerant tokens ↔ ∀ expr ∈ query.exprs, expr.IsClear tolerant := by
  simp only [Query.exprs, List.forall_mem_append, List.forall_mem_map, and_assoc] at hnames ⊢
  obtain ⟨hdistinct, hselect, hjoins, hwheres, hgroups, hhavings, horders⟩ := hnames
  obtain ⟨lines, hlines, hpure⟩ := bind_eq_ok.mp hok
  cases hpure
  obtain ⟨select, hselectLine, hlines⟩ := bind_eq_ok.mp hlines
  obtain ⟨source, hsource, hlines⟩ := bind_eq_ok.mp hlines
  obtain ⟨joins, hjoinLines, hlines⟩ := bind_eq_ok.mp hlines
  obtain ⟨wheres, hwhereLine, hlines⟩ := bind_eq_ok.mp hlines
  obtain ⟨groups, hgroupLine, hlines⟩ := bind_eq_ok.mp hlines
  obtain ⟨havings, hhavingLine, hlines⟩ := bind_eq_ok.mp hlines
  obtain ⟨orders, horderLine, hlines⟩ := bind_eq_ok.mp hlines
  cases hlines
  obtain ⟨distinct, hdistinctTokens, hselectLine⟩ := bind_eq_ok.mp hselectLine
  obtain ⟨projection, hprojection, hselectLine⟩ := bind_eq_ok.mp hselectLine
  cases hselectLine
  have hcounts (word : Keyword) (rows : Option UInt64) :
      ∀ line ∈ (rows.map (rowCountTokens word)).toList, Legible tolerant line := by
    cases rows <;> simp [legible_rowCountTokens]
  have hlockLine : ∀ line ∈ (query.lock.map fun lock ↦ [lock.token]).toList,
      Legible tolerant line := by
    cases hq : query.lock with
    | none => simp
    | some lock =>
      cases lock with
      | forUpdate => simp [Lock.token, IsLexical]
      | clause text => exact absurd hq (hlock text)
  have hnewline (before after : List Token) :
      Legible tolerant (before ++ ([.newline] ++ after)) ↔
        Legible tolerant before ∧ Legible tolerant after :=
    legible_append_separator rfl
  rw [legible_separatedBy hnewline]
  simp only [List.forall_mem_cons, List.forall_mem_append, List.cons_append, List.nil_append,
    List.append_assoc]
  rw [legible_cons_separator_cons rfl, legible_distinctTokens hdistinctTokens hdistinct,
    legible_projectionTokens hprojection hselect, legible_joinLines hjoinLines hjoins,
    legible_clauseLine? (fun _ ↦ legible_conjunctionTokens) hwhereLine hwheres,
    legible_clauseLine? (fun _ ↦ legible_clauseTokens) hgroupLine hgroups,
    legible_clauseLine? (fun _ ↦ legible_conjunctionTokens) hhavingLine hhavings,
    legible_orderByLine? horderLine horders]
  have hfrom : ∀ line ∈ source.toList, Legible tolerant line := legible_fromLine? hsource
  have hlimit := hcounts .limit query.limit
  have hoffset := hcounts .offset query.offset
  have hkeyword : (keyword .select).IsLexical := trivial
  tauto

/-! ### Statements about rows -/

theorem legible_bulkCondition {scope : Scope} {conditions : List Expr} {tokens : List Token}
    (hok : bulkCondition scope conditions = .ok tokens)
    (hnames : ∀ expr ∈ conditions, expr.CallsByName) (before : List Token) :
    Legible tolerant (before ++ tokens) ↔
      Legible tolerant before ∧ ∀ expr ∈ conditions, expr.IsClear tolerant := by
  obtain ⟨line, hline, hpure⟩ := bind_eq_ok.mp hok
  rw [← legible_clauseLine? (fun _ ↦ legible_conjunctionTokens) hline hnames]
  cases line with
  | none =>
    cases hpure
    simp
  | some line =>
    cases hpure
    simp (disch := rfl) [legible_append_separator]

theorem legible_updateAll {update : UpdateAll} {limit : Nat} {tokens : List Token}
    (hok : update.tokens limit = .ok tokens)
    (hnames : ∀ expr ∈ update.values.map Prod.snd ++ update.query.wheres, expr.CallsByName) :
    Legible tolerant tokens ↔
      ∀ expr ∈ update.values.map Prod.snd ++ update.query.wheres, expr.IsClear tolerant := by
  rw [List.forall_mem_append, List.forall_mem_map] at hnames ⊢
  obtain ⟨⟨source, shortName⟩, -, hok⟩ := bind_eq_ok.mp hok
  dsimp only at hok
  split at hok
  · cases hok
  · obtain ⟨assignments, hassignments, hok⟩ := bind_eq_ok.mp hok
    obtain ⟨condition, hcondition, hpure⟩ := bind_eq_ok.mp hok
    cases hpure
    have heach : (∀ assignment ∈ assignments, Legible tolerant assignment) ↔
        ∀ value ∈ update.values, value.2.IsClear tolerant := by
      refine forall_mem_mapM_iff hassignments fun value hmem tokens htokens ↦ ?_
      obtain ⟨written, hwritten, hpure⟩ := bind_eq_ok.mp htokens
      cases hpure
      rw [legible_assignmentTokens, Expr.legible_tokensBelow hwritten (hnames.1 value hmem)]
    rw [legible_bulkCondition hcondition hnames.2, ← heach]
    simp (disch := rfl) [legible_cons_separator_cons, legible_append_separator, IsLexical,
      legible_aliasedTable, legible_commaSeparated]

theorem legible_deleteAll {delete : DeleteAll} {limit : Nat} {tokens : List Token}
    (hok : delete.tokens limit = .ok tokens)
    (hnames : ∀ expr ∈ delete.query.wheres, expr.CallsByName) :
    Legible tolerant tokens ↔ ∀ expr ∈ delete.query.wheres, expr.IsClear tolerant := by
  obtain ⟨⟨source, shortName⟩, -, hok⟩ := bind_eq_ok.mp hok
  obtain ⟨condition, hcondition, hpure⟩ := bind_eq_ok.mp hok
  cases hpure
  rw [legible_bulkCondition hcondition hnames]
  simp (disch := rfl) [legible_cons_separator_cons, IsLexical, legible_aliasedTable]

theorem legible_keyCondition {limit : Nat} {column : String} {value : Literal}
    {tokens : List Token} (hok : keyCondition limit column value = .ok tokens) :
    Legible tolerant tokens := by
  obtain ⟨written, hwritten, hpure⟩ := bind_eq_ok.mp hok
  cases hpure
  simp (disch := rfl) [legible_cons_separator_cons, IsLexical, legible_assignmentTokens,
    Literal.legible_tokens hwritten]

theorem legible_deleteOne {delete : DeleteOne} {limit : Nat} {tokens : List Token}
    (hok : delete.tokens limit = .ok tokens) : Legible tolerant tokens := by
  obtain ⟨condition, hcondition, hpure⟩ := bind_eq_ok.mp hok
  cases hpure
  simp (disch := rfl) [legible_cons_separator_cons, IsLexical, legible_keyCondition hcondition]

theorem legible_updateOne {update : UpdateOne} {limit : Nat} {tokens : List Token}
    (hok : update.tokens limit = .ok tokens) : Legible tolerant tokens := by
  unfold UpdateOne.tokens at hok
  split at hok
  · cases hok
  · obtain ⟨assignments, hassignments, hok⟩ := bind_eq_ok.mp hok
    obtain ⟨condition, hcondition, hpure⟩ := bind_eq_ok.mp hok
    cases hpure
    have heach : ∀ assignment ∈ assignments, Legible tolerant assignment := by
      refine forall_mem_of_mapM hassignments fun field _ tokens htokens ↦ ?_
      obtain ⟨written, hwritten, hpure⟩ := bind_eq_ok.mp htokens
      cases hpure
      rw [legible_assignmentTokens]
      exact Literal.legible_tokens hwritten
    simp (disch := rfl) [legible_cons_separator_cons, legible_append_separator, IsLexical,
      legible_commaSeparated, legible_keyCondition hcondition]
    exact heach

theorem legible_rowTokens {limit : Nat} {fields : List (String × Literal)} {tokens : List Token}
    (hok : Insert.rowTokens limit fields = .ok tokens) : Legible tolerant tokens := by
  unfold Insert.rowTokens at hok
  split at hok
  · cases hok
    simp (disch := rfl) [legible_cons_separator_cons, IsLexical]
  · obtain ⟨values, hvalues, hpure⟩ := bind_eq_ok.mp hok
    cases hpure
    have heach : ∀ value ∈ values, Legible tolerant value :=
      forall_mem_of_mapM hvalues fun field _ tokens htokens ↦ Literal.legible_tokens htokens
    have hcolumns : Legible tolerant (parenthesized (commaSeparated
        (fields.map fun field ↦ [Token.identifier field.1]))) := by
      rw [legible_parenthesized, legible_commaSeparated, List.forall_mem_map]
      exact fun field _ ↦ legible_singleton.mpr trivial
    have hlisted : Legible tolerant (parenthesized (commaSeparated values)) := by
      rwa [legible_parenthesized, legible_commaSeparated]
    simp only [List.append_assoc, List.cons_append, List.nil_append]
    rw [legible_append_separator rfl, legible_cons_separator_cons rfl]
    exact ⟨hcolumns, trivial, hlisted⟩

theorem legible_insert {insert : Insert} {limit : Nat} {tokens : List Token}
    (hok : insert.tokens limit = .ok tokens) : Legible tolerant tokens := by
  obtain ⟨row, hrow, hpure⟩ := bind_eq_ok.mp hok
  cases hpure
  have hreturning (before : List Token) (hbefore : Legible tolerant before) :
      Legible tolerant (before ++ Insert.returningTokens insert.returning) := by
    unfold Insert.returningTokens
    split
    · rwa [List.append_nil]
    · simp only [List.cons_append, List.nil_append]
      rw [legible_append_separator rfl, legible_cons_separator_cons rfl, legible_commaSeparated,
        List.forall_mem_map]
      exact ⟨hbefore, trivial, fun column _ ↦ legible_singleton.mpr trivial⟩
  refine hreturning _ ?_
  simp (disch := rfl) [legible_cons_separator_cons, IsLexical, legible_rowTokens hrow]

/-- Any statement without a lock clause of its own wording is legible exactly when its expressions
are clear. -/
theorem Statement.legible_tokens_iff {statement : Statement} {limit : Nat} {tokens : List Token}
    (hok : statement.tokens limit = .ok tokens) (hlock : statement.lockClause? = none)
    (hnames : ∀ expr ∈ statement.exprs, expr.CallsByName) :
    Legible tolerant tokens ↔ ∀ expr ∈ statement.exprs, expr.IsClear tolerant := by
  cases statement with
  | select query =>
    refine legible_query hok (fun text htext ↦ ?_) hnames
    simp [lockClause?, htext] at hlock
  | insert row => exact iff_of_true (legible_insert hok) (by simp [exprs])
  | updateOne update => exact iff_of_true (legible_updateOne hok) (by simp [exprs])
  | updateAll update => exact legible_updateAll hok hnames
  | deleteOne delete => exact iff_of_true (legible_deleteOne hok) (by simp [exprs])
  | deleteAll delete => exact legible_deleteAll hok hnames

/-! ### Main result -/

theorem Lexeme.comment_not_mem_ofNumber (text content : List Char) :
    .comment content ∉ Lexeme.ofNumber text := by
  unfold Lexeme.ofNumber
  split <;> simp

theorem ValueType.comment_not_mem_lexemes (type : ValueType) (content : List Char) :
    .comment content ∉ type.lexemes := by
  induction type with
  | array element ih => simp [lexemes, ih]
  | _ => simp [lexemes]

/-- No lexical token stands for a comment. -/
theorem Token.comment_not_mem_lexemes {token : Token} (hlexical : token.IsLexical)
    (content : List Char) : .comment content ∉ token.lexemes := by
  have hverbatim (text : List Char) : .comment content ≠ Lexeme.ofVerbatim text := by
    unfold Lexeme.ofVerbatim
    split <;> simp
  cases token with
  | keyword heading => cases heading <;> simp [lexemes, Keyword.lexemes]
  | operator symbol => simp [lexemes, hverbatim]
  | functionName name => simp [lexemes, hverbatim]
  | integer value => exact Lexeme.comment_not_mem_ofNumber _ _
  | float value => exact Lexeme.comment_not_mem_ofNumber _ _
  | decimal value => exact Lexeme.comment_not_mem_ofNumber _ _
  | typeName type => exact type.comment_not_mem_lexemes content
  | verbatim content => exact absurd hlexical id
  | _ => simp [lexemes]

/-- The text of a statement is read as the lexemes of its tokens exactly when no sign in it stands
before a symbol. Every name, text and byte sequence is then one quoted lexeme with its own content,
and no comment is among the lexemes. -/
theorem Statement.lexemes_text_iff {compiler : Compiler} (hdialect : compiler.dialect = .postgres)
    {statement : Statement} (hlock : statement.lockClause? = none)
    (hnames : ∀ expr ∈ statement.exprs, expr.CallsByName) {text : String}
    (htext : (statement.compile compiler).result = .ok text) :
    ∃ tokens, statement.tokens compiler.limit = .ok tokens ∧
      text = Dialect.postgres.render tokens ∧
      (lexemes text.toList = tokens.flatMap Token.lexemes ↔
        ∀ expr ∈ statement.exprs, expr.form.SignsApart) ∧
      ∀ content, .comment content ∉ tokens.flatMap Token.lexemes := by
  obtain ⟨tokens, htokens, hrender⟩ := Statement.compile_eq_ok htext
  rw [hdialect] at hrender
  have hlegible : Legible True tokens :=
    (Statement.legible_tokens_iff htokens hlock hnames).mpr fun _ _ _ _ ↦ Or.inl trivial
  refine ⟨tokens, htokens, hrender, ?_, fun content hmem ↦ ?_⟩
  · rw [hrender, lexemes_render_iff hlegible,
      Statement.legible_tokens_iff htokens hlock hnames]
    simp only [Expr.IsClear, false_or, Form.SignsApart]
  · obtain ⟨token, htoken, hcomment⟩ := List.mem_flatMap.mp hmem
    exact Token.comment_not_mem_lexemes (hlegible.1 token htoken) content hcomment

/-- The query that selects one expression from the table of users. -/
def Query.ofUsers (expr : Expr) : Query :=
  { sources := [.ofSchema ⟨"users", [], none⟩], select := [expr] }

/-- A text with quotation marks and dashes, and a sign before a negative number. -/
theorem Statement.lexemes_text_iff_quotation :
    let expr : Expr := .call "coalesce"
      [.call "-" [.literal (.integer (-1))], .literal (.text "'; -- \"x")]
    let statement := Statement.select (Query.ofUsers expr)
    let text := "SELECT coalesce(-(-1), '''; -- \"x')\nFROM \"users\" AS \"u0\""
    expr.CallsByName ∧ (statement.compile {}).result = .ok text ∧
      ∃ tokens, statement.tokens 512 = .ok tokens ∧ text = Dialect.postgres.render tokens ∧
        (lexemes text.toList = tokens.flatMap Token.lexemes ↔
          ∀ expr ∈ statement.exprs, expr.form.SignsApart) ∧
        ∀ content, .comment content ∉ tokens.flatMap Token.lexemes := by
  intro expr statement text
  have hplain : IsPlainName "coalesce" := by
    unfold IsPlainName
    decide
  have hnames : expr.CallsByName := by
    simp [expr, Expr.CallsByName, Expr.nodes, Expr.nodesOfEach, Expr.IsNamedCall, IsCallName,
      catalog, hplain]
  have hall : ∀ expr ∈ statement.exprs, expr.CallsByName := by
    simpa [statement, Statement.exprs, Query.exprs, Query.ofUsers] using hnames
  have htext : (statement.compile {}).result = .ok text := rfl
  exact ⟨hnames, htext, Statement.lexemes_text_iff rfl rfl hall htext⟩

/-- A minus sign before a call of the same operator with three arguments opens a comment. -/
theorem Statement.comment_mem_lexemes_doubled_minus :
    let expr : Expr := .call "-" [.call "-"
      [.literal (.integer 1), .literal (.integer 2), .literal (.integer 3)]]
    let statement := Statement.select (Query.ofUsers expr)
    let text := "SELECT --(1, 2, 3)\nFROM \"users\" AS \"u0\""
    expr.CallsByName ∧ (statement.compile {}).result = .ok text ∧
      .comment "--(1, 2, 3)".toList ∈ lexemes text.toList ∧
      ∃ tokens, statement.tokens 512 = .ok tokens ∧
        lexemes text.toList ≠ tokens.flatMap Token.lexemes := by
  intro expr statement text
  have hnames : expr.CallsByName := by
    simp [expr, Expr.CallsByName, Expr.nodes, Expr.nodesOfEach, Expr.IsNamedCall, IsCallName,
      catalog]
  refine ⟨hnames, rfl, by decide +kernel, ?_⟩
  refine ⟨[.keyword .select, .space, .operator "-", .functionName "-", .openParen, .integer 1,
    .comma, .space, .integer 2, .comma, .space, .integer 3, .closeParen, .newline, .keyword .from,
    .space, .identifier "users", .space, .keyword .as, .space, .identifier "u0"], rfl, ?_⟩
  decide +kernel

end SqlCompose
