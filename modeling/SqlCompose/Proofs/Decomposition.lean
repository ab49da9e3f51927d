import SqlCompose.Proofs.Items

/-!
A query read back from its tokens. Each line is a clause that its first word tells, and the
expressions of the clause are its items (`Clause.read?`). Reading all lines of a composed query
gives the clauses that the query has, in their fixed order, each with the tokens of its own
expressions in number and order (`Query.clauses_tokens`). The lists that are separated by commas
must not contain whole sources, because these are written as several items.
-/

set_option autoImplicit false
set_option relaxedAutoImplicit false

namespace SqlCompose

open Token

/-- A clause as it is read from its line. Expressions are their tokens, and conditions on rows and
groups have parentheses around them. -/
inductive Clause
  /-- The expressions by which duplicates are told, if they are left out, and those selected. -/
  | select (distinct : Option (List (List Token))) (listed : List (List Token))
  | source (table shortName : String)
  | join (kind : JoinKind) (table shortName : String) (on : List Token)
  | filter (conditions : List (List Token))
  | groupBy (listed : List (List Token))
  | having (conditions : List (List Token))
  | orderBy (terms : List (List Token × SortDirection))
  | limit (rows : UInt64)
  | offset (rows : UInt64)
  | lock (lock : Lock)

namespace Clause

/-! ### Reading a line -/

/-- A selection, read behind its first word. -/
def selection? : List Token → Option Clause
  | .keyword .distinct :: .space :: .keyword .on :: .space :: .openParen :: rest =>
    match splitOutside (· == .closeParen) 0 rest with
    | [inside, behind] => some (select (some (items .comma inside)) (items .comma behind))
    | _ => none
  | .keyword .distinct :: .space :: rest => some (select (some []) (items .comma rest))
  | rest => some (select none (items .comma rest))

/-- A join, read behind the words of its kind. -/
def joinOf? (kind : JoinKind) : List Token → Option Clause
  | .space :: .keyword .join :: .space :: .identifier table :: .space :: .keyword .as :: .space ::
      .identifier shortName :: .space :: .keyword .on :: .space :: condition =>
    some (join kind table shortName condition)
  | _ => none

/-- One term of an ordering, read from its item. -/
def termOf (item : List Token) : List Token × SortDirection :=
  if item.getLast? = some (.keyword .desc) then (trimmed item.dropLast, .descending)
  else (item, .ascending)

/-- The clause on a line. -/
def read? : List Token → Option Clause
  | .keyword .select :: .space :: rest => selection? rest
  | [.keyword .from, .space, .identifier table, .space, .keyword .as, .space,
      .identifier shortName] => some (source table shortName)
  | .keyword .inner :: rest => joinOf? .inner rest
  | .keyword .left :: .space :: .keyword .outer :: rest => joinOf? .left rest
  | .keyword .right :: .space :: .keyword .outer :: rest => joinOf? .right rest
  | .keyword .full :: .space :: .keyword .outer :: rest => joinOf? .full rest
  | .keyword .where :: .space :: rest => some (filter (items (.keyword .and) rest))
  | .keyword .groupBy :: .space :: rest => some (groupBy (items .comma rest))
  | .keyword .having :: .space :: rest => some (having (items (.keyword .and) rest))
  | .keyword .orderBy :: .space :: rest => some (orderBy ((items .comma rest).map termOf))
  | [.keyword .limit, .space, .count rows] => some (limit rows)
  | [.keyword .offset, .space, .count rows] => some (offset rows)
  | [.keyword .forUpdate] => some (lock .forUpdate)
  | [.verbatim words] => some (lock (.clause words))
  | _ => none

/-- The clause of a list, absent when there are no items. -/
def ofItems {α : Type} (clause : List α → Clause) (listed : List α) : List Clause :=
  if listed.isEmpty then [] else [clause listed]

end Clause

/-! ### The clauses of a query -/

/-- The columns of a source one by one, or its star when the fields are not known. -/
def sourceItems (source : Source) (shortName : String) : List (List Token) :=
  if source.schema.fields.isEmpty then [[.identifier shortName, .dot, .star]]
  else source.schema.fields.map (columnTokens shortName)

namespace Query

/-- What is selected, one by one: the columns of the first source when nothing is listed. -/
def selectedItems (query : Query) (written : Expr → List Token) : List (List Token) :=
  if query.select.isEmpty then
    query.tables.head?.toList.flatMap fun table ↦ sourceItems table.1 table.2
  else query.select.map written

/-- The clauses that a query has, in their order, with its expressions as written. -/
def clauses (query : Query) (written : Expr → List Token) : List Clause :=
  .select (query.distinct.map fun distinct ↦ distinct.exprs.map written)
      (query.selectedItems written) ::
    (query.tables.head?.toList.map (fun table ↦ .source table.1.table table.2) ++
      query.joined.map (fun joined ↦
        .join joined.2.kind joined.1.1.table joined.1.2 (written joined.2.on)) ++
      Clause.ofItems .filter (query.wheres.map fun expr ↦ parenthesized (written expr)) ++
      Clause.ofItems .groupBy (query.groupBys.map written) ++
      Clause.ofItems .having (query.havings.map fun expr ↦ parenthesized (written expr)) ++
      Clause.ofItems .orderBy (query.orderBys.map fun term ↦
        (written term.expr, term.direction)) ++
      query.limit.toList.map .limit ++ query.offset.toList.map .offset ++
      query.lock.toList.map .lock)

/-- The expressions of a query that are listed between commas. -/
def listedExprs (query : Query) : List Expr :=
  query.distinct.toList.flatMap Distinct.exprs ++ query.select ++ query.groupBys ++
    query.orderBys.map SortTerm.expr

end Query

/-! ### Reading the first line -/

namespace Clause

/-- Items that begin with neither `DISTINCT` nor `ON` are read as they stand. -/
theorem selection?_of_starts {listed : List Token} (hstarts : listed.head?.any isEdge = true) :
    selection? listed = some (select none (items .comma listed)) := by
  unfold selection?
  split
  · cases hstarts
  · cases hstarts
  · rfl

theorem selection?_distinct {listed : List Token} (hstarts : listed.head?.any isEdge = true) :
    selection? (.keyword .distinct :: .space :: listed) =
      some (select (some []) (items .comma listed)) := by
  rw [selection?]
  rintro inside rfl
  cases hstarts

/-- The expressions of `DISTINCT ON` are those between its parentheses. -/
theorem selection?_distinctOn {inside behind : List Token}
    (hinside : Balanced (· != .closeParen) inside) (hbehind : Balanced (· != .closeParen) behind) :
    selection? ([.keyword .distinct, .space, .keyword .on, .space] ++ parenthesized inside ++
        behind) = some (select (some (items .comma inside)) (items .comma behind)) := by
  have hsplit : splitOutside (· == .closeParen) 0 (inside ++ .closeParen :: behind) =
      [inside, behind] := by
    rw [hinside.splitOutside_of_separator (by simp), splitOutside_separator,
      hbehind.splitOutside_eq_singleton (by simp), List.modifyHead_cons, List.append_nil]
  have hline : [.keyword .distinct, .space, .keyword .on, .space] ++ parenthesized inside ++
      behind = .keyword .distinct :: .space :: .keyword .on :: .space :: .openParen ::
        (inside ++ .closeParen :: behind) := by
    simp [parenthesized]
  rw [hline, selection?, hsplit]

end Clause

theorem sourceTokens_eq (source : Source) (shortName : String) :
    sourceTokens source shortName = commaSeparated (sourceItems source shortName) := by
  unfold sourceTokens sourceItems
  split <;> rfl

namespace Query

variable {query : Query} {limit : Nat}

/-- A query that selects its first source as a whole has one. -/
theorem exists_table_of_select_eq_nil (hcomposable : query.IsComposable limit)
    (hselect : query.select = []) :
    ∃ table, query.tables.head? = some table ∧
      (Expr.source 0).written (query.scope limit) = sourceTokens table.1 table.2 := by
  obtain ⟨-, hprojection, -⟩ := hcomposable.each
  rw [projection, hselect] at hprojection
  have hrefers : (Expr.source 0).RefersWithin (query.scope limit) :=
    (hprojection _ (List.mem_singleton.mpr rfl)).2.1 _ (by simp [Expr.nodes])
  have hlength : 0 < query.tables.length := by
    rw [length_tables]
    exact hrefers.2
  have hsource := query.source?_eq limit 0
  rw [List.getElem?_eq_getElem hlength] at hsource
  refine ⟨query.tables[0], ?_, ?_⟩
  · rw [List.head?_eq_getElem?, List.getElem?_eq_getElem hlength]
  · rw [Expr.written, Expr.form, Form.tokens, UInt64.toNat_zero, hsource]

/-- The projection of a composed query lists what is selected. -/
theorem commaSeparated_selectedItems (hcomposable : query.IsComposable limit) :
    commaSeparated (query.projection.map (Expr.written (query.scope limit))) =
      commaSeparated (query.selectedItems (Expr.written (query.scope limit))) := by
  unfold projection selectedItems
  by_cases hselect : query.select = []
  · obtain ⟨table, htable, hwritten⟩ := exists_table_of_select_eq_nil hcomposable hselect
    rw [if_pos (List.isEmpty_iff.mpr hselect), if_pos (List.isEmpty_iff.mpr hselect), htable,
      Option.toList_some, List.flatMap_singleton, ← sourceTokens_eq, ← hwritten]
    rfl
  · rw [if_neg (mt List.isEmpty_iff.mp hselect), if_neg (mt List.isEmpty_iff.mp hselect)]

theorem item_sourceItems (source : Source) (shortName : String) :
    sourceItems source shortName ≠ [] ∧
      ∀ item ∈ sourceItems source shortName, Balanced (· != .comma) item ∧ Solid isEdge item := by
  unfold sourceItems
  split_ifs with hfields
  · rw [List.forall_mem_singleton]
    exact ⟨List.cons_ne_nil _ _, .of_isFlat (bne_of_isFlat rfl) rfl, rfl, rfl⟩
  · rw [List.forall_mem_map]
    exact ⟨by simpa using hfields, fun field _ ↦ ⟨.of_isFlat (bne_of_isFlat rfl) rfl, rfl, rfl⟩⟩

/-- What is selected consists of items. -/
theorem item_selectedItems (hcomposable : query.IsComposable limit)
    (hsources : ∀ expr ∈ query.select, ∀ position, Expr.source position ∉ expr.nodes) :
    query.selectedItems (Expr.written (query.scope limit)) ≠ [] ∧
      ∀ item ∈ query.selectedItems (Expr.written (query.scope limit)),
        Balanced (· != .comma) item ∧ Solid isEdge item := by
  obtain ⟨-, hprojection, -⟩ := hcomposable.each
  unfold selectedItems
  by_cases hselect : query.select = []
  · obtain ⟨table, htable, -⟩ := exists_table_of_select_eq_nil hcomposable hselect
    rw [if_pos (List.isEmpty_iff.mpr hselect), htable, Option.toList_some, List.flatMap_singleton]
    exact item_sourceItems table.1 table.2
  · rw [projection, if_neg (mt List.isEmpty_iff.mp hselect)] at hprojection
    rw [if_neg (mt List.isEmpty_iff.mp hselect), List.forall_mem_map]
    exact ⟨by simpa using hselect, fun expr hmem ↦
      Expr.item_written (hprojection expr hmem) (hsources expr hmem)⟩

/-- The first line is read as the selection. -/
theorem read?_selectWritten (hcomposable : query.IsComposable limit)
    (hsources : ∀ expr ∈ query.listedExprs, ∀ position, Expr.source position ∉ expr.nodes) :
    Clause.read? (query.selectWritten (query.scope limit)) =
      some (.select
        (query.distinct.map fun distinct ↦ distinct.exprs.map (Expr.written (query.scope limit)))
        (query.selectedItems (Expr.written (query.scope limit)))) := by
  simp only [listedExprs, List.forall_mem_append, List.forall_mem_map] at hsources
  obtain ⟨⟨⟨hdistinct, hselect⟩, -⟩, -⟩ := hsources
  obtain ⟨hcomposed, -⟩ := hcomposable.each
  obtain ⟨hne, hitems⟩ := item_selectedItems hcomposable hselect
  have hread := items_commaSeparated hne fun item hmem ↦
    (hitems item hmem).imp_right (Solid.mono ne_space_of_isEdge)
  have hstarts : (commaSeparated (query.selectedItems
      (Expr.written (query.scope limit)))).head?.any isEdge = true :=
    starts_separatedBy hne fun item hmem ↦ (hitems item hmem).2.starts
  have hbalanced (exprs : List Expr) : Balanced (· != .closeParen)
      (commaSeparated (exprs.map (Expr.written (query.scope limit)))) := by
    refine .commaSeparated rfl rfl (List.forall_mem_map.mpr fun expr _ ↦ ?_)
    exact expr.balanced_written (bne_of_isFlat rfl) rfl
  have hline : query.selectWritten (query.scope limit) = .keyword .select :: .space ::
      (distinctWritten (query.scope limit) query.distinct ++ commaSeparated
        (query.selectedItems (Expr.written (query.scope limit)))) := by
    rw [← commaSeparated_selectedItems hcomposable]
    rfl
  rw [hline]
  change Clause.selection? _ = _
  rcases hcase : query.distinct with - | (- | (- | ⟨first, rest⟩))
  · rw [distinctWritten, List.nil_append, Clause.selection?_of_starts hstarts, hread]
    rfl
  · exact (Clause.selection?_distinct hstarts).trans (by rw [hread]; rfl)
  · exact (Clause.selection?_distinct hstarts).trans (by rw [hread]; rfl)
  · rw [hcase] at hdistinct hcomposed
    have hbehind : Balanced (· != .closeParen) ([.space] ++ commaSeparated
        (query.selectedItems (Expr.written (query.scope limit)))) := by
      rw [← commaSeparated_selectedItems hcomposable]
      exact (Balanced.token (fun _ ↦ rfl) rfl).append (hbalanced _)
    have hinside : items .comma (commaSeparated
        ((first :: rest).map (Expr.written (query.scope limit)))) =
          (first :: rest).map (Expr.written (query.scope limit)) := by
      refine items_commaSeparated (List.cons_ne_nil _ _)
        (List.forall_mem_map.mpr fun expr hmem ↦ ?_)
      have hexpr : expr ∈ (some (Distinct.on (first :: rest))).toList.flatMap Distinct.exprs := by
        simpa [Distinct.exprs] using hmem
      exact (Expr.item_written (hcomposed expr hexpr) (hdistinct expr hexpr)).imp_right
        (Solid.mono ne_space_of_isEdge)
    rw [distinctWritten, List.append_assoc, Clause.selection?_distinctOn (hbalanced _) hbehind,
      hinside, List.singleton_append, items_space_cons (by simp), hread]
    rfl

/-! ### Reading the other lines -/

theorem read?_joinWritten (scope : Scope) (joined : (Source × String) × Join) :
    Clause.read? (joinWritten scope joined) = some (.join joined.2.kind joined.1.1.table joined.1.2
      (joined.2.on.written scope)) := by
  unfold joinWritten
  cases joined.2.kind <;> rfl

/-- A clause that is there only with expressions is read as the clause of its items. -/
theorem map_read?_clauseWritten? {scope : Scope} {exprs : List Expr}
    {line : List (List Token) → List Token} {clause : List (List Token) → Clause}
    {item : Expr → List Token}
    (hread : exprs ≠ [] → Clause.read? (line (exprs.map (Expr.written scope))) =
      some (clause (exprs.map item))) :
    (clauseWritten? scope exprs line).toList.map Clause.read? =
      (Clause.ofItems clause (exprs.map item)).map some := by
  unfold clauseWritten? Clause.ofItems
  rw [List.isEmpty_map]
  by_cases hexprs : exprs = []
  · rw [if_pos (List.isEmpty_iff.mpr hexprs), if_pos (List.isEmpty_iff.mpr hexprs)]
    rfl
  · rw [if_neg (mt List.isEmpty_iff.mp hexprs), if_neg (mt List.isEmpty_iff.mp hexprs),
      Option.toList_some, List.map_singleton, hread hexprs, List.map_singleton]

/-- Conditions on rows and on groups are read between parentheses. -/
theorem map_read?_conditions (scope : Scope) (exprs : List Expr) (word : Keyword)
    (clause : List (List Token) → Clause)
    (hread : ∀ rest, Clause.read? (.keyword word :: .space :: rest) =
      some (clause (items (.keyword .and) rest))) :
    (clauseWritten? scope exprs (conjunctionTokens word)).toList.map Clause.read? =
      (Clause.ofItems clause (exprs.map fun expr ↦ parenthesized (expr.written scope))).map
        some := by
  refine map_read?_clauseWritten? fun hexprs ↦ ?_
  rw [conjunctionTokens, hread, items_conjunction (by simpa using hexprs)
    (List.forall_mem_map.mpr fun expr _ ↦ expr.balanced_written (fun _ _ ↦ rfl) rfl), List.map_map]
  rfl

theorem map_read?_groupBys {scope : Scope}
    (hcomposable : ∀ expr ∈ query.groupBys, expr.Composable scope)
    (hsources : ∀ expr ∈ query.groupBys, ∀ position, Expr.source position ∉ expr.nodes) :
    (clauseWritten? scope query.groupBys (clauseTokens .groupBy)).toList.map Clause.read? =
      (Clause.ofItems .groupBy (query.groupBys.map (Expr.written scope))).map some := by
  refine map_read?_clauseWritten? fun hexprs ↦ ?_
  refine congrArg (some ∘ Clause.groupBy) (items_commaSeparated (by simpa using hexprs)
    (List.forall_mem_map.mpr fun expr hmem ↦ ?_))
  exact (Expr.item_written (hcomposable expr hmem) (hsources expr hmem)).imp_right
    (Solid.mono ne_space_of_isEdge)

/-- A term of an ordering is an item, from which expression and direction are read. -/
theorem item_sortTerm {scope : Scope} {term : SortTerm} (hcomposable : term.expr.Composable scope)
    (hsources : ∀ position, Expr.source position ∉ term.expr.nodes) :
    (Balanced (· != .comma) (term.written scope) ∧ Solid (· != .space) (term.written scope)) ∧
      Clause.termOf (term.written scope) = (term.expr.written scope, term.direction) := by
  obtain ⟨hbalanced, hsolid⟩ := Expr.item_written hcomposable hsources
  have htrimmed := hsolid.mono ne_space_of_isEdge
  unfold SortTerm.written
  cases hdirection : term.direction with
  | descending =>
    rw [if_pos rfl]
    refine ⟨⟨hbalanced.append (.of_isFlat (bne_of_isFlat rfl) rfl),
      starts_append htrimmed.starts _, ends_append _ rfl⟩, ?_⟩
    rw [List.append_cons, Clause.termOf, List.getLast?_concat, if_pos rfl, List.dropLast_concat,
      htrimmed.trimmed_append (List.forall_mem_singleton.mpr rfl)]
  | ascending =>
    rw [if_neg (by simp)]
    refine ⟨⟨hbalanced, htrimmed⟩, if_neg fun hlast ↦ ?_⟩
    have hends := hsolid.ends
    rw [hlast] at hends
    cases hends

theorem map_read?_orderByWritten? {scope : Scope}
    (hcomposable : ∀ term ∈ query.orderBys, term.expr.Composable scope)
    (hsources : ∀ term ∈ query.orderBys, ∀ position, Expr.source position ∉ term.expr.nodes) :
    (query.orderByWritten? scope).toList.map Clause.read? =
      (Clause.ofItems .orderBy (query.orderBys.map fun term ↦
        (term.expr.written scope, term.direction))).map some := by
  unfold orderByWritten? Clause.ofItems
  rw [List.isEmpty_map]
  by_cases hterms : query.orderBys = []
  · rw [if_pos (List.isEmpty_iff.mpr hterms), if_pos (List.isEmpty_iff.mpr hterms)]
    rfl
  · have hitem (term : SortTerm) (hmem : term ∈ query.orderBys) :=
      item_sortTerm (hcomposable term hmem) (hsources term hmem)
    have hread : Clause.read? (clauseTokens .orderBy (query.orderBys.map
        (SortTerm.written scope))) = some (.orderBy ((items .comma (commaSeparated
          (query.orderBys.map (SortTerm.written scope)))).map Clause.termOf)) := rfl
    have hpairs : query.orderBys.map (Clause.termOf ∘ SortTerm.written scope) =
        query.orderBys.map fun term ↦ (term.expr.written scope, term.direction) :=
      List.map_congr_left fun term hmem ↦ (hitem term hmem).2
    rw [if_neg (mt List.isEmpty_iff.mp hterms), if_neg (mt List.isEmpty_iff.mp hterms),
      Option.toList_some, List.map_singleton, hread,
      items_commaSeparated (by simpa using hterms) (List.forall_mem_map.mpr fun term hmem ↦
        (hitem term hmem).1), List.map_map, hpairs, List.map_singleton]

theorem IsComposable.exprs (hcomposable : query.IsComposable limit) :
    ∀ expr ∈ query.exprs, expr.Composable (query.scope limit) := by
  intro expr hmem
  have hselect : expr ∈ query.select → expr ∈ query.projection := by
    intro hlisted
    rwa [projection, if_neg (mt List.isEmpty_iff.mp (List.ne_nil_of_mem hlisted))]
  refine hcomposable.1 expr ?_
  simp only [Query.exprs, spelledOut, List.mem_append] at hmem ⊢
  tauto

/-- The lines behind the first are read as the clauses behind the selection. -/
theorem map_read?_linesBehind (hcomposable : query.IsComposable limit)
    (hsources : ∀ expr ∈ query.listedExprs, ∀ position, Expr.source position ∉ expr.nodes) :
    (query.tablesWritten (query.scope limit) ++ query.restWritten (query.scope limit)).map
        Clause.read? = (query.clauses (Expr.written (query.scope limit))).tail.map some := by
  obtain ⟨-, -, -, -, hgroupBys, -, horderBys⟩ := hcomposable.each
  simp only [listedExprs, List.forall_mem_append, List.forall_mem_map] at hsources
  obtain ⟨⟨-, hgroups⟩, horders⟩ := hsources
  have hfrom : (query.tables.head?.map fromWritten).toList.map Clause.read? =
      (query.tables.head?.toList.map fun table ↦ Clause.source table.1.table table.2).map some := by
    cases query.tables.head? <;> rfl
  have hjoined : (query.joined.map (joinWritten (query.scope limit))).map Clause.read? =
      (query.joined.map fun joined ↦ Clause.join joined.2.kind joined.1.1.table joined.1.2
        (joined.2.on.written (query.scope limit))).map some := by
    rw [List.map_map, List.map_map]
    exact List.map_congr_left fun joined _ ↦ read?_joinWritten _ joined
  have hlimit : (query.limit.map (rowCountTokens .limit)).toList.map Clause.read? =
      (query.limit.toList.map Clause.limit).map some := by
    cases query.limit <;> rfl
  have hoffset : (query.offset.map (rowCountTokens .offset)).toList.map Clause.read? =
      (query.offset.toList.map Clause.offset).map some := by
    cases query.offset <;> rfl
  have hlock : (query.lock.map fun lock ↦ [lock.token]).toList.map Clause.read? =
      (query.lock.toList.map Clause.lock).map some := by
    rcases query.lock with - | (- | words) <;> rfl
  simp only [tablesWritten, restWritten, whereWritten?, laterWritten, clauses, List.tail_cons,
    List.map_append, List.append_assoc, hfrom, hjoined, hlimit, hoffset, hlock,
    map_read?_groupBys hgroupBys hgroups, map_read?_orderByWritten? horderBys horders,
    map_read?_conditions (query.scope limit) query.wheres .where .filter fun _ ↦ rfl,
    map_read?_conditions (query.scope limit) query.havings .having .having fun _ ↦ rfl]

/-- The lines of a composed query are read as the clauses that it has, in their order, with the
tokens of its expressions in number and order. -/
theorem clauses_tokens {tokens : List Token} (hok : query.tokens limit = .ok tokens)
    (hsources : ∀ expr ∈ query.listedExprs, ∀ position, Expr.source position ∉ expr.nodes) :
    ∃ written : Expr → List Token,
      (∀ expr ∈ query.exprs, expr.tokens (query.scope limit) = .ok (written expr)) ∧
        query.joined.map Prod.snd = query.joins ∧
        (Token.lines tokens).map Clause.read? = (query.clauses written).map some := by
  obtain ⟨-, hcomposable⟩ := tokens_eq_of_ok hok
  refine ⟨Expr.written (query.scope limit), ?_, map_snd_joined hcomposable.2, ?_⟩
  · intro expr hexpr
    exact (expr.settles_tokens _).1 (hcomposable.exprs expr hexpr)
  · rw [lines_tokens hok, linesWritten, List.map_cons, read?_selectWritten hcomposable hsources,
      map_read?_linesBehind hcomposable hsources]
    rfl

/-- Items that contain commas and a condition that contains `AND`, in a query with a join. -/
theorem clauses_tokens_call :
    let query : Query :=
      { sources := [.ofSchema ⟨"users", [], none⟩, .ofSchema ⟨"posts", [], none⟩]
        select := [.call "coalesce" [.field 0 "nick", .field 0 "name"], .field 1 "title"]
        joins := [⟨.inner, .eq (.field 1 "user_id") (.field 0 "id")⟩]
        wheres :=
          [.isIn (.field 0 "age") (.range (.literal (.integer 18)) (.literal (.integer 30)))]
        orderBys := [⟨.field 1 "title", .descending⟩] }
    ∃ tokens users posts call title on age,
      query.tokens 512 = .ok tokens ∧
        (Token.lines tokens).map Clause.read? = [some (.select none [call, title]),
          some (.source "users" users), some (.join .inner "posts" posts on),
          some (.filter [parenthesized age]), some (.orderBy [(title, .descending)])] := by
  intro query
  have hsources : ∀ expr ∈ query.listedExprs, ∀ position, Expr.source position ∉ expr.nodes := by
    simp [query, listedExprs, Expr.nodes, Expr.nodesOfEach]
  have hok : query.tokens 512 = .ok _ := rfl
  obtain ⟨written, -, -, hread⟩ := clauses_tokens hok hsources
  exact ⟨_, _, _, _, _, _, _, hok, hread⟩

end Query

end SqlCompose
