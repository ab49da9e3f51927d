import SqlCompose.Proofs.Items
import SqlCompose.Proofs.RecordStatements
import Mathlib.Data.List.Forall2

/-!
Row statements read back from their tokens. `RowStatement.read?` knows the fixed words of the three
statements and splits at them and at commas, in either case only outside of all brackets. From the
tokens of a composed statement it finds the table, the columns with the tokens of their own values,
the columns that are given back and the key (`rowStatements_aligned`). An insertion lists its
columns and its values apart from each other, so there the pairs are found by position, and a value
lost or moved on either side would show.

Null fields take no part in an insertion: it is the same without them, and it fails exactly when
some other value cannot be written, for the cause of the first such value.
-/

set_option autoImplicit false
set_option relaxedAutoImplicit false

namespace SqlCompose

open Token

/-! ### Reading a row statement -/

/-- A row statement as it is read from its tokens. Values are their tokens. -/
inductive RowStatement
  /-- An insertion; without columns and values when it asks for the defaults. -/
  | insert (table : String) (row : Option (List (String × List Token))) (returning : List String)
  | update (table : String) (assigned : List (String × List Token)) (keyColumn : String)
      (keyValue : List Token)
  | delete (table : String) (keyColumn : String) (keyValue : List Token)
deriving DecidableEq

namespace RowStatement

/-- A single column. -/
def column? : List Token → Option String
  | [.identifier name] => some name
  | _ => none

/-- A column with its value. -/
def assignment? : List Token → Option (String × List Token)
  | .identifier column :: .space :: .equal :: .space :: value => some (column, value)
  | _ => none

/-- What stands between an opening parenthesis in front and a closing one at the end. -/
def enclosed? : List Token → Option (List Token)
  | .openParen :: rest => if rest.getLast? = some .closeParen then some rest.dropLast else none
  | _ => none

/-- The columns of a list. -/
def columns? (tokens : List Token) : Option (List String) :=
  (items .comma tokens).mapM column?

/-- The columns and values of an insertion, paired by position, or none for the defaults. -/
def row? (tokens : List Token) : Option (Option (List (String × List Token))) :=
  if tokens = [.keyword .default, .space, .keyword .values] then some none
  else
    match items (.keyword .values) tokens with
    | [left, right] => do
      let columns ← columns? (← enclosed? left)
      let values := items .comma (← enclosed? right)
      if columns.length = values.length then some (some (columns.zip values)) else none
    | _ => none

/-- An insertion, read behind the name of its table. -/
def insertion? (table : String) (tokens : List Token) : Option RowStatement :=
  match items (.keyword .returning) tokens with
  | [row] => do some (insert table (← row? row) [])
  | [row, returning] => do some (insert table (← row? row) (← columns? returning))
  | _ => none

/-- An update by key, read behind the words before its assignments. -/
def update? (table : String) (tokens : List Token) : Option RowStatement :=
  match items (.keyword .where) tokens with
  | [assignments, key] => do
    let assigned ← (items .comma assignments).mapM assignment?
    let (keyColumn, keyValue) ← assignment? key
    some (update table assigned keyColumn keyValue)
  | _ => none

/-- The row statement that tokens spell out. -/
def read? : List Token → Option RowStatement
  | .keyword .insert :: .space :: .keyword .into :: .space :: .identifier table :: .space :: rest =>
    insertion? table rest
  | .keyword .update :: .space :: .identifier table :: .space :: .keyword .set :: .space :: rest =>
    update? table rest
  | .keyword .delete :: .space :: .keyword .from :: .space :: .identifier table :: .space ::
      .keyword .where :: .space :: key => do
    let (keyColumn, keyValue) ← assignment? key
    some (delete table keyColumn keyValue)
  | _ => none

end RowStatement

/-! ### Literals as items -/

/-- Neither a bracket nor a comma nor one of the words that rows are split at. -/
def Token.isRowPart : Token → Bool
  | keyword word => word == .array
  | token => token.isFlat

theorem Token.isFlat_of_isRowPart {token : Token} (hpart : token.isRowPart = true) :
    token.isFlat = true := by
  cases token with
  | keyword word => rfl
  | _ => exact hpart

theorem Token.bne_of_isRowPart {separator : Token} (hseparator : separator.isRowPart = false)
    (token : Token) (hpart : token.isRowPart = true) : (token != separator) = true := by
  rw [bne_iff_ne]
  rintro rfl
  rw [hseparator] at hpart
  cases hpart

theorem Token.Balanced.of_forall {test : Token → Bool} {tokens : List Token}
    (htokens : ∀ token ∈ tokens, token.isFlat = true ∧ test token = true) :
    Balanced test tokens := by
  induction tokens with
  | nil => exact .nil
  | cons first rest ih =>
    rw [List.forall_mem_cons] at htokens
    obtain ⟨⟨hflat, htest⟩, hrest⟩ := htokens
    exact (Balanced.token (depthAfter_of_isFlat hflat) htest).append (ih hrest)

theorem Token.Balanced.of_isRowPart {test : Token → Bool}
    (htest : ∀ token : Token, token.isRowPart = true → test token = true) {tokens : List Token}
    (hpart : ∀ token ∈ tokens, token.isRowPart = true) : Balanced test tokens := by
  refine .of_forall fun token hmem ↦ ?_
  exact ⟨isFlat_of_isRowPart (hpart token hmem), htest token (hpart token hmem)⟩

theorem Token.Solid.commaSeparated {test : Token → Bool} {listed : List (List Token)}
    (hne : listed ≠ []) (hlisted : ∀ item ∈ listed, Solid test item) :
    Solid test (commaSeparated listed) := by
  refine ⟨starts_separatedBy hne fun item hmem ↦ (hlisted item hmem).starts, ?_⟩
  induction listed with
  | nil => exact absurd rfl hne
  | cons item rest ih =>
    rw [List.forall_mem_cons] at hlisted
    cases rest with
    | nil => exact hlisted.1.ends
    | cons next others => exact ends_append _ (ih (List.cons_ne_nil _ _) hlisted.2)

namespace Literal

theorem isRowPart_scalarTokens (value : Literal) :
    ∀ token ∈ value.scalarTokens, token.isRowPart = true := by
  cases value <;> simp [scalarTokens, Token.isRowPart, Token.isFlat]

/-- The tokens of a literal are balanced, with nothing but its constants outside of brackets. -/
theorem balanced_tokens (scope : Scope) (value : Literal) {test : Token → Bool}
    (htest : ∀ token : Token, token.isRowPart = true → test token = true) :
    Balanced test (value.form.tokens scope) := by
  induction value using Literal.induction generalizing test with
  | scalar value hscalar =>
    rw [form_of_isScalar hscalar, Form.tokens]
    exact .of_isRowPart htest value.isRowPart_scalarTokens
  | array elements elementType ih =>
    have hinside : Balanced (fun _ ↦ true)
        (commaSeparated (Form.tokensOfEach scope (formOfEach elements))) := by
      rw [Form.tokensOfEach_eq_map, formOfEach_eq_map, List.map_map]
      refine .commaSeparated rfl rfl (List.forall_mem_map.mpr fun element hmem ↦ ?_)
      exact ih element hmem fun _ _ ↦ rfl
    have hlisted := (Balanced.token (fun _ ↦ rfl) (htest (.keyword .array) rfl)).append
      (Balanced.bracketed hinside)
    rw [form, Form.tokens_ofElements]
    unfold arrayTokens
    split
    · refine hlisted.append (.of_isRowPart htest ?_)
      simp [Token.isRowPart, Token.isFlat]
    · exact hlisted

theorem solid_tokens (scope : Scope) (value : Literal) :
    Solid (· != .space) (value.form.tokens scope) := by
  cases value with
  | array elements elementType =>
    rw [form, Form.tokens_ofElements]
    unfold arrayTokens
    split
    · exact ⟨rfl, ends_append _ rfl⟩
    · exact ⟨rfl, ends_append (.keyword .array :: .openBracket :: _) rfl⟩
  | _ => exact ⟨rfl, rfl⟩

/-- A written literal can be an item of a list and stand beside any word. -/
theorem item_of_ok {limit : Nat} {value : Literal} {tokens : List Token}
    (hok : value.tokens limit = .ok tokens) :
    (∀ test : Token → Bool, (∀ token : Token, token.isRowPart = true → test token = true) →
      Balanced test tokens) ∧ Solid (· != .space) tokens := by
  rw [(tokens_eq_of_ok (.ofSources [] limit) hok).1]
  exact ⟨fun test htest ↦ value.balanced_tokens _ htest, value.solid_tokens _⟩

end Literal

/-! ### Pairs of columns and values -/

/-- Each field is paired with the tokens of its own value, in order. -/
def Aligned (limit : Nat) (fields : List (String × Literal))
    (assigned : List (String × List Token)) : Prop :=
  List.Forall₂ (fun field pair ↦ pair.1 = field.1 ∧ field.2.tokens limit = .ok pair.2) fields
    assigned

namespace Aligned

variable {limit : Nat} {fields : List (String × Literal)} {assigned : List (String × List Token)}

/-- A traversal that writes the value of each field gives one result for each pair. -/
theorem exists_of_mapM {β : Type} {step : String × Literal → Except CompileError β}
    (write : String → List Token → β)
    (hstep : ∀ field result, step field = .ok result →
      ∃ written, field.2.tokens limit = .ok written ∧ result = write field.1 written)
    {results : List β} (hresults : fields.mapM step = .ok results) :
    ∃ assigned, Aligned limit fields assigned ∧
      results = assigned.map fun pair ↦ write pair.1 pair.2 := by
  induction fields generalizing results with
  | nil =>
    cases hresults
    exact ⟨[], .nil, rfl⟩
  | cons field rest ih =>
    rw [List.mapM_cons] at hresults
    obtain ⟨first, hfirst, hothers⟩ := bind_eq_ok.mp hresults
    obtain ⟨others, hrest, hpure⟩ := bind_eq_ok.mp hothers
    cases hpure
    obtain ⟨written, hwritten, rfl⟩ := hstep field first hfirst
    obtain ⟨assigned, haligned, rfl⟩ := ih hrest
    exact ⟨(field.1, written) :: assigned, .cons ⟨rfl, hwritten⟩ haligned, rfl⟩

theorem map_fst (haligned : Aligned limit fields assigned) :
    assigned.map Prod.fst = fields.map Prod.fst := by
  induction haligned with
  | nil => rfl
  | cons hfield hrest ih => rw [List.map_cons, List.map_cons, ih, hfield.1]

theorem eq_nil_iff (haligned : Aligned limit fields assigned) : assigned = [] ↔ fields = [] := by
  rw [← List.length_eq_zero_iff, ← List.length_eq_zero_iff, haligned.length_eq]

theorem exists_ok (haligned : Aligned limit fields assigned) {pair : String × List Token}
    (hpair : pair ∈ assigned) : ∃ value : Literal, value.tokens limit = .ok pair.2 := by
  induction haligned with
  | nil => cases hpair
  | cons hfield hrest ih =>
    rcases List.mem_cons.mp hpair with rfl | hmem
    · exact ⟨_, hfield.2⟩
    · exact ih hmem

end Aligned

/-! ### Reading the parts -/

namespace RowStatement

theorem balanced_columns {test : Token → Bool}
    (htest : ∀ token : Token, token.isRowPart = true → test token = true)
    (hcomma : test .comma = true) (columns : List String) :
    Balanced test (commaSeparated (columns.map fun column ↦ [.identifier column])) := by
  refine .commaSeparated hcomma (htest _ rfl) (List.forall_mem_map.mpr fun column _ ↦ ?_)
  exact .token (fun _ ↦ rfl) (htest _ rfl)

/-- A column with its value can be an item of a list and stand beside any word. -/
theorem item_assignment {limit : Nat} {value : Literal} {tokens : List Token}
    (hok : value.tokens limit = .ok tokens) (column : String) {test : Token → Bool}
    (htest : ∀ token : Token, token.isRowPart = true → test token = true) :
    Balanced test (assignmentTokens column tokens) ∧
      Solid (· != .space) (assignmentTokens column tokens) := by
  obtain ⟨hbalanced, hsolid⟩ := Literal.item_of_ok hok
  refine ⟨(Balanced.of_isRowPart htest ?_).append (hbalanced test htest), rfl,
    ends_append _ hsolid.ends⟩
  simp [Token.isRowPart, Token.isFlat]

theorem columns?_commaSeparated {columns : List String} (hne : columns ≠ []) :
    columns? (commaSeparated (columns.map fun column ↦ [.identifier column])) = some columns := by
  have hread : items .comma (commaSeparated (columns.map fun column ↦ [.identifier column])) =
      columns.map fun column ↦ [.identifier column] := by
    refine items_commaSeparated (by simpa using hne) (List.forall_mem_map.mpr fun column _ ↦ ?_)
    exact ⟨.of_isFlat (bne_of_isFlat rfl) rfl, rfl, rfl⟩
  rw [columns?, hread, List.mapM_map]
  exact List.mapM_pure.trans (congrArg some (List.map_id _))

theorem enclosed?_parenthesized (tokens : List Token) :
    enclosed? (parenthesized tokens) = some tokens := by
  rw [parenthesized, enclosed?, List.getLast?_concat, if_pos rfl, List.dropLast_concat]

/-- Pairs are found again between commas. -/
theorem mapM_assignment? {limit : Nat} {fields : List (String × Literal)}
    {assigned : List (String × List Token)} (haligned : Aligned limit fields assigned)
    (hne : fields ≠ []) :
    (items .comma (commaSeparated (assigned.map fun pair ↦ assignmentTokens pair.1 pair.2))).mapM
      assignment? = some assigned := by
  have hread : items .comma (commaSeparated
      (assigned.map fun pair ↦ assignmentTokens pair.1 pair.2)) =
        assigned.map fun pair ↦ assignmentTokens pair.1 pair.2 := by
    refine items_commaSeparated (by simpa [haligned.eq_nil_iff] using hne)
      (List.forall_mem_map.mpr fun pair hpair ↦ ?_)
    obtain ⟨value, hvalue⟩ := haligned.exists_ok hpair
    exact item_assignment hvalue pair.1 (bne_of_isRowPart rfl)
  rw [hread, List.mapM_map]
  exact List.mapM_pure.trans (congrArg some (List.map_id _))

/-! ### Reading the statements -/

/-- Two parts around a word are found again. -/
theorem items_pair {word : Keyword} {left right : List Token}
    (hleft : Balanced (· != .keyword word) left ∧ Solid (· != .space) left)
    (hright : Balanced (· != .keyword word) right ∧ Solid (· != .space) right) :
    items (.keyword word) (left ++ [.space, .keyword word, .space] ++ right) = [left, right] := by
  have hparts : ∀ part ∈ [left, right],
      Balanced (· != .keyword word) part ∧ Solid (· != .space) part := by
    rw [List.forall_mem_cons, List.forall_mem_singleton]
    exact ⟨hleft, hright⟩
  exact items_separatedBy (.keyword word) (by simp) rfl (List.forall_mem_singleton.mpr rfl)
    (List.forall_mem_singleton.mpr rfl) (List.cons_ne_nil _ _) hparts

theorem item_parenthesized (word : Keyword) {tokens : List Token}
    (hinside : Balanced (fun _ ↦ true) tokens) :
    Balanced (· != .keyword word) (parenthesized tokens) ∧
      Solid (· != .space) (parenthesized tokens) :=
  ⟨.parenthesized hinside, .parenthesized rfl rfl tokens⟩

section Update

variable {limit : Nat} {fields : List (String × Literal)} {assigned : List (String × List Token)}

theorem item_assignments (haligned : Aligned limit fields assigned) (hne : fields ≠ []) :
    Balanced (· != .keyword .where)
        (commaSeparated (assigned.map fun pair ↦ assignmentTokens pair.1 pair.2)) ∧
      Solid (· != .space)
        (commaSeparated (assigned.map fun pair ↦ assignmentTokens pair.1 pair.2)) := by
  have hpairs : ∀ item ∈ assigned.map fun pair ↦ assignmentTokens pair.1 pair.2,
      Balanced (· != .keyword .where) item ∧ Solid (· != .space) item := by
    refine List.forall_mem_map.mpr fun pair hpair ↦ ?_
    obtain ⟨value, hvalue⟩ := haligned.exists_ok hpair
    exact item_assignment hvalue pair.1 (bne_of_isRowPart rfl)
  constructor
  · exact .commaSeparated rfl rfl fun item hmem ↦ (hpairs item hmem).1
  · exact .commaSeparated (by simpa [haligned.eq_nil_iff] using hne)
      fun item hmem ↦ (hpairs item hmem).2

/-- An update by key is read behind the words before its assignments. -/
theorem update?_written (haligned : Aligned limit fields assigned) (hne : fields ≠ [])
    {keyValue : Literal} {key : List Token} (hkey : keyValue.tokens limit = .ok key)
    (table keyColumn : String) :
    update? table (commaSeparated (assigned.map fun pair ↦ assignmentTokens pair.1 pair.2) ++
      .space :: ([.keyword .where, .space] ++ assignmentTokens keyColumn key)) =
        some (update table assigned keyColumn key) := by
  have hsplit := items_pair (item_assignments haligned hne)
    (item_assignment hkey keyColumn (bne_of_isRowPart rfl))
  rw [List.append_assoc] at hsplit
  have hlast : assignment? (assignmentTokens keyColumn key) = some (keyColumn, key) := rfl
  rw [update?, ← List.cons_append, hsplit]
  simp only [mapM_assignment? haligned hne, hlast, Option.bind_eq_bind, Option.bind_some]

end Update

section Insertion

variable {limit : Nat} {fields : List (String × Literal)} {assigned : List (String × List Token)}

/-- The values of an insertion are found again between commas. -/
theorem items_values (haligned : Aligned limit fields assigned) (hne : fields ≠ []) :
    items .comma (commaSeparated (assigned.map Prod.snd)) = assigned.map Prod.snd := by
  refine items_commaSeparated (by simpa [haligned.eq_nil_iff] using hne)
    (List.forall_mem_map.mpr fun pair hpair ↦ ?_)
  obtain ⟨value, hvalue⟩ := haligned.exists_ok hpair
  obtain ⟨hbalanced, hsolid⟩ := Literal.item_of_ok hvalue
  exact ⟨hbalanced _ (bne_of_isRowPart rfl), hsolid⟩

/-- What an insertion writes between its table and its last clause. -/
def rowWritten (assigned : List (String × List Token)) : List Token :=
  if assigned.isEmpty then [.keyword .default, .space, .keyword .values]
  else
    parenthesized (commaSeparated (assigned.map fun pair ↦ [.identifier pair.1])) ++
      [.space, .keyword .values, .space] ++ parenthesized (commaSeparated (assigned.map Prod.snd))

theorem balanced_values (haligned : Aligned limit fields assigned) :
    Balanced (fun _ ↦ true) (commaSeparated (assigned.map Prod.snd)) := by
  refine .commaSeparated rfl rfl (List.forall_mem_map.mpr fun pair hpair ↦ ?_)
  obtain ⟨value, hvalue⟩ := haligned.exists_ok hpair
  exact (Literal.item_of_ok hvalue).1 _ fun _ _ ↦ rfl

theorem balanced_names (assigned : List (String × List Token)) :
    Balanced (fun _ ↦ true) (commaSeparated (assigned.map fun pair ↦ [.identifier pair.1])) := by
  have hcolumns := balanced_columns (fun _ _ ↦ rfl) rfl (assigned.map Prod.fst)
  rwa [List.map_map] at hcolumns

/-- Columns and values are found again and paired; without any, the defaults are. -/
theorem row?_rowWritten (haligned : Aligned limit fields assigned) :
    row? (rowWritten assigned) = some (if assigned = [] then none else some assigned) := by
  unfold rowWritten
  by_cases hne : assigned = []
  · rw [if_pos hne, if_pos (List.isEmpty_iff.mpr hne)]
    rfl
  · have hfields : fields ≠ [] := mt haligned.eq_nil_iff.mpr hne
    have hcolumns : columns? (commaSeparated (assigned.map fun pair ↦ [.identifier pair.1])) =
        some (assigned.map Prod.fst) := by
      rw [← columns?_commaSeparated (by simpa using hne), List.map_map]
      rfl
    have hsplit : items (.keyword .values) _ = [_, _] :=
      items_pair (item_parenthesized .values (balanced_names assigned))
        (item_parenthesized .values (balanced_values haligned))
    have hpairs : (assigned.map Prod.fst).zip (assigned.map Prod.snd) = assigned := by
      rw [List.zip_map']
      exact List.map_id _
    rw [if_neg hne, if_neg (by simpa using hne), row?, if_neg (by simp [parenthesized]), hsplit]
    simp only [enclosed?_parenthesized, hcolumns, items_values haligned hfields,
      Option.bind_eq_bind, Option.bind_some, List.length_map, hpairs, if_true]

theorem item_rowWritten (haligned : Aligned limit fields assigned) :
    Balanced (· != .keyword .returning) (rowWritten assigned) ∧
      Solid (· != .space) (rowWritten assigned) := by
  unfold rowWritten
  split
  · exact ⟨.of_forall (by simp [Token.isFlat]), rfl, rfl⟩
  · have hnames := item_parenthesized .returning (balanced_names assigned)
    have hvalues := item_parenthesized .returning (balanced_values haligned)
    exact ⟨(hnames.1.append (.of_forall (by simp [Token.isFlat]))).append hvalues.1,
      hnames.2.append hvalues.2 _⟩

/-- An insertion is read behind the name of its table. -/
theorem insertion?_rowWritten (haligned : Aligned limit fields assigned) (table : String)
    (returning : List String) :
    insertion? table (rowWritten assigned ++ Insert.returningTokens returning) =
      some (insert table (if assigned = [] then none else some assigned) returning) := by
  have hrow := item_rowWritten haligned
  unfold Insert.returningTokens
  by_cases hreturning : returning = []
  · have hsplit : items (.keyword .returning) (rowWritten assigned) = [rowWritten assigned] := by
      rw [items, hrow.1.splitOutside_eq_singleton (by simp), List.map_singleton, hrow.2.trimmed_eq]
    rw [if_pos (List.isEmpty_iff.mpr hreturning), List.append_nil, insertion?, hsplit, hreturning]
    simp only [row?_rowWritten haligned, Option.bind_eq_bind, Option.bind_some]
  · have hcolumns : Balanced (· != .keyword .returning)
        (commaSeparated (returning.map fun column ↦ [.identifier column])) :=
      balanced_columns (bne_of_isRowPart rfl) rfl returning
    have hsolid : Solid (· != .space)
        (commaSeparated (returning.map fun column ↦ [.identifier column])) :=
      .commaSeparated (by simpa using hreturning)
        (List.forall_mem_map.mpr fun column _ ↦ ⟨rfl, rfl⟩)
    have hsplit := items_pair hrow ⟨hcolumns, hsolid⟩
    rw [if_neg (mt List.isEmpty_iff.mp hreturning), ← List.append_assoc, insertion?, hsplit]
    simp only [row?_rowWritten haligned, columns?_commaSeparated hreturning, Option.bind_eq_bind,
      Option.bind_some]

end Insertion

end RowStatement

/-! ### The first failure -/

/-- A step that cannot fail leaves a failure as it is. -/
theorem bind_pure_eq_error_iff {α β : Type} {first : Except CompileError α} {next : α → β}
    {cause : CompileError} :
    (do let value ← first; pure (next value)) = .error cause ↔ first = .error cause := by
  cases first with
  | ok value => exact iff_of_false (fun herror ↦ by cases herror) fun herror ↦ by cases herror
  | error other => exact ⟨fun herror ↦ by cases herror; rfl, fun herror ↦ by cases herror; rfl⟩

/-- Some field that is not null fails for the cause, and none before it does. -/
def FailsFirst (limit : Nat) (cause : CompileError) (fields : List (String × Literal)) : Prop :=
  ∃ before field after, fields = before ++ field :: after ∧ field.2.isNull = false ∧
    field.2.tokens limit = .error cause ∧
      ∀ earlier ∈ before, earlier.2.isNull = false → ∃ written, earlier.2.tokens limit = .ok written

section Failure

variable {limit : Nat} {cause : CompileError}

theorem failsFirst_cons {field : String × Literal} {rest : List (String × Literal)} :
    FailsFirst limit cause (field :: rest) ↔
      (field.2.isNull = false ∧ field.2.tokens limit = .error cause) ∨
        ((field.2.isNull = false → ∃ written, field.2.tokens limit = .ok written) ∧
          FailsFirst limit cause rest) := by
  constructor
  · rintro ⟨before, failing, after, hsplit, hvalue, hfails, hbefore⟩
    cases before with
    | nil =>
      cases hsplit
      exact .inl ⟨hvalue, hfails⟩
    | cons first others =>
      cases hsplit
      rw [List.forall_mem_cons] at hbefore
      exact .inr ⟨hbefore.1, others, failing, after, rfl, hvalue, hfails, hbefore.2⟩
  · rintro (⟨hvalue, hfails⟩ | ⟨hfirst, before, failing, after, rfl, hvalue, hfails, hbefore⟩)
    · exact ⟨[], field, rest, rfl, hvalue, hfails, List.forall_mem_nil _⟩
    · refine ⟨field :: before, failing, after, rfl, hvalue, hfails, ?_⟩
      rw [List.forall_mem_cons]
      exact ⟨hfirst, hbefore⟩

/-- Writing the values that are not null stops at the first that fails. -/
theorem mapM_tokens_eq_error_iff {fields : List (String × Literal)} :
    ((fields.filter fun field ↦ !field.2.isNull).mapM fun field ↦ field.2.tokens limit) =
      .error cause ↔ FailsFirst limit cause fields := by
  induction fields with
  | nil =>
    refine iff_of_false (fun herror ↦ by cases herror) ?_
    rintro ⟨before, field, after, hsplit, -⟩
    exact List.append_ne_nil_of_right_ne_nil before (List.cons_ne_nil field after) hsplit.symm
  | cons field rest ih =>
    rw [failsFirst_cons, ← ih]
    by_cases hnull : field.2.isNull = true
    · rw [List.filter_cons_of_neg (by simp [hnull])]
      simp [hnull]
    · rw [List.filter_cons_of_pos (by simp [hnull]), List.mapM_cons]
      cases hfirst : field.2.tokens limit with
      | error other => simp [hnull, bind, Except.bind]
      | ok written =>
        generalize (rest.filter fun field ↦ !field.2.isNull).mapM
          (fun field ↦ field.2.tokens limit) = others
        cases others <;> simp [bind, Except.bind, pure, Except.pure]

end Failure

/-! ### The composed statements -/

namespace Insert

/-- A composed insertion writes its fields that are not null, each with its own value. -/
theorem tokens_eq_of_ok {insert : Insert} {limit : Nat} {tokens : List Token}
    (hok : insert.tokens limit = .ok tokens) :
    ∃ assigned, Aligned limit (insert.fields.filter fun field ↦ !field.2.isNull) assigned ∧
      tokens = [.keyword .insert, .space, .keyword .into, .space, .identifier insert.table,
        .space] ++ RowStatement.rowWritten assigned ++ returningTokens insert.returning := by
  obtain ⟨row, hrow, hpure⟩ := bind_eq_ok.mp hok
  cases hpure
  change rowTokens limit (insert.fields.filter fun field ↦ !field.2.isNull) = _ at hrow
  generalize insert.fields.filter (fun field ↦ !field.2.isNull) = fields at hrow ⊢
  unfold rowTokens at hrow
  split_ifs at hrow with hempty
  · cases hrow
    rw [List.isEmpty_iff.mp hempty]
    exact ⟨[], .nil, rfl⟩
  · obtain ⟨values, hvalues, hpure⟩ := bind_eq_ok.mp hrow
    cases hpure
    obtain ⟨assigned, haligned, rfl⟩ := Aligned.exists_of_mapM (fun _ written ↦ written)
      (fun field result hresult ↦ ⟨result, hresult, rfl⟩) hvalues
    refine ⟨assigned, haligned, ?_⟩
    have hnames : (fields.map fun field ↦ [Token.identifier field.1]) =
        assigned.map fun pair ↦ [Token.identifier pair.1] := by
      have hcolumns := congrArg (List.map fun name ↦ [Token.identifier name]) haligned.map_fst
      rw [List.map_map, List.map_map] at hcolumns
      exact hcolumns.symm
    have hassigned : assigned.isEmpty = false := by
      simpa [haligned.eq_nil_iff] using hempty
    rw [RowStatement.rowWritten, hassigned, if_neg (by simp), ← hnames]

/-- A composed insertion is read as its table, its fields that are not null and the columns it gives
back. -/
theorem read?_tokens {insert : Insert} {limit : Nat} {tokens : List Token}
    (hok : insert.tokens limit = .ok tokens) :
    ∃ assigned, Aligned limit (insert.fields.filter fun field ↦ !field.2.isNull) assigned ∧
      RowStatement.read? tokens = some (.insert insert.table
        (if assigned = [] then none else some assigned) insert.returning) := by
  obtain ⟨assigned, haligned, rfl⟩ := tokens_eq_of_ok hok
  refine ⟨assigned, haligned, ?_⟩
  rw [List.append_assoc]
  exact RowStatement.insertion?_rowWritten haligned insert.table insert.returning

/-- An insertion fails exactly when some value that is not null does, for the cause of the first. -/
theorem tokens_eq_error_iff {insert : Insert} {limit : Nat} {cause : CompileError} :
    insert.tokens limit = .error cause ↔ FailsFirst limit cause insert.fields := by
  have hrow : rowTokens limit insert.present = .error cause ↔
      (insert.present.mapM fun field ↦ field.2.tokens limit) = .error cause := by
    unfold rowTokens
    by_cases hempty : insert.present = []
    · rw [hempty]
      exact iff_of_false (fun herror ↦ by cases herror) fun herror ↦ by cases herror
    · rw [if_neg (mt List.isEmpty_iff.mp hempty)]
      exact bind_pure_eq_error_iff
  rw [← mapM_tokens_eq_error_iff]
  exact (bind_pure_eq_error_iff).trans hrow

end Insert

theorem keyCondition_eq_of_ok {limit : Nat} {column : String} {value : Literal}
    {tokens : List Token} (hok : keyCondition limit column value = .ok tokens) :
    ∃ written, value.tokens limit = .ok written ∧
      tokens = [.keyword .where, .space] ++ assignmentTokens column written := by
  obtain ⟨written, hwritten, hpure⟩ := bind_eq_ok.mp hok
  cases hpure
  exact ⟨written, hwritten, rfl⟩

/-- A composed update by key is read as its table, all its fields and its key. -/
theorem UpdateOne.read?_tokens {update : UpdateOne} {limit : Nat} {tokens : List Token}
    (hok : update.tokens limit = .ok tokens) :
    ∃ assigned key, Aligned limit update.fields assigned ∧
      update.keyValue.tokens limit = .ok key ∧
        RowStatement.read? tokens = some (.update update.table assigned update.keyColumn key) := by
  unfold UpdateOne.tokens at hok
  split_ifs at hok with hempty
  obtain ⟨assignments, hassignments, hrest⟩ := bind_eq_ok.mp hok
  obtain ⟨condition, hcondition, hpure⟩ := bind_eq_ok.mp hrest
  cases hpure
  obtain ⟨key, hkey, rfl⟩ := keyCondition_eq_of_ok hcondition
  have hstep : ∀ (field : String × Literal) (result : List Token),
      (do let written ← field.2.tokens limit; pure (assignmentTokens field.1 written)) =
        .ok result → ∃ written, field.2.tokens limit = .ok written ∧
          result = assignmentTokens field.1 written := by
    intro field result hresult
    obtain ⟨written, hwritten, hpure⟩ := bind_eq_ok.mp hresult
    cases hpure
    exact ⟨written, hwritten, rfl⟩
  obtain ⟨assigned, haligned, rfl⟩ := Aligned.exists_of_mapM assignmentTokens hstep hassignments
  have hne : update.fields ≠ [] := mt List.isEmpty_iff.mpr hempty
  refine ⟨assigned, key, haligned, hkey, ?_⟩
  exact RowStatement.update?_written haligned hne hkey update.table update.keyColumn

/-- A composed deletion by key is read as its table and its key. -/
theorem DeleteOne.read?_tokens {delete : DeleteOne} {limit : Nat} {tokens : List Token}
    (hok : delete.tokens limit = .ok tokens) :
    ∃ key, delete.keyValue.tokens limit = .ok key ∧
      RowStatement.read? tokens = some (.delete delete.table delete.keyColumn key) := by
  obtain ⟨condition, hcondition, hpure⟩ := bind_eq_ok.mp hok
  cases hpure
  obtain ⟨key, hkey, rfl⟩ := keyCondition_eq_of_ok hcondition
  exact ⟨key, hkey, rfl⟩

/-- Row statements keep columns and values together. The tokens of an insertion, an update by key
and a deletion by key determine the table, the columns each with the tokens of its own value in
order, the columns that are given back, and the key. Of an insertion these are the fields that are
not null, and the defaults are asked for when there are none; null fields make no difference to it,
and it fails exactly when some other value cannot be written, for the cause of the first. -/
theorem rowStatements_aligned (limit : Nat) :
    (∀ (insert : Insert) (tokens : List Token), insert.tokens limit = .ok tokens →
      ∃ assigned, Aligned limit (insert.fields.filter fun field ↦ !field.2.isNull) assigned ∧
        RowStatement.read? tokens = some (.insert insert.table
          (if assigned = [] then none else some assigned) insert.returning)) ∧
      (∀ (update : UpdateOne) (tokens : List Token), update.tokens limit = .ok tokens →
        ∃ assigned key, Aligned limit update.fields assigned ∧
          update.keyValue.tokens limit = .ok key ∧
          RowStatement.read? tokens = some (.update update.table assigned update.keyColumn key)) ∧
      (∀ (delete : DeleteOne) (tokens : List Token), delete.tokens limit = .ok tokens →
        ∃ key, delete.keyValue.tokens limit = .ok key ∧
          RowStatement.read? tokens = some (.delete delete.table delete.keyColumn key)) ∧
      (∀ (table : String) (returning : List String) (fields others : List (String × Literal)),
        (fields.filter fun field ↦ !field.2.isNull) =
            (others.filter fun field ↦ !field.2.isNull) →
          Insert.tokens ⟨table, fields, returning⟩ limit =
            Insert.tokens ⟨table, others, returning⟩ limit) ∧
      ∀ (insert : Insert) (cause : CompileError), insert.tokens limit = .error cause ↔
        FailsFirst limit cause insert.fields := by
  refine ⟨?_, ?_, ?_, ?_, ?_⟩
  · intro insert tokens hok
    exact insert.read?_tokens hok
  · intro update tokens hok
    exact update.read?_tokens hok
  · intro delete tokens hok
    exact delete.read?_tokens hok
  · intro table returning fields others hvalues
    rw [Insert.tokens, Insert.tokens, Insert.present, Insert.present, hvalues]
  · intro insert cause
    exact insert.tokens_eq_error_iff

/-- A nested array with commas of its own, null fields beside it, and an infinity before it. -/
theorem rowStatements_aligned_posts :
    let tags : Literal := .array [.text "a, b", .array [.integer 1, .null] .integer] .text
    let insert : Insert := ⟨"posts", [("id", .null), ("tags", tags), ("title", .text "x")], ["id"]⟩
    let update : UpdateOne := ⟨"posts", "id", .integer 7, [("tags", tags), ("title", .null)]⟩
    let delete : DeleteOne := ⟨"posts", "id", .integer 7⟩
    (∃ tokens assigned, insert.tokens 512 = .ok tokens ∧
      Aligned 512 [("tags", tags), ("title", .text "x")] assigned ∧
        RowStatement.read? tokens = some (.insert "posts"
          (if assigned = [] then none else some assigned) ["id"])) ∧
      (∃ tokens assigned key, update.tokens 512 = .ok tokens ∧
        Aligned 512 [("tags", tags), ("title", .null)] assigned ∧
          RowStatement.read? tokens = some (.update "posts" assigned "id" key)) ∧
      (∃ tokens key, delete.tokens 512 = .ok tokens ∧
        RowStatement.read? tokens = some (.delete "posts" "id" key)) ∧
      Insert.tokens ⟨"posts", insert.fields, []⟩ 512 =
        Insert.tokens ⟨"posts", insert.fields.drop 1, []⟩ 512 ∧
      Insert.tokens ⟨"posts", [("id", .null), ("rate", .float .infinity), ("tags", tags)], []⟩ 512 =
        .error (Literal.notRepresentable .infinity) := by
  intro tags insert update delete
  obtain ⟨hinsert, hupdate, hdelete, hnull, hfails⟩ := rowStatements_aligned 512
  refine ⟨?_, ?_, ?_, hnull _ _ _ _ rfl, (hfails _ _).mpr ?_⟩
  · obtain ⟨assigned, haligned, hread⟩ := hinsert insert _ rfl
    exact ⟨_, assigned, rfl, haligned, hread⟩
  · obtain ⟨assigned, key, haligned, -, hread⟩ := hupdate update _ rfl
    exact ⟨_, assigned, key, rfl, haligned, hread⟩
  · obtain ⟨key, -, hread⟩ := hdelete delete _ rfl
    exact ⟨_, key, rfl, hread⟩
  · refine ⟨[("id", .null)], ("rate", .float .infinity), [("tags", tags)], rfl, rfl, rfl, ?_⟩
    rw [List.forall_mem_singleton]
    intro hvalue
    cases hvalue

end SqlCompose
