import SqlCompose.Proofs.Clause
import Mathlib.Data.List.Induction

/-!
The statements of a record by what was assigned last. A record is made by assigning values one after
another, and a later value of a field takes the place of the earlier one. What the record holds in
the end can be said without that run: the assigned fields in order of first assignment, each with
its final value (`Record.values_ofAssignments`).

From this the three statements of a record follow. Update and deletion need a key whose final value
is not null, and refuse the record otherwise; the update assigns all fields but the key and the
insertion those that are not null (`Compiler.statements_ofAssignments`).
-/

set_option autoImplicit false
set_option relaxedAutoImplicit false

namespace SqlCompose

theorem Literal.isNull_iff {value : Literal} : value.isNull = true ↔ value = .null := by
  cases value <;> simp [isNull]

namespace Record

/-! ### Final values -/

/-- The record after assigning values one after another. -/
def ofAssignments (schema : Schema) (assignments : List (String × Literal)) : Record :=
  assignments.foldl (fun record assignment ↦ record.set assignment.1 assignment.2) { schema }

/-- The value that was assigned to a field last, or null if none was. -/
def finalValue (assignments : List (String × Literal)) (field : String) : Literal :=
  (assignments.reverse.lookup field).getD .null

/-- The assigned fields in order of first assignment. -/
def assignedFields (assignments : List (String × Literal)) : List String :=
  (assignments.map Prod.fst).eraseDups

theorem ofAssignments_append (schema : Schema) (assignments : List (String × Literal))
    (assignment : String × Literal) :
    ofAssignments schema (assignments ++ [assignment]) =
      (ofAssignments schema assignments).set assignment.1 assignment.2 := by
  rw [ofAssignments, List.foldl_append]
  rfl

theorem finalValue_append (assignments : List (String × Literal))
    (assignment : String × Literal) (name : String) :
    finalValue (assignments ++ [assignment]) name =
      if name = assignment.1 then assignment.2 else finalValue assignments name := by
  rw [finalValue, List.reverse_append, List.reverse_singleton, List.singleton_append,
    List.lookup_cons]
  by_cases hname : name = assignment.1
  · rw [if_pos hname, beq_iff_eq.mpr hname]
    rfl
  · rw [if_neg hname, beq_eq_false_iff_ne.mpr hname]
    rfl

theorem mem_assignedFields {assignments : List (String × Literal)} {field : String} :
    field ∈ assignedFields assignments ↔ field ∈ assignments.map Prod.fst :=
  List.mem_eraseDups

theorem finalValue_of_not_mem {assignments : List (String × Literal)} {field : String}
    (hfield : field ∉ assignedFields assignments) : finalValue assignments field = .null := by
  have hnone : assignments.reverse.lookup field = none := by
    rw [List.lookup_eq_none_iff]
    intro assignment hmem
    rw [mem_assignedFields] at hfield
    have hne : field ≠ assignment.1 := fun heq ↦
      hfield (heq ▸ List.mem_map_of_mem (List.mem_reverse.mp hmem))
    simpa using hne
  rw [finalValue, hnone, Option.getD_none]

theorem assignedFields_append (assignments : List (String × Literal))
    (assignment : String × Literal) :
    assignedFields (assignments ++ [assignment]) =
      if assignment.1 ∈ assignedFields assignments then assignedFields assignments
      else assignedFields assignments ++ [assignment.1] := by
  rw [assignedFields, List.map_append, List.eraseDups_append, List.map_singleton,
    ← assignedFields, List.removeAll, List.filter_singleton]
  by_cases hmem : assignment.1 ∈ assignedFields assignments
  · rw [if_pos hmem, List.elem_eq_true_of_mem (mem_assignedFields.mp hmem)]
    exact List.append_nil _
  · have hnew : List.elem assignment.1 (assignments.map Prod.fst) = false :=
      Bool.eq_false_iff.mpr fun helem ↦
        hmem (mem_assignedFields.mpr (List.mem_of_elem_eq_true helem))
    rw [if_neg hmem, hnew]
    rfl

theorem nodup_assignedFields (assignments : List (String × Literal)) :
    (assignedFields assignments).Nodup := by
  induction assignments using List.reverseRecOn with
  | nil => exact List.nodup_nil
  | append_singleton earlier assignment ih =>
    rw [assignedFields_append]
    split_ifs with hmem
    · exact ih
    · refine List.nodup_append.mpr ⟨ih, by simp, ?_⟩
      rintro name hname other hother rfl
      exact hmem (List.mem_singleton.mp hother ▸ hname)

/-! ### The values of a record -/

/-- Assigning to a field changes its value alone, and adds the field if it is new. -/
theorem assign_map {names : List String} (hnodup : names.Nodup) (final : String → Literal)
    (field : String) (value : Literal) :
    assign field value (names.map fun name ↦ (name, final name)) =
      (if field ∈ names then names else names ++ [field]).map fun name ↦
        (name, if name = field then value else final name) := by
  induction names with
  | nil => simp [assign]
  | cons first rest ih =>
    obtain ⟨hfirst, hrest⟩ := List.nodup_cons.mp hnodup
    rw [List.map_cons, assign]
    by_cases heq : first = field
    · have hkept : ∀ name ∈ rest, (name, final name) =
          (name, if name = field then value else final name) := by
        intro name hmem
        have hne : name ≠ field := fun hname ↦ hfirst (heq ▸ hname ▸ hmem)
        rw [if_neg hne]
      rw [if_pos heq, if_pos (heq ▸ List.mem_cons_self), List.map_cons, if_pos heq,
        List.map_congr_left hkept]
    · have hmem : field ∈ first :: rest ↔ field ∈ rest :=
        List.mem_cons.trans (or_iff_right fun hfield ↦ heq hfield.symm)
      rw [if_neg heq, ih hrest]
      by_cases hold : field ∈ rest
      · rw [if_pos hold, if_pos (hmem.mpr hold), List.map_cons, if_neg heq]
      · rw [if_neg hold, if_neg fun hfield ↦ hold (hmem.mp hfield), List.cons_append, List.map_cons,
          if_neg heq]

theorem values_ofAssignments (schema : Schema) (assignments : List (String × Literal)) :
    (ofAssignments schema assignments).values =
      (assignedFields assignments).map fun name ↦ (name, finalValue assignments name) := by
  induction assignments using List.reverseRecOn with
  | nil => rfl
  | append_singleton earlier assignment ih =>
    rw [ofAssignments_append, set, ih, assign_map (nodup_assignedFields earlier),
      assignedFields_append]
    simp only [finalValue_append]

theorem schema_ofAssignments (schema : Schema) (assignments : List (String × Literal)) :
    (ofAssignments schema assignments).schema = schema := by
  induction assignments using List.reverseRecOn with
  | nil => rfl
  | append_singleton earlier assignment ih =>
    rw [ofAssignments_append, set, ih]

/-- Reading a field gives its final value. -/
theorem get?_ofAssignments (schema : Schema) (assignments : List (String × Literal))
    (field : String) :
    ((ofAssignments schema assignments).get? field).getD .null = finalValue assignments field := by
  rw [get?, values_ofAssignments, List.find?_map]
  cases hfound : (assignedFields assignments).find? _ with
  | none =>
    have hfield : field ∉ assignedFields assignments := fun hmem ↦
      absurd (beq_self_eq_true field) (List.find?_eq_none.mp hfound field hmem)
    rw [finalValue_of_not_mem hfield]
    rfl
  | some name =>
    have hname : name = field := by simpa using List.find?_some hfound
    rw [hname]
    rfl

/-! ### The fields of a record -/

/-- The declared fields, and behind them the others in order of first assignment. -/
def columns (schema : Schema) (assignments : List (String × Literal)) : List String :=
  schema.fields ++ (assignedFields assignments).filter fun name ↦ !schema.fields.contains name

/-- The fields of a record, each with its final value. -/
def finalFields (schema : Schema) (assignments : List (String × Literal)) :
    List (String × Literal) :=
  (columns schema assignments).map fun name ↦ (name, finalValue assignments name)

/-- The fields other than the primary key, each with its final value. -/
def finalFieldsBesideKey (schema : Schema) (assignments : List (String × Literal)) :
    List (String × Literal) :=
  (finalFields schema assignments).filter fun field ↦ some field.1 != schema.primaryKey

theorem nodup_columns {schema : Schema} (hfields : schema.fields.Nodup)
    (assignments : List (String × Literal)) : (columns schema assignments).Nodup := by
  refine List.nodup_append.mpr ⟨hfields, (nodup_assignedFields assignments).filter _, ?_⟩
  intro declared hdeclared other hother heq
  have hundeclared := (List.mem_filter.mp hother).2
  rw [← heq, List.contains_iff_mem.mpr hdeclared] at hundeclared
  cases hundeclared

theorem columns_of_declared {schema : Schema} {assignments : List (String × Literal)}
    (hdeclared : ∀ assignment ∈ assignments, assignment.1 ∈ schema.fields) :
    columns schema assignments = schema.fields := by
  have hnone : (assignedFields assignments).filter (fun name ↦ !schema.fields.contains name) =
      [] := by
    refine List.filter_eq_nil_iff.mpr fun name hname ↦ ?_
    obtain ⟨assignment, hmem, rfl⟩ := List.mem_map.mp (mem_assignedFields.mp hname)
    simpa using hdeclared assignment hmem
  rw [columns, hnone, List.append_nil]

/-- The fields of a record are the declared ones and the others, with or without the key. -/
theorem fieldValues_ofAssignments (schema : Schema) (assignments : List (String × Literal))
    (includeKey : Bool) :
    (ofAssignments schema assignments).fieldValues includeKey =
      (finalFields schema assignments).filter fun field ↦
        includeKey || some field.1 != schema.primaryKey := by
  have hkeeps : (ofAssignments schema assignments).keeps includeKey =
      fun name ↦ includeKey || some name != schema.primaryKey := by
    funext name
    rw [keeps, schema_ofAssignments]
  simp only [fieldValues, get?_ofAssignments, hkeeps, schema_ofAssignments, values_ofAssignments,
    finalFields, columns, List.filter_map, List.filter_append, List.filter_filter, List.map_append,
    Function.comp_def, Bool.and_comm]

theorem fieldValues_true (schema : Schema) (assignments : List (String × Literal)) :
    (ofAssignments schema assignments).fieldValues true = finalFields schema assignments := by
  rw [fieldValues_ofAssignments]
  exact List.filter_true _

theorem fieldValues_false (schema : Schema) (assignments : List (String × Literal)) :
    (ofAssignments schema assignments).fieldValues false =
      finalFieldsBesideKey schema assignments := by
  rw [fieldValues_ofAssignments]
  rfl

/-- There is nothing to assign beside the key when it is the only field. -/
theorem finalFieldsBesideKey_eq_nil_iff {schema : Schema} {key : String}
    (hkey : schema.primaryKey = some key) {assignments : List (String × Literal)} :
    finalFieldsBesideKey schema assignments = [] ↔
      ∀ name ∈ columns schema assignments, name = key := by
  rw [finalFieldsBesideKey, List.filter_eq_nil_iff, finalFields, List.forall_mem_map, hkey]
  simp

/-! ### The key of a record -/

/-- A field with a final value is among the columns. -/
theorem mem_columns_of_finalValue {schema : Schema} {assignments : List (String × Literal)}
    {field : String} (hvalue : finalValue assignments field ≠ .null) :
    field ∈ columns schema assignments := by
  have hassigned : field ∈ assignedFields assignments := by
    by_contra hmissing
    exact hvalue (finalValue_of_not_mem hmissing)
  rw [columns, List.mem_append, List.mem_filter]
  by_cases hdeclared : field ∈ schema.fields
  · exact .inl hdeclared
  · exact .inr ⟨hassigned, by simpa using hdeclared⟩

/-- The value of a field is found, unless it is null. -/
theorem find?_finalFields (schema : Schema) (assignments : List (String × Literal))
    (key : String) :
    (finalFields schema assignments).find? (fun field ↦ field.1 == key && !field.2.isNull) =
      if (finalValue assignments key).isNull then none
      else some (key, finalValue assignments key) := by
  by_cases hnull : (finalValue assignments key).isNull = true
  · rw [if_pos hnull]
    refine List.find?_eq_none.mpr (List.forall_mem_map.mpr fun name _ ↦ ?_)
    by_cases hname : name = key
    · simp [hname, hnull]
    · simp [hname]
  · rw [if_neg hnull]
    have hmem : (key, finalValue assignments key) ∈ finalFields schema assignments :=
      List.mem_map_of_mem (mem_columns_of_finalValue fun heq ↦ hnull (heq ▸ rfl))
    cases hfound : (finalFields schema assignments).find? _ with
    | none => exact absurd (by simpa using hnull) (List.find?_eq_none.mp hfound _ hmem)
    | some field =>
      obtain ⟨name, -, rfl⟩ := List.mem_map.mp (List.mem_of_find?_eq_some hfound)
      have hname : name = key := by
        have hboth := List.find?_some hfound
        simp only [Bool.and_eq_true, beq_iff_eq] at hboth
        exact hboth.1
      rw [hname]

theorem primaryKeyValue?_eq (record : Record) {key : String}
    (hkey : record.schema.primaryKey = some key) :
    record.primaryKeyValue? = ((record.fieldValues true).find? fun field ↦
      field.1 == key && !field.2.isNull).map Prod.snd := by
  rw [primaryKeyValue?, hkey]
  cases hfound : (record.fieldValues true).find? fun field ↦ field.1 == key && !field.2.isNull with
  | none => exact congrArg (Option.bind · _) hfound
  | some field => exact congrArg (Option.bind · _) hfound

/-- The key of a record is there when the schema has one and its final value is not null. -/
theorem key_ofAssignments {schema : Schema} {key : String} (hkey : schema.primaryKey = some key)
    {assignments : List (String × Literal)} (hvalue : finalValue assignments key ≠ .null) :
    (ofAssignments schema assignments).key = .ok (key, finalValue assignments key) := by
  have hschema := schema_ofAssignments schema assignments
  rw [Record.key, primaryKeyValue?_eq _ (hschema ▸ hkey), fieldValues_true, find?_finalFields,
    hschema, hkey, if_neg fun hnull ↦ hvalue (Literal.isNull_iff.mp hnull)]
  rfl

theorem key_ofAssignments_eq_error {schema : Schema} {assignments : List (String × Literal)}
    (hvalue : ∀ key, schema.primaryKey = some key → finalValue assignments key = .null) :
    (ofAssignments schema assignments).key = .error (.missingPrimaryKey schema.table) := by
  have hschema := schema_ofAssignments schema assignments
  cases hkey : schema.primaryKey with
  | none => rw [Record.key, hschema, hkey]
  | some key =>
    rw [Record.key, primaryKeyValue?_eq _ (hschema ▸ hkey), fieldValues_true, find?_finalFields,
      hschema, hkey, if_pos (Literal.isNull_iff.mpr (hvalue key hkey))]
    rfl

end Record

/-! ### Failures of row statements -/

/-- A literal that is written on its own can be composed. -/
def Literal.Composable (limit : Nat) (value : Literal) : Prop :=
  1 ≤ limit ∧ value.ComposableAt limit 1

section Settling

variable (limit : Nat) (scope : Scope)

theorem settles_keyCondition (column : String) (value : Literal) :
    Settles limit (value.Composable limit)
      ([.keyword .where, .space] ++ assignmentTokens column (value.form.tokens scope))
      (keyCondition limit column value) :=
  (value.settles_tokens limit scope).map rfl

theorem DeleteOne.settles_tokens (delete : DeleteOne) :
    Settles limit (delete.keyValue.Composable limit)
      ([.keyword .delete, .space, .keyword .from, .space, .identifier delete.table, .space] ++
        ([.keyword .where, .space] ++
          assignmentTokens delete.keyColumn (delete.keyValue.form.tokens scope)))
      (delete.tokens limit) :=
  (settles_keyCondition limit scope delete.keyColumn delete.keyValue).map rfl

/-- An update by key that has assignments settles on what is written for its values. -/
theorem UpdateOne.settles_tokens {update : UpdateOne} (hfields : update.fields ≠ []) :
    Settles limit
      ((∀ field ∈ update.fields, field.2.Composable limit) ∧ update.keyValue.Composable limit)
      ([.keyword .update, .space, .identifier update.table, .space, .keyword .set, .space] ++
        Token.commaSeparated (update.fields.map fun field ↦
          assignmentTokens field.1 (field.2.form.tokens scope)) ++
        .space :: ([.keyword .where, .space] ++
          assignmentTokens update.keyColumn (update.keyValue.form.tokens scope)))
      (update.tokens limit) := by
  rw [UpdateOne.tokens, if_neg (by simpa using hfields)]
  exact (Settles.mapM fun field _ ↦ (field.2.settles_tokens limit scope).map rfl).bind fun _ ↦
    (settles_keyCondition limit scope update.keyColumn update.keyValue).map rfl

end Settling

/-- An update by key that is refused for want of assignments has none. -/
theorem UpdateOne.tokens_eq_noAssignments_iff {update : UpdateOne} {limit : Nat} {table : String} :
    update.tokens limit = .error (.noAssignments table) ↔
      table = update.table ∧ update.fields = [] := by
  by_cases hfields : update.fields = []
  · rw [UpdateOne.tokens, hfields, and_iff_left rfl, eq_comm]
    exact ⟨fun herror ↦ CompileError.noAssignments.inj (Except.error.inj herror),
      fun heq ↦ heq ▸ rfl⟩
  · refine iff_of_false (fun herror ↦ ?_) fun hboth ↦ hfields hboth.2
    nomatch (update.settles_tokens limit (.ofSources [] limit) hfields).failure_of_error herror

namespace Compiler

theorem result_run_eq_error_iff {compiler : Compiler} {name : String} {sources : Nat}
    {composed : Except CompileError (List Token)} {cause : CompileError} :
    (compiler.run name sources composed).result = .error cause ↔ composed = .error cause := by
  cases composed with
  | ok tokens => exact iff_of_false nofun nofun
  | error other =>
    rw [Except.error.injEq]
    exact ⟨Except.error.inj, congrArg Except.error⟩

/-! ### Statements of a record -/

open Record

section Statements

variable (compiler : Compiler) {schema : Schema} {assignments : List (String × Literal)}

theorem deleteRecord_ofAssignments {key : String} (hkey : schema.primaryKey = some key)
    (hvalue : finalValue assignments key ≠ .null) :
    compiler.deleteRecord (ofAssignments schema assignments) =
      compiler.deleteOne ⟨schema.table, key, finalValue assignments key⟩ := by
  rw [deleteRecord, key_ofAssignments hkey hvalue, schema_ofAssignments]

theorem updateRecord_ofAssignments {key : String} (hkey : schema.primaryKey = some key)
    (hvalue : finalValue assignments key ≠ .null) :
    compiler.updateRecord (ofAssignments schema assignments) =
      compiler.updateOne ⟨schema.table, key, finalValue assignments key,
        finalFieldsBesideKey schema assignments⟩ := by
  rw [updateRecord, key_ofAssignments hkey hvalue, schema_ofAssignments, fieldValues_false]

/-- A record without a key value is refused. -/
theorem refused_ofAssignments
    (hvalue : ∀ key, schema.primaryKey = some key → finalValue assignments key = .null) :
    compiler.deleteRecord (ofAssignments schema assignments) =
        ⟨.error (.missingPrimaryKey schema.table), []⟩ ∧
      compiler.updateRecord (ofAssignments schema assignments) =
        ⟨.error (.missingPrimaryKey schema.table), []⟩ := by
  rw [deleteRecord, updateRecord, key_ofAssignments_eq_error hvalue]
  exact ⟨rfl, rfl⟩

theorem insertRecord_ofAssignments (returning : List String) :
    compiler.insertRecord (ofAssignments schema assignments) returning =
      compiler.insert ⟨schema.table,
        (finalFields schema assignments).filter fun field ↦ !field.2.isNull, returning⟩ := by
  rw [insertRecord, schema_ofAssignments, fieldValues_true]
  simp only [insert, Insert.tokens, Insert.present, List.filter_filter, Bool.and_self]

/-- What refuses records without a key value, and no others for that cause. -/
theorem result_eq_missing_iff {compilation : Compilation} {table : String}
    (hrefused : (∀ key, schema.primaryKey = some key → finalValue assignments key = .null) →
      compilation.result = .error (.missingPrimaryKey schema.table))
    (hkeyed : ∀ key, schema.primaryKey = some key → finalValue assignments key ≠ .null →
      compilation.result ≠ .error (.missingPrimaryKey table)) :
    compilation.result = .error (.missingPrimaryKey table) ↔
      table = schema.table ∧
        ∀ key, schema.primaryKey = some key → finalValue assignments key = .null := by
  by_cases hvalue : ∀ key, schema.primaryKey = some key → finalValue assignments key = .null
  · rw [hrefused hvalue, and_iff_left hvalue, Except.error.injEq,
      CompileError.missingPrimaryKey.injEq, eq_comm]
  · refine iff_of_false ?_ fun hboth ↦ hvalue hboth.2
    push Not at hvalue
    obtain ⟨key, hkey, hne⟩ := hvalue
    exact hkeyed key hkey hne

theorem result_deleteRecord_eq_missing_iff {table : String} :
    (compiler.deleteRecord (ofAssignments schema assignments)).result =
        .error (.missingPrimaryKey table) ↔
      table = schema.table ∧
        ∀ key, schema.primaryKey = some key → finalValue assignments key = .null := by
  refine result_eq_missing_iff (fun hvalue ↦ ?_) fun key hkey hvalue herror ↦ ?_
  · rw [(compiler.refused_ofAssignments hvalue).1]
  · rw [compiler.deleteRecord_ofAssignments hkey hvalue, deleteOne,
      result_run_eq_error_iff] at herror
    nomatch (DeleteOne.settles_tokens _ (.ofSources [] 0) _).failure_of_error herror

theorem result_updateRecord_eq_missing_iff {table : String} :
    (compiler.updateRecord (ofAssignments schema assignments)).result =
        .error (.missingPrimaryKey table) ↔
      table = schema.table ∧
        ∀ key, schema.primaryKey = some key → finalValue assignments key = .null := by
  refine result_eq_missing_iff (fun hvalue ↦ ?_) fun key hkey hvalue herror ↦ ?_
  · rw [(compiler.refused_ofAssignments hvalue).2]
  · rw [compiler.updateRecord_ofAssignments hkey hvalue, updateOne,
      result_run_eq_error_iff] at herror
    by_cases hfields : finalFieldsBesideKey schema assignments = []
    · rw [hfields] at herror
      cases herror
    · nomatch (UpdateOne.settles_tokens _ (.ofSources [] 0) hfields).failure_of_error herror

/-- The statements of a record depend on the final values of its fields alone. -/
theorem statements_eq_of_finalFields {others : List (String × Literal)}
    (hfields : finalFields schema assignments = finalFields schema others) :
    compiler.deleteRecord (ofAssignments schema assignments) =
        compiler.deleteRecord (ofAssignments schema others) ∧
      compiler.updateRecord (ofAssignments schema assignments) =
        compiler.updateRecord (ofAssignments schema others) ∧
      ∀ returning, compiler.insertRecord (ofAssignments schema assignments) returning =
        compiler.insertRecord (ofAssignments schema others) returning := by
  have hall : (ofAssignments schema assignments).fieldValues true =
      (ofAssignments schema others).fieldValues true := by
    rw [fieldValues_true, fieldValues_true, hfields]
  have hkey : (ofAssignments schema assignments).key = (ofAssignments schema others).key := by
    rw [Record.key, Record.key, primaryKeyValue?, primaryKeyValue?, hall, schema_ofAssignments,
      schema_ofAssignments]
  refine ⟨?_, ?_, fun returning ↦ ?_⟩
  · rw [deleteRecord, deleteRecord, hkey, schema_ofAssignments, schema_ofAssignments]
  · rw [updateRecord, updateRecord, hkey, schema_ofAssignments, schema_ofAssignments,
      fieldValues_false, fieldValues_false, finalFieldsBesideKey, finalFieldsBesideKey, hfields]
  · rw [insertRecord, insertRecord, hall, schema_ofAssignments, schema_ofAssignments]

end Statements

/-- The statements of a record follow the final values of its fields. Update and deletion are
refused exactly when the schema has no key or its final value is null, and are otherwise made with
that key value. The update then assigns all fields but the key and fails without assignments exactly
when the key is the only field; the insertion writes all fields that are not null. With distinct
declared fields no column is repeated, and when only declared fields were assigned, nothing but
their final values counts. -/
theorem statements_ofAssignments (compiler : Compiler) (schema : Schema)
    (assignments : List (String × Literal)) :
    let record := ofAssignments schema assignments
    let assigned := finalFieldsBesideKey schema assignments
    let inserted := (finalFields schema assignments).filter fun field ↦ !field.2.isNull
    (∀ table,
      ((compiler.deleteRecord record).result = .error (.missingPrimaryKey table) ↔
        table = schema.table ∧
          ∀ key, schema.primaryKey = some key → finalValue assignments key = .null) ∧
      ((compiler.updateRecord record).result = .error (.missingPrimaryKey table) ↔
        table = schema.table ∧
          ∀ key, schema.primaryKey = some key → finalValue assignments key = .null)) ∧
    (∀ key, schema.primaryKey = some key → finalValue assignments key ≠ .null →
      compiler.deleteRecord record =
          compiler.deleteOne ⟨schema.table, key, finalValue assignments key⟩ ∧
        compiler.updateRecord record =
          compiler.updateOne ⟨schema.table, key, finalValue assignments key, assigned⟩ ∧
        ∀ table, (compiler.updateRecord record).result = .error (.noAssignments table) ↔
          table = schema.table ∧ ∀ name ∈ columns schema assignments, name = key) ∧
    (∀ returning, compiler.insertRecord record returning =
      compiler.insert ⟨schema.table, inserted, returning⟩) ∧
    (schema.fields.Nodup → (assigned.map Prod.fst).Nodup ∧ (inserted.map Prod.fst).Nodup) ∧
    ∀ others : List (String × Literal),
      (∀ assignment ∈ assignments ++ others, assignment.1 ∈ schema.fields) →
      (∀ field ∈ schema.fields, finalValue assignments field = finalValue others field) →
      compiler.deleteRecord record = compiler.deleteRecord (ofAssignments schema others) ∧
        compiler.updateRecord record = compiler.updateRecord (ofAssignments schema others) ∧
        ∀ returning, compiler.insertRecord record returning =
          compiler.insertRecord (ofAssignments schema others) returning := by
  intro record assigned inserted
  have hnames : (finalFields schema assignments).map Prod.fst = columns schema assignments := by
    rw [finalFields, List.map_map]
    exact List.map_id _
  refine ⟨fun table ↦ ⟨compiler.result_deleteRecord_eq_missing_iff,
    compiler.result_updateRecord_eq_missing_iff⟩, fun key hkey hvalue ↦ ?_,
    compiler.insertRecord_ofAssignments, fun hnodup ↦ ?_, fun others hdeclared hfinal ↦ ?_⟩
  · have hupdate := compiler.updateRecord_ofAssignments hkey hvalue
    refine ⟨compiler.deleteRecord_ofAssignments hkey hvalue, hupdate, fun table ↦ ?_⟩
    rw [hupdate, updateOne, result_run_eq_error_iff, UpdateOne.tokens_eq_noAssignments_iff,
      finalFieldsBesideKey_eq_nil_iff hkey]
  · have hcolumns : ((finalFields schema assignments).map Prod.fst).Nodup :=
      hnames ▸ nodup_columns hnodup assignments
    exact ⟨hcolumns.sublist (List.filter_sublist.map _),
      hcolumns.sublist (List.filter_sublist.map _)⟩
  · rw [List.forall_mem_append] at hdeclared
    refine compiler.statements_eq_of_finalFields ?_
    rw [finalFields, finalFields, columns_of_declared hdeclared.1, columns_of_declared hdeclared.2]
    refine List.map_congr_left fun field hfield ↦ ?_
    rw [hfinal field hfield]

/-- A record whose name was assigned twice, with a field that is not declared. -/
theorem statements_ofAssignments_users :
    let compiler : Compiler := {}
    let schema : Schema := ⟨"users", ["id", "name", "email"], some "id"⟩
    let record := ofAssignments schema [("nick", .text "al"), ("name", .text "Al"),
      ("id", .integer 7), ("name", .text "Alan")]
    compiler.deleteRecord record = compiler.deleteOne ⟨"users", "id", .integer 7⟩ ∧
      compiler.updateRecord record = compiler.updateOne ⟨"users", "id", .integer 7,
        [("name", .text "Alan"), ("email", .null), ("nick", .text "al")]⟩ ∧
      compiler.insertRecord record [] = compiler.insert ⟨"users",
        [("id", .integer 7), ("name", .text "Alan"), ("nick", .text "al")], []⟩ := by
  intro compiler schema record
  obtain ⟨-, hkeyed, hinsert, -⟩ := compiler.statements_ofAssignments schema
    [("nick", .text "al"), ("name", .text "Al"), ("id", .integer 7), ("name", .text "Alan")]
  obtain ⟨hdelete, hupdate, -⟩ := hkeyed "id" rfl (fun hnull ↦ nomatch hnull)
  exact ⟨hdelete, hupdate, hinsert []⟩

end Compiler

end SqlCompose
