import SqlCompose.Literal

/-!
What is known of a table and of its rows. A schema names a table, its fields in order and, if there
is one, its primary key. A source is a table that takes part in a statement: usually the schema's
own, possibly another one with the same fields. A record is one row: a schema with the values
assigned so far.
-/

set_option autoImplicit false
set_option relaxedAutoImplicit false

namespace SqlCompose

/-- A table with its fields. -/
structure Schema where
  table : String
  fields : List String := []
  primaryKey : Option String := none
deriving DecidableEq, Repr

namespace Schema

/-- The schema with one more field. -/
def withField (schema : Schema) (name : String) : Schema :=
  { schema with fields := schema.fields ++ [name] }

/-- The schema with several more fields. -/
def withFields (schema : Schema) (names : List String) : Schema :=
  { schema with fields := schema.fields ++ names }

/-- The schema with the given primary key, which becomes the first field unless it is a field
already. -/
def withPrimaryKey (schema : Schema) (name : String) : Schema :=
  { schema with
    fields := if schema.fields.contains name then schema.fields else name :: schema.fields
    primaryKey := some name }

end Schema

/-- A table that takes part in a statement, with the schema of its rows. -/
structure Source where
  table : String
  schema : Schema
deriving DecidableEq, Repr

namespace Source

/-- The schema's own table. -/
def ofSchema (schema : Schema) : Source :=
  ⟨schema.table, schema⟩

/-- The table of one schema with the fields of another. -/
def ofModel (model schema : Schema) : Source :=
  ⟨model.table, schema⟩

end Source

/-- A row: assigned values by field, each field once, in order of first assignment. -/
structure Record where
  schema : Schema
  values : List (String × Literal) := []

namespace Record

/-- The assignments after giving a field a value: its earlier value is replaced in place. -/
def assign (field : String) (value : Literal) :
    List (String × Literal) → List (String × Literal)
  | [] => [(field, value)]
  | (name, old) :: rest =>
    if name = field then (name, value) :: rest else (name, old) :: assign field value rest

/-- The record after giving a field a value. -/
def set (record : Record) (field : String) (value : Literal) : Record :=
  { record with values := assign field value record.values }

/-- The value assigned to a field. -/
def get? (record : Record) (field : String) : Option Literal :=
  (record.values.find? fun entry ↦ entry.1 == field).map Prod.snd

/-- Whether a field takes part: the primary key does so only on demand. -/
def keeps (record : Record) (includeKey : Bool) (field : String) : Bool :=
  includeKey || some field != record.schema.primaryKey

/-- The declared fields in schema order, null where nothing was assigned, and then the other
assigned fields in order of assignment. -/
def fieldValues (record : Record) (includeKey : Bool) : List (String × Literal) :=
  let declared := (record.schema.fields.filter (record.keeps includeKey)).map fun name ↦
    (name, (record.get? name).getD .null)
  let others := record.values.filter fun (name, _) ↦
    !record.schema.fields.contains name && record.keeps includeKey name
  declared ++ others

/-- The value of the primary key, unless there is no key or its value is absent or null. -/
def primaryKeyValue? (record : Record) : Option Literal := do
  let key ← record.schema.primaryKey
  let (_, value) ← (record.fieldValues true).find? fun (name, value) ↦
    name == key && !value.isNull
  pure value

end Record

end SqlCompose
