import Mathlib.Data.List.Forall2
import SqlCompose.Compiler
import SqlCompose.Json.Shape

/-!
The ways to present a JSON value. What is written for a value of the program is one of many values
that stand for the same: the keys of a structure may come in any order and among keys that mean
nothing, fields may be left out when they hold their default, and the whole structure may be the
array of its fields in order, from which defaults are left off at the end. All this may happen at
any depth and in any combination.

`Part` names the kinds of values that others are made of, and `Part.rule` says for each how it is
put together: this is the one place where field names, their order and their defaults are listed.
`Presents part written json` then says that `json` is a presentation of `written`. What a reader can
rely on is stated in terms of `PresentsWithin`, which also bounds how deep values are nested: the
items of an array (`PresentsWithin.exists_items`), the content behind a kind
(`PresentsWithin.exists_content`), and the fields of a structure, which are found whatever their
arrangement (`PresentsWithin.exists_fields`).
-/

set_option autoImplicit false
set_option relaxedAutoImplicit false

namespace SqlCompose.Json

/-! ### Nesting -/

mutual

/-- How many arrays and objects are nested in a value, one inside the other. -/
def nesting : Json → Nat
  | array items => nestingOfItems items + 1
  | object members => nestingOfMembers members + 1
  | _ => 0

/-- The deepest nesting among items. -/
def nestingOfItems : List Json → Nat
  | [] => 0
  | item :: rest => max (nesting item) (nestingOfItems rest)

/-- The deepest nesting among members. -/
def nestingOfMembers : List (String × Json) → Nat
  | [] => 0
  | (_, value) :: rest => max (nesting value) (nestingOfMembers rest)

end

theorem nesting_lt_of_mem_items {item : Json} {items : List Json} (hitem : item ∈ items) :
    item.nesting < (array items).nesting := by
  rw [nesting, Nat.lt_succ_iff]
  induction items with
  | nil => cases hitem
  | cons first rest ih =>
    rw [nestingOfItems]
    rcases List.mem_cons.mp hitem with rfl | hrest
    · exact Nat.le_max_left _ _
    · exact Nat.le_trans (ih hrest) (Nat.le_max_right _ _)

theorem nesting_lt_of_mem_members {entry : String × Json} {members : List (String × Json)}
    (hentry : entry ∈ members) : entry.2.nesting < (object members).nesting := by
  rw [nesting, Nat.lt_succ_iff]
  induction members with
  | nil => cases hentry
  | cons first rest ih =>
    rw [nestingOfMembers]
    rcases List.mem_cons.mp hentry with rfl | hrest
    · exact Nat.le_max_left _ _
    · exact Nat.le_trans (ih hrest) (Nat.le_max_right _ _)

/-! ### Arrangements of fields -/

/-- The members for those fields that are given. -/
def givenMembers : List String → List (Option Json) → List (String × Json)
  | name :: names, some value :: given => (name, value) :: givenMembers names given
  | _ :: names, none :: given => givenMembers names given
  | _, _ => []

/-- The fields of a structure, as far as they are given, as an object with its keys in any order and
possibly with other keys, or as an array in order, where only fields at the end can be absent. -/
inductive Arranges (names : List String) (given : List (Option Json)) : Json → Prop
  | keyed (members others : List (String × Json))
      (hothers : ∀ entry ∈ others, entry.1 ∉ names)
      (hmembers : members.Perm (givenMembers names given ++ others)) :
      Arranges names given (object members)
  | positional (items : List Json) (absent : Nat)
      (hgiven : given = items.map some ++ List.replicate absent none) :
      Arranges names given (array items)

theorem filter_givenMembers_of_notMem {names : List String} {key : String} (hkey : key ∉ names)
    (given : List (Option Json)) :
    (givenMembers names given).filter (fun entry ↦ entry.1 == key) = [] := by
  induction names generalizing given with
  | nil => simp [givenMembers]
  | cons name names ih =>
    rw [List.mem_cons, not_or] at hkey
    cases given with
    | nil => simp [givenMembers]
    | cons value given =>
      cases value with
      | none => exact ih hkey.2 given
      | some value =>
        rw [givenMembers, List.filter_cons_of_neg (by simpa using Ne.symm hkey.1)]
        exact ih hkey.2 given

/-- A key is looked up among its own occurrences. -/
theorem member?_of_filter {members : List (String × Json)} {key : String} {value : Option Json}
    (hfilter : members.filter (fun entry ↦ entry.1 == key) =
      (value.map fun content ↦ (key, content)).toList) :
    member? members key = some value := by
  rw [member?, hfilter]
  cases value <;> rfl

/-- The members under a key are the one that is given, if any: the order among different keys is
free, but no key occurs twice. -/
theorem filter_of_keyed {names : List String} {given : List (Option Json)}
    {members others : List (String × Json)} (hothers : ∀ entry ∈ others, entry.1 ∉ names)
    (hmembers : members.Perm (givenMembers names given ++ others)) {key : String}
    (hkey : key ∈ names) {value : Option Json}
    (hvalue : (givenMembers names given).filter (fun entry ↦ entry.1 == key) =
      (value.map fun content ↦ (key, content)).toList) :
    members.filter (fun entry ↦ entry.1 == key) =
      (value.map fun content ↦ (key, content)).toList := by
  have hnone : others.filter (fun entry ↦ entry.1 == key) = [] := by
    rw [List.filter_eq_nil_iff]
    intro entry hentry heq
    rw [beq_iff_eq] at heq
    exact hothers entry hentry (heq ▸ hkey)
  have hperm := hmembers.filter fun entry ↦ entry.1 == key
  rw [List.filter_append, hvalue, hnone, List.append_nil] at hperm
  cases value with
  | none => exact hperm.eq_nil
  | some content => exact List.perm_singleton.mp hperm

/-- Looking up the names of fields finds those that are given, if no name occurs twice. -/
theorem mapM_member?_of_filter {names : List String} (hnames : names.Nodup)
    {given : List (Option Json)} (hlength : given.length = names.length)
    {members : List (String × Json)}
    (hmembers : ∀ key ∈ names, ∀ value : Option Json,
      (givenMembers names given).filter (fun entry ↦ entry.1 == key) =
        (value.map fun content ↦ (key, content)).toList →
      member? members key = some value) :
    names.mapM (member? members) = some given := by
  induction names generalizing given with
  | nil =>
    rw [List.length_eq_zero_iff.mp hlength]
    rfl
  | cons name names ih =>
    cases given with
    | nil => cases hlength
    | cons value given =>
      rw [List.nodup_cons] at hnames
      have hfirst : member? members name = some value := by
        refine hmembers name (by simp) value ?_
        cases value with
        | none => exact filter_givenMembers_of_notMem hnames.1 given
        | some content =>
          rw [givenMembers, List.filter_cons_of_pos (by simp),
            filter_givenMembers_of_notMem hnames.1 given]
          rfl
      have hrest : names.mapM (member? members) = some given := by
        refine ih hnames.2 (Nat.succ.inj hlength) fun key hkey found hfound ↦ ?_
        refine hmembers key (by simp [hkey]) found ?_
        have hne : name ≠ key := fun heq ↦ hnames.1 (heq ▸ hkey)
        cases value with
        | none => exact hfound
        | some content =>
          rw [givenMembers, List.filter_cons_of_neg (by simpa using hne)]
          exact hfound
      rw [List.mapM_cons, hfirst, hrest]
      rfl

/-- The fields of a structure are found in every arrangement. -/
theorem Arranges.fields?_eq {names : List String} {given : List (Option Json)} {json : Json}
    (harranges : Arranges names given json) (hnames : names.Nodup)
    (hlength : given.length = names.length) : json.fields? names = some given := by
  cases harranges with
  | keyed members others hothers hmembers =>
    refine mapM_member?_of_filter hnames hlength fun key hkey value hvalue ↦ ?_
    exact member?_of_filter (filter_of_keyed hothers hmembers hkey hvalue)
  | positional items absent hgiven =>
    have hcount : items.length + absent = names.length := by
      rw [← hlength, hgiven, List.length_append, List.length_map, List.length_replicate]
    have habsent : names.length - items.length = absent := by omega
    rw [fields?, if_pos (by omega), habsent, hgiven]

theorem exists_mem_givenMembers {names : List String} {given : List (Option Json)}
    (hlength : given.length = names.length) {value : Json} (hvalue : some value ∈ given) :
    ∃ name, (name, value) ∈ givenMembers names given := by
  induction names generalizing given with
  | nil =>
    rw [List.length_eq_zero_iff.mp hlength] at hvalue
    cases hvalue
  | cons name names ih =>
    cases given with
    | nil => cases hvalue
    | cons first given =>
      have hrest := ih (Nat.succ.inj hlength)
      cases first with
      | none =>
        rw [List.mem_cons, or_iff_right (by simp)] at hvalue
        exact hrest hvalue
      | some content =>
        rw [List.mem_cons, Option.some.injEq] at hvalue
        rcases hvalue with rfl | htail
        · exact ⟨name, by simp [givenMembers]⟩
        · obtain ⟨other, hother⟩ := hrest htail
          exact ⟨other, by simp [givenMembers, hother]⟩

theorem Arranges.nesting_lt {names : List String} {given : List (Option Json)} {json : Json}
    (harranges : Arranges names given json) (hlength : given.length = names.length)
    {value : Json} (hvalue : some value ∈ given) : value.nesting < json.nesting := by
  cases harranges with
  | keyed members others hothers hmembers =>
    obtain ⟨name, hname⟩ := exists_mem_givenMembers hlength hvalue
    have hmem : (name, value) ∈ members :=
      hmembers.mem_iff.mpr (List.mem_append_left others hname)
    exact nesting_lt_of_mem_members hmem
  | positional items absent hgiven =>
    have hmem : value ∈ items := by simpa [hgiven] using hvalue
    exact nesting_lt_of_mem_items hmem

theorem Arranges.nesting_pos {names : List String} {given : List (Option Json)} {json : Json}
    (harranges : Arranges names given json) : 0 < json.nesting := by
  cases harranges with
  | keyed => exact Nat.succ_pos _
  | positional => exact Nat.succ_pos _

/-- All fields in order, as they are written. -/
theorem arranges_zip {names : List String} {values : List Json}
    (hlength : values.length = names.length) :
    Arranges names (values.map some) (object (names.zip values)) := by
  have hgiven : givenMembers names (values.map some) = names.zip values := by
    induction names generalizing values with
    | nil => simp [givenMembers]
    | cons name names ih =>
      cases values with
      | nil => cases hlength
      | cons value values =>
        rw [List.map_cons, givenMembers, List.zip_cons_cons, ih (Nat.succ.inj hlength)]
  refine .keyed _ [] (List.forall_mem_nil _) ?_
  rw [hgiven, List.append_nil]

/-! ### The parts of forms -/

/-- The kinds of values that forms are made of. -/
inductive Part
  /-- A value that is presented in one way only. -/
  | plain
  | interval
  | literal
  | literals
  /-- The elements of an array literal and their type. -/
  | literalArray
  | expr
  | exprs
  /-- A position among the sources and the name of a field there. -/
  | reference
  /-- Two operands and whether their equality is negated. -/
  | equality
  | operands
  | bounds
  /-- An operand and the unit it is cut to. -/
  | truncation
  /-- The name of a function and its arguments. -/
  | call
  /-- The elements of an array expression and their type. -/
  | exprArray
  | schema
  | join
  | sortTerm
  | distinct
  | settings
  | compilerSettings
deriving DecidableEq

/-- A field of a structure. -/
structure PartField where
  name : String
  part : Part := .plain
  /-- What is written for the default, if the field has one. -/
  fallback : Option Json := none

/-- How the values of a part are put together. -/
inductive PartRule
  /-- There is nothing to choose. -/
  | fixed
  /-- An array of values of one part. -/
  | list (item : Part)
  /-- A bare name, or an object from the name of a kind to a value of the part for that kind. -/
  | tagged (content : String → Part)
  /-- A structure with the given fields in order. -/
  | record (fields : List PartField)

/-- The grammar of forms. -/
def Part.rule : Part → PartRule
  | plain => .fixed
  | interval =>
    .record (["years", "months", "days", "hours", "minutes", "seconds"].map fun name ↦
      { name, fallback := some (integer 0) })
  | literal => .tagged fun
    | "interval" => interval
    | "array" => literalArray
    | _ => plain
  | literals => .list literal
  | literalArray => .record [{ name := "elements", part := literals }, { name := "element_type" }]
  | expr => .tagged fun
    | "field" => reference
    | "not" => expr
    | "equals" => equality
    | "in" | "div" => operands
    | "range" => bounds
    | "truncate" => truncation
    | "call" => call
    | "literal" => literal
    | "array" => exprArray
    | _ => plain
  | exprs => .list expr
  | reference => .record [{ name := "source" }, { name := "field" }]
  | equality =>
    .record [{ name := "left", part := expr }, { name := "right", part := expr },
      { name := "negated", fallback := some (boolean false) }]
  | operands => .record [{ name := "left", part := expr }, { name := "right", part := expr }]
  | bounds => .record [{ name := "first", part := expr }, { name := "last", part := expr }]
  | truncation => .record [{ name := "unit" }, { name := "expr", part := expr }]
  | call =>
    .record [{ name := "name" }, { name := "args", part := exprs, fallback := some (array []) }]
  | exprArray => .record [{ name := "elements", part := exprs }, { name := "element_type" }]
  | schema =>
    .record [{ name := "source" }, { name := "fields", fallback := some (array []) },
      { name := "primary_key", fallback := some null }]
  | join => .record [{ name := "kind" }, { name := "on", part := expr }]
  | sortTerm =>
    .record [{ name := "expr", part := expr }, { name := "dir", fallback := some (string "asc") }]
  | distinct => .tagged fun _ ↦ exprs
  | settings =>
    .record [{ name := "compiler", part := compilerSettings, fallback := some (object
      [("max_expression_depth", integer defaultMaxDepth.toNat),
        ("log_statements", boolean false)]) }]
  | compilerSettings =>
    .record [{ name := "max_expression_depth", fallback := some (integer defaultMaxDepth.toNat) },
      { name := "log_statements", fallback := some (boolean false) }]

/-- The names of fields. -/
def fieldNames (fields : List PartField) : List String :=
  fields.map fun field ↦ field.name

theorem Part.nodup_fieldNames {part : Part} {fields : List PartField}
    (hrule : part.rule = .record fields) : (fieldNames fields).Nodup := by
  cases part <;> cases hrule <;> decide

/-! ### Presentations -/

mutual

/-- The second value presents the first, which is a written value of the part. -/
inductive Presents : Part → Json → Json → Prop
  /-- A value as it is written. -/
  | unchanged (part : Part) (json : Json) : Presents part json json
  /-- A list whose items are presented. -/
  | items {part item : Part} {written presented : List Json} (hrule : part.rule = .list item)
      (hitems : PresentsItems item written presented) :
      Presents part (array written) (array presented)
  /-- A kind with its content presented. -/
  | content {part : Part} {contents : String → Part} (kind : String) {written presented : Json}
      (hrule : part.rule = .tagged contents)
      (hcontent : Presents (contents kind) written presented) :
      Presents part (object [(kind, written)]) (object [(kind, presented)])
  /-- A structure whose fields are presented or left out, and then arranged. -/
  | fields {part : Part} {fields : List PartField} {values : List Json}
      {given : List (Option Json)} {json : Json} (hrule : part.rule = .record fields)
      (hfields : PresentsFields fields values given)
      (harranges : Arranges (fieldNames fields) given json) :
      Presents part (object ((fieldNames fields).zip values)) json

/-- Items presented one by one. -/
inductive PresentsItems : Part → List Json → List Json → Prop
  | nil (item : Part) : PresentsItems item [] []
  | cons {item : Part} {first presented : Json} {written rest : List Json}
      (hfirst : Presents item first presented) (hrest : PresentsItems item written rest) :
      PresentsItems item (first :: written) (presented :: rest)

/-- Fields presented one by one; a field that holds its default may be left out. -/
inductive PresentsFields : List PartField → List Json → List (Option Json) → Prop
  | nil : PresentsFields [] [] []
  | given {field : PartField} {value presented : Json} {fields : List PartField}
      {values : List Json} {rest : List (Option Json)}
      (hvalue : Presents field.part value presented) (hrest : PresentsFields fields values rest) :
      PresentsFields (field :: fields) (value :: values) (some presented :: rest)
  | leftOut {field : PartField} {value : Json} {fields : List PartField} {values : List Json}
      {rest : List (Option Json)} (hvalue : field.fallback = some value)
      (hrest : PresentsFields fields values rest) :
      PresentsFields (field :: fields) (value :: values) (none :: rest)

end

/-- A presentation of which at most so many levels have to be opened: either the presentation itself
or the written value is nested no deeper. -/
def PresentsWithin (levels : Nat) (part : Part) (written json : Json) : Prop :=
  Presents part written json ∧ (written.nesting ≤ levels ∨ json.nesting ≤ levels)

/-- A field with a presentation of its value, or left out because it holds its default. -/
def FieldPresented (levels : Nat) (field : PartField) (value : Json) (given : Option Json) : Prop :=
  (given = none ∧ field.fallback = some value) ∨
    ∃ json, given = some json ∧ PresentsWithin levels field.part value json

theorem presentsWithin_self {levels : Nat} (part : Part) {json : Json}
    (hnesting : json.nesting ≤ levels) : PresentsWithin levels part json json :=
  ⟨.unchanged part json, Or.inl hnesting⟩

/-- Where there is nothing to choose, nothing is changed. -/
theorem PresentsWithin.eq_of_fixed {levels : Nat} {part : Part} {written json : Json}
    (hpresents : PresentsWithin levels part written json) (hrule : part.rule = .fixed) :
    json = written := by
  obtain ⟨hpresents, -⟩ := hpresents
  cases hpresents with
  | unchanged => rfl
  | items hother | content _ hother | fields hother =>
    rw [hrule] at hother
    cases hother

/-- A name is presented as it is. -/
theorem PresentsWithin.eq_string {levels : Nat} {part : Part} {name : String} {json : Json}
    (hpresents : PresentsWithin levels part (string name) json) : json = string name := by
  obtain ⟨hpresents, -⟩ := hpresents
  cases hpresents
  rfl

/-- A level is left for what is nested less deep. -/
theorem presentsWithin_of_lt {levels : Nat} {part : Part} {written json outer whole : Json}
    (hpresents : Presents part written json)
    (hnesting : outer.nesting ≤ levels + 1 ∨ whole.nesting ≤ levels + 1)
    (hwritten : written.nesting < outer.nesting) (hjson : json.nesting < whole.nesting) :
    PresentsWithin levels part written json := by
  refine ⟨hpresents, ?_⟩
  rcases hnesting with houter | hwhole
  · exact Or.inl (by omega)
  · exact Or.inr (by omega)

/-- A level is left when arrays or objects are opened. -/
theorem exists_inner {levels first second : Nat} (hlevels : first ≤ levels ∨ second ≤ levels)
    (hfirst : 0 < first) (hsecond : 0 < second) : ∃ inner, levels = inner + 1 := by
  refine ⟨levels - 1, ?_⟩
  omega

theorem exists_level {json : Json} {levels : Nat} (hnesting : json.nesting ≤ levels)
    (hopened : 0 < json.nesting) : ∃ inner, levels = inner + 1 :=
  exists_inner (Or.inl hnesting) hopened hopened

theorem PresentsItems.forall₂ {levels : Nat} {item : Part} {outer whole : Json}
    {written presented : List Json} (hitems : PresentsItems item written presented)
    (hnesting : outer.nesting ≤ levels + 1 ∨ whole.nesting ≤ levels + 1)
    (hwritten : ∀ value ∈ written, value.nesting < outer.nesting)
    (hpresented : ∀ value ∈ presented, value.nesting < whole.nesting) :
    List.Forall₂ (PresentsWithin levels item) written presented := by
  induction written generalizing presented with
  | nil =>
    cases hitems
    exact .nil
  | cons first written ih =>
    cases hitems with
    | cons hfirst hrest =>
      rw [List.forall_mem_cons] at hwritten hpresented
      exact .cons (presentsWithin_of_lt hfirst hnesting hwritten.1 hpresented.1)
        (ih hrest hwritten.2 hpresented.2)

theorem forall₂_unchanged {levels : Nat} (item : Part) {written : List Json}
    (hnesting : ∀ value ∈ written, value.nesting ≤ levels) :
    List.Forall₂ (PresentsWithin levels item) written written := by
  induction written with
  | nil => exact .nil
  | cons first written ih =>
    rw [List.forall_mem_cons] at hnesting
    exact .cons (presentsWithin_self item hnesting.1) (ih hnesting.2)

/-- A list is presented item by item. -/
theorem PresentsWithin.exists_items {levels : Nat} {part item : Part} {written : List Json}
    {json : Json} (hpresents : PresentsWithin levels part (array written) json)
    (hrule : part.rule = .list item) :
    ∃ inner presented, levels = inner + 1 ∧ json = array presented ∧
      List.Forall₂ (PresentsWithin inner item) written presented := by
  obtain ⟨hpresents, hnesting⟩ := hpresents
  cases hpresents with
  | unchanged =>
    rw [or_self] at hnesting
    obtain ⟨inner, rfl⟩ := exists_level hnesting (Nat.succ_pos _)
    refine ⟨inner, written, rfl, rfl, forall₂_unchanged item fun value hvalue ↦ ?_⟩
    have hlt := nesting_lt_of_mem_items hvalue
    omega
  | items hother hitems =>
    rw [hrule] at hother
    cases hother
    obtain ⟨inner, rfl⟩ := exists_inner hnesting (Nat.succ_pos _) (Nat.succ_pos _)
    exact ⟨inner, _, rfl, rfl, hitems.forall₂ hnesting (fun _ ↦ nesting_lt_of_mem_items)
      fun _ ↦ nesting_lt_of_mem_items⟩

/-- The content behind a kind is presented in its place. -/
theorem PresentsWithin.exists_content {levels : Nat} {part : Part} {contents : String → Part}
    {kind : String} {written json : Json}
    (hpresents : PresentsWithin levels part (object [(kind, written)]) json)
    (hrule : part.rule = .tagged contents) :
    ∃ inner presented, levels = inner + 1 ∧ json = object [(kind, presented)] ∧
      PresentsWithin inner (contents kind) written presented := by
  have hsingle (value : Json) : value.nesting < (object [(kind, value)]).nesting :=
    nesting_lt_of_mem_members (List.mem_singleton_self (kind, value))
  obtain ⟨hpresents, hnesting⟩ := hpresents
  generalize hwhole : object [(kind, written)] = outer at hpresents hnesting
  cases hpresents with
  | unchanged =>
    obtain ⟨inner, rfl⟩ : ∃ inner, levels = inner + 1 := by
      rw [← hwhole] at hnesting
      exact exists_inner hnesting (Nat.succ_pos _) (Nat.succ_pos _)
    rw [← hwhole] at hnesting ⊢
    exact ⟨inner, written, rfl, rfl, presentsWithin_of_lt (.unchanged _ _) hnesting
      (hsingle written) (hsingle written)⟩
  | content other hother hcontent =>
    cases hwhole
    rw [hrule] at hother
    cases hother
    obtain ⟨inner, rfl⟩ := exists_inner hnesting (Nat.succ_pos _) (Nat.succ_pos _)
    exact ⟨inner, _, rfl, rfl, presentsWithin_of_lt hcontent hnesting (hsingle _) (hsingle _)⟩
  | items hother | fields hother =>
    rw [hrule] at hother
    cases hother

theorem PresentsFields.length_eq {fields : List PartField} {values : List Json}
    {given : List (Option Json)} (hfields : PresentsFields fields values given) :
    values.length = fields.length ∧ given.length = fields.length := by
  induction fields generalizing values given with
  | nil =>
    cases hfields
    exact ⟨rfl, rfl⟩
  | cons field fields ih =>
    cases hfields with
    | given _ hrest | leftOut _ hrest =>
      have hlengths := ih hrest
      exact ⟨congrArg Nat.succ hlengths.1, congrArg Nat.succ hlengths.2⟩

theorem presentsFields_unchanged {fields : List PartField} {values : List Json}
    (hlength : values.length = fields.length) :
    PresentsFields fields values (values.map some) := by
  induction fields generalizing values with
  | nil =>
    rw [List.length_eq_zero_iff.mp hlength]
    exact .nil
  | cons field fields ih =>
    cases values with
    | nil => cases hlength
    | cons value values => exact .given (.unchanged _ _) (ih (Nat.succ.inj hlength))

theorem PresentsFields.forall₂ {levels : Nat} {outer whole : Json} {fields : List PartField}
    {values : List Json} {given : List (Option Json)}
    (hfields : PresentsFields fields values given)
    (hnesting : outer.nesting ≤ levels + 1 ∨ whole.nesting ≤ levels + 1)
    (hvalues : ∀ value ∈ values, value.nesting < outer.nesting)
    (hgiven : ∀ value, some value ∈ given → value.nesting < whole.nesting) :
    List.Forall₂ (fun entry ↦ FieldPresented levels entry.1 entry.2) (fields.zip values)
      given := by
  induction fields generalizing values given with
  | nil =>
    cases hfields
    exact .nil
  | cons field fields ih =>
    cases hfields with
    | given hvalue hrest =>
      rw [List.forall_mem_cons] at hvalues
      refine .cons (Or.inr ⟨_, rfl, ?_⟩)
        (ih hrest hvalues.2 fun value hmem ↦ hgiven value (List.mem_cons_of_mem _ hmem))
      exact presentsWithin_of_lt hvalue hnesting hvalues.1 (hgiven _ List.mem_cons_self)
    | leftOut hvalue hrest =>
      rw [List.forall_mem_cons] at hvalues
      exact .cons (Or.inl ⟨rfl, hvalue⟩)
        (ih hrest hvalues.2 fun value hmem ↦ hgiven value (List.mem_cons_of_mem _ hmem))

theorem map_snd_zip_fieldNames {fields : List PartField} {values : List Json}
    (hlength : values.length = fields.length) :
    ((fieldNames fields).zip values).map Prod.snd = values := by
  have hnames : (fieldNames fields).length = values.length := by
    rw [hlength, fieldNames, List.length_map]
  exact List.map_snd_zip (Nat.le_of_eq hnames.symm)

/-- A structure as it is written is one of its own arrangements. -/
theorem Presents.exists_arrangement {part : Part} {fields : List PartField} {values : List Json}
    {json : Json} (hpresents : Presents part (object ((fieldNames fields).zip values)) json)
    (hrule : part.rule = .record fields) (hlength : values.length = fields.length) :
    ∃ given, PresentsFields fields values given ∧ Arranges (fieldNames fields) given json := by
  generalize hwhole : object ((fieldNames fields).zip values) = outer at hpresents
  cases hpresents with
  | unchanged =>
    rw [← hwhole]
    refine ⟨values.map some, presentsFields_unchanged hlength, arranges_zip ?_⟩
    rw [hlength, fieldNames, List.length_map]
  | fields hother hfields harranges =>
    rw [hrule] at hother
    cases hother
    have hvalues := congrArg (List.map Prod.snd) (Json.object.inj hwhole)
    rw [map_snd_zip_fieldNames hlength, map_snd_zip_fieldNames hfields.length_eq.1] at hvalues
    rw [hvalues]
    exact ⟨_, hfields, harranges⟩
  | items hother | content _ hother =>
    rw [hrule] at hother
    cases hother

/-- The fields of a presented structure are found, each presented or left out. -/
theorem PresentsWithin.exists_fields {levels : Nat} {part : Part} {fields : List PartField}
    {written json : Json} (hpresents : PresentsWithin levels part written json)
    (hrule : part.rule = .record fields) (values : List Json)
    (hwritten : written = object ((fieldNames fields).zip values))
    (hlength : values.length = fields.length) :
    ∃ inner given, levels = inner + 1 ∧ json.fields? (fieldNames fields) = some given ∧
      List.Forall₂ (fun entry ↦ FieldPresented inner entry.1 entry.2) (fields.zip values)
        given := by
  obtain ⟨hpresents, hnesting⟩ := hpresents
  subst hwritten
  obtain ⟨given, hfields, harranges⟩ := hpresents.exists_arrangement hrule hlength
  have hgiven : given.length = (fieldNames fields).length := by
    rw [hfields.length_eq.2, fieldNames, List.length_map]
  obtain ⟨inner, rfl⟩ := exists_inner hnesting (Nat.succ_pos _) harranges.nesting_pos
  refine ⟨inner, given, rfl, harranges.fields?_eq (Part.nodup_fieldNames hrule) hgiven, ?_⟩
  refine hfields.forall₂ hnesting (fun value hvalue ↦ ?_) fun value ↦ harranges.nesting_lt hgiven
  rw [← map_snd_zip_fieldNames hlength] at hvalue
  obtain ⟨entry, hentry, rfl⟩ := List.mem_map.mp hvalue
  exact nesting_lt_of_mem_members hentry

/-! ### Reading what is presented -/

theorem PresentsWithin.plain {levels : Nat} {written json : Json}
    (hpresents : PresentsWithin levels .plain written json) :
    json = written ∧ written.nesting ≤ levels := by
  have heq := hpresents.eq_of_fixed rfl
  have hnesting := hpresents.2
  rw [heq, or_self] at hnesting
  exact ⟨heq, hnesting⟩

/-- A field without default is given. -/
theorem FieldPresented.exists_given {levels : Nat} {field : PartField} {value : Json}
    {given : Option Json} (hpresented : FieldPresented levels field value given)
    (hfallback : field.fallback = none) :
    ∃ json, given = some json ∧ PresentsWithin levels field.part value json := by
  rcases hpresented with ⟨-, hdefault⟩ | hgiven
  · rw [hfallback] at hdefault
    cases hdefault
  · exact hgiven

/-- A structure of two fields, of which the first has no default. -/
theorem PresentsWithin.exists_two {levels : Nat} {part : Part} {first second : PartField}
    {written one two json : Json} (hpresents : PresentsWithin levels part written json)
    (hrule : part.rule = .record [first, second])
    (hwritten : written = object [(first.name, one), (second.name, two)])
    (hfirst : first.fallback = none) :
    ∃ inner value given, levels = inner + 1 ∧
      json.fields? [first.name, second.name] = some [some value, given] ∧
      PresentsWithin inner first.part one value ∧ FieldPresented inner second two given := by
  obtain ⟨inner, given, rfl, hfields, hall⟩ := hpresents.exists_fields hrule [one, two] hwritten rfl
  simp only [List.zip_cons_cons, List.zip_nil_left, List.forall₂_cons_left_iff,
    List.forall₂_nil_left_iff] at hall
  obtain ⟨_, _, hone, ⟨other, _, htwo, rfl, rfl⟩, rfl⟩ := hall
  obtain ⟨value, rfl, hvalue⟩ := hone.exists_given hfirst
  exact ⟨inner, value, other, rfl, hfields, hvalue, htwo⟩

/-- A structure of two fields without defaults. -/
theorem PresentsWithin.exists_pair {levels : Nat} {part : Part} {first second : PartField}
    {written one two json : Json} (hpresents : PresentsWithin levels part written json)
    (hrule : part.rule = .record [first, second])
    (hwritten : written = object [(first.name, one), (second.name, two)])
    (hfirst : first.fallback = none) (hsecond : second.fallback = none) :
    ∃ inner value other, levels = inner + 1 ∧
      json.fields? [first.name, second.name] = some [some value, some other] ∧
      PresentsWithin inner first.part one value ∧ PresentsWithin inner second.part two other := by
  obtain ⟨inner, value, given, rfl, hfields, hvalue, hgiven⟩ :=
    hpresents.exists_two hrule hwritten hfirst
  obtain ⟨other, rfl, hother⟩ := hgiven.exists_given hsecond
  exact ⟨inner, value, other, rfl, hfields, hvalue, hother⟩

/-- A field with a default is read, given or not. -/
theorem FieldPresented.withDefault? {α : Type} {levels : Nat} {field : PartField} {value : Json}
    {given : Option Json} (hpresented : FieldPresented levels field value given)
    {read : Json → Option α} {fallback result : α}
    (hread : ∀ json, PresentsWithin levels field.part value json → read json = some result)
    (hfallback : field.fallback = some value → fallback = result) :
    Json.withDefault? fallback read given = some result := by
  rcases hpresented with ⟨rfl, hdefault⟩ | ⟨json, rfl, hjson⟩
  · rw [Json.withDefault?, hfallback hdefault]
  · exact hread json hjson

/-- Items that are read one by one. -/
theorem mapM_of_presents {α : Type} {levels : Nat} {item : Part} {written : α → Json}
    {read : Json → Option α} {result : α → α} {values : List α} {presented : List Json}
    (hitems : List.Forall₂ (PresentsWithin levels item) (values.map written) presented)
    (hread : ∀ value ∈ values, ∀ json, PresentsWithin levels item (written value) json →
      read json = some (result value)) :
    presented.mapM read = some (values.map result) := by
  induction values generalizing presented with
  | nil =>
    cases hitems
    rfl
  | cons value values ih =>
    cases hitems with
    | cons hfirst hrest =>
      rw [List.forall_mem_cons] at hread
      rw [List.mapM_cons, hread.1 _ hfirst, ih hrest hread.2]
      rfl

end SqlCompose.Json
