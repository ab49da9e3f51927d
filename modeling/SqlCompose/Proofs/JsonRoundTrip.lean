import SqlCompose.Proofs.JsonConstants

/-!
Exchanging values as JSON. `JsonType` lists the types that have a JSON form; for each there is a
writer and a reader, and the reader works on the value of a text or on any other JSON value.

Two results hold for all of these types at once, for values whose doubles are finite. A reader
accepts every presentation of a written value (`JsonType.ofJson?_presents_iff`), and a text that was
written is accepted (`JsonType.read?_write_iff`). In both cases what is read is the value that was
written, if and only if no decimal in it is a zero with a minus sign, which is written with its sign
and read without, and no time in it is a leap second inside a minute, which is written like the
second after it (`JsonType.ofJson?_negative_zero_and_leap_second`).
-/

set_option autoImplicit false
set_option relaxedAutoImplicit false

namespace SqlCompose

/-- The types that are exchanged as JSON. -/
inductive JsonType
  | expr
  | literal
  | interval
  | valueType
  | truncation
  | schema
  | join
  | joinKind
  | sortTerm
  | sortDirection
  | distinct
  | lock
  | settings

namespace JsonType

/-- The values of a type. -/
def Value : JsonType → Type
  | expr => Expr
  | literal => Literal
  | interval => Interval
  | valueType => ValueType
  | truncation => Truncation
  | schema => Schema
  | join => Join
  | joinKind => JoinKind
  | sortTerm => SortTerm
  | sortDirection => SortDirection
  | distinct => Distinct
  | lock => Lock
  | settings => Settings

/-- What is written for a value. -/
def toJson : (type : JsonType) → type.Value → Json
  | expr => Expr.toJson
  | literal => Literal.toJson
  | interval => Interval.toJson
  | valueType => ValueType.toJson
  | truncation => Truncation.toJson
  | schema => Schema.toJson
  | join => Join.toJson
  | joinKind => JoinKind.toJson
  | sortTerm => SortTerm.toJson
  | sortDirection => SortDirection.toJson
  | distinct => Distinct.toJson
  | lock => Lock.toJson
  | settings => Settings.toJson

/-- Reads a value, opening at most so many levels. -/
def ofJson? : (type : JsonType) → Nat → Json → Option type.Value
  | expr => Expr.ofJson?
  | literal => Literal.ofJson?
  | interval => Interval.ofJson?
  | valueType => ValueType.ofJson?
  | truncation => Truncation.ofJson?
  | schema => Schema.ofJson?
  | join => Join.ofJson?
  | joinKind => JoinKind.ofJson?
  | sortTerm => SortTerm.ofJson?
  | sortDirection => SortDirection.ofJson?
  | distinct => Distinct.ofJson?
  | lock => Lock.ofJson?
  | settings => Settings.ofJson?

/-- The text that is written for a value. -/
def write (type : JsonType) (value : type.Value) : String :=
  (type.toJson value).write

/-- The value of a text. -/
def read? (type : JsonType) (text : String) : Option type.Value :=
  (Json.read? text).bind (type.ofJson? Json.nestingLimit)

/-- A text read and written again. -/
def rewrite? (type : JsonType) (text : String) : Option String :=
  (type.read? text).map type.write

/-- The part of the grammar that values of the type are written as. -/
def part : JsonType → Json.Part
  | expr => .expr
  | literal => .literal
  | interval => .interval
  | schema => .schema
  | join => .join
  | sortTerm => .sortTerm
  | distinct => .distinct
  | settings => .settings
  | valueType | truncation | joinKind | sortDirection | lock => .plain

/-- The literals in a value. -/
def constants : (type : JsonType) → type.Value → List Literal
  | expr => Expr.constants
  | literal => Literal.nodes
  | join => fun join ↦ join.on.constants
  | sortTerm => fun term ↦ term.expr.constants
  | distinct => Distinct.constants
  | interval | valueType | truncation | schema | joinKind | sortDirection | lock | settings =>
    fun _ ↦ []

/-- The value with a change made to every scalar in it. -/
def mapScalars (change : Literal → Literal) : (type : JsonType) → type.Value → type.Value
  | expr => Expr.mapScalars change
  | literal => Literal.mapScalars change
  | join => Join.mapScalars change
  | sortTerm => SortTerm.mapScalars change
  | distinct => Distinct.mapScalars change
  | interval | valueType | truncation | schema | joinKind | sortDirection | lock | settings => id

/-- Every presentation of a value whose doubles are finite is read, and gives the value with every
scalar as it is read. -/
theorem ofJson?_of_presents (type : JsonType) {value : type.Value} {levels : Nat} {json : Json}
    (hvalue : ∀ literal ∈ type.constants value, literal.IsNumber)
    (hpresents : Json.PresentsWithin levels type.part (type.toJson value) json) :
    type.ofJson? levels json = some (type.mapScalars Literal.scalarAsRead value) := by
  cases type with
  | expr => exact Expr.readsPresented value hvalue levels json hpresents
  | literal => exact Literal.readsPresented value hvalue levels json hpresents
  | interval => exact Interval.ofJson?_of_presents hpresents
  | schema => exact Schema.ofJson?_of_presents hpresents
  | join => exact Join.ofJson?_of_presents hvalue hpresents
  | sortTerm => exact SortTerm.ofJson?_of_presents hvalue hpresents
  | distinct => exact Distinct.ofJson?_of_presents hvalue hpresents
  | settings => exact Settings.ofJson?_of_presents hpresents
  | valueType =>
    obtain ⟨rfl, hnesting⟩ := hpresents.plain
    exact ValueType.ofJson?_toJson value hnesting
  | truncation =>
    obtain ⟨rfl, -⟩ := hpresents.plain
    exact Truncation.ofJson?_toJson value levels
  | joinKind =>
    obtain ⟨rfl, -⟩ := hpresents.plain
    exact JoinKind.ofJson?_toJson value levels
  | sortDirection =>
    obtain ⟨rfl, -⟩ := hpresents.plain
    exact SortDirection.ofJson?_toJson value levels
  | lock =>
    obtain ⟨rfl, hnesting⟩ := hpresents.plain
    exact Lock.ofJson?_toJson value hnesting

theorem mapScalars_eq_iff {change other : Literal → Literal} (type : JsonType)
    (value : type.Value) :
    type.mapScalars change value = type.mapScalars other value ↔
      ∀ literal ∈ type.constants value, literal.isScalar = true →
        change literal = other literal := by
  have hnone {α : Type} (unchanged : α) : unchanged = unchanged ↔
      ∀ literal ∈ ([] : List Literal), literal.isScalar = true → change literal = other literal :=
    iff_of_true rfl (List.forall_mem_nil _)
  cases type with
  | expr => exact Expr.mapScalars_eq_iff value
  | literal => exact Literal.mapScalars_eq_iff value
  | join =>
    obtain ⟨kind, condition⟩ := value
    refine Iff.trans ?_ condition.mapScalars_eq_iff
    exact ⟨fun heq ↦ congrArg Join.on heq, fun heq ↦ congrArg (Join.mk kind) heq⟩
  | sortTerm =>
    obtain ⟨expr, direction⟩ := value
    refine Iff.trans ?_ expr.mapScalars_eq_iff
    exact ⟨fun heq ↦ congrArg SortTerm.expr heq,
      fun heq ↦ congrArg (fun expr ↦ SortTerm.mk expr direction) heq⟩
  | distinct =>
    cases value with
    | rows => exact hnone _
    | on exprs =>
      refine Iff.trans ?_ (Expr.mapScalarsOfEach_eq_iff fun expr _ ↦ expr.mapScalars_eq_iff)
      exact ⟨Distinct.on.inj, congrArg Distinct.on⟩
  | interval | valueType | truncation | schema | joinKind | sortDirection | lock | settings =>
    exact hnone value

theorem mapScalars_id (type : JsonType) (value : type.Value) :
    type.mapScalars id value = value := by
  cases type with
  | expr => exact Expr.mapScalars_id value
  | literal => exact Literal.mapScalars_id value
  | join => exact congrArg (Join.mk value.kind) value.on.mapScalars_id
  | sortTerm =>
    exact congrArg (fun expr ↦ SortTerm.mk expr value.direction) value.expr.mapScalars_id
  | distinct =>
    cases value with
    | rows => rfl
    | on exprs =>
      refine congrArg Distinct.on ?_
      rw [Expr.mapScalarsOfEach_eq_map, List.map_congr_left fun expr _ ↦ expr.mapScalars_id,
        List.map_id']
  | interval | valueType | truncation | schema | joinKind | sortDirection | lock | settings => rfl

/-- A value is read as it was written if and only if no decimal in it is a zero with a minus sign
and no time in it is a leap second inside a minute. -/
theorem mapScalars_scalarAsRead_eq_self_iff (type : JsonType) (value : type.Value) :
    type.mapScalars Literal.scalarAsRead value = value ↔
      ∀ literal ∈ type.constants value, literal.HasSignOfValue ∧ literal.LeapsAtEnd := by
  have hself := @mapScalars_eq_iff Literal.scalarAsRead id type value
  rw [mapScalars_id] at hself
  refine hself.trans (forall₂_congr fun literal _ ↦ ?_)
  rw [Literal.imp_isScalar_iff Literal.scalarAsRead_of_not_isScalar,
    Literal.scalarAsRead_eq_self_iff]

theorem toJson_mapScalars_scalarAsWritten (type : JsonType) (value : type.Value) :
    type.toJson (type.mapScalars Literal.scalarAsWritten value) = type.toJson value := by
  cases type with
  | expr => exact Expr.toJson_mapScalars_scalarAsWritten value
  | literal => exact Literal.toJson_mapScalars_scalarAsWritten value
  | join =>
    simp only [toJson, mapScalars, Join.toJson, Join.mapScalars,
      Expr.toJson_mapScalars_scalarAsWritten]
  | sortTerm =>
    simp only [toJson, mapScalars, SortTerm.toJson, SortTerm.mapScalars,
      Expr.toJson_mapScalars_scalarAsWritten]
  | distinct =>
    cases value with
    | rows => rfl
    | on exprs =>
      rw [toJson, mapScalars, Distinct.mapScalars, Distinct.toJson, Distinct.toJson,
        Expr.listToJson_mapScalarsOfEach fun expr _ ↦ expr.toJson_mapScalars_scalarAsWritten]
  | interval | valueType | truncation | schema | joinKind | sortDirection | lock | settings => rfl

/-- If no decimal in a value is a zero with a minus sign, then what is read is written again as the
value was. -/
theorem toJson_mapScalars_scalarAsRead (type : JsonType) {value : type.Value}
    (hsigns : ∀ literal ∈ type.constants value, literal.HasSignOfValue) :
    type.toJson (type.mapScalars Literal.scalarAsRead value) = type.toJson value := by
  have hshown : type.mapScalars Literal.scalarAsRead value =
      type.mapScalars Literal.scalarAsWritten value :=
    (type.mapScalars_eq_iff value).mpr fun literal hliteral _ ↦
      Literal.scalarAsRead_eq_scalarAsWritten (hsigns literal hliteral)
  rw [hshown, toJson_mapScalars_scalarAsWritten]

/-- The text of a value can be taken apart again. -/
theorem allReread_toJson (type : JsonType) {value : type.Value}
    (hvalue : ∀ literal ∈ type.constants value, literal.DigitsReread) :
    (type.toJson value).AllReread := by
  cases type with
  | expr => exact Expr.allReread_toJson value hvalue
  | literal => exact Literal.allReread_toJson value hvalue
  | interval => exact Interval.allReread_toJson value
  | valueType => exact ValueType.allReread_toJson value
  | truncation => cases value <;> exact Json.allReread_string _
  | joinKind => cases value <;> exact Json.allReread_string _
  | sortDirection => cases value <;> exact Json.allReread_string _
  | schema =>
    obtain ⟨table, fields, primaryKey⟩ := value
    cases primaryKey <;>
      simp [toJson, Schema.toJson, Json.allReread_object, Json.allReread_array]
  | join =>
    have hkind : value.kind.toJson.AllReread := by
      cases value.kind <;> exact Json.allReread_string _
    have hon : value.on.toJson.AllReread := Expr.allReread_toJson _ hvalue
    simp [toJson, Join.toJson, Json.allReread_object, hkind, hon]
  | sortTerm =>
    have hdirection : value.direction.toJson.AllReread := by
      cases value.direction <;> exact Json.allReread_string _
    have hexpr : value.expr.toJson.AllReread := Expr.allReread_toJson _ hvalue
    simp [toJson, SortTerm.toJson, Json.allReread_object, hdirection, hexpr]
  | distinct =>
    cases value with
    | rows => exact Json.allReread_string _
    | on exprs =>
      have hexprs := Expr.forall_mem_constantsOfEach.mp hvalue
      have hlist := Expr.allReread_listToJson fun expr hexpr ↦
        expr.allReread_toJson (hexprs expr hexpr)
      simpa [toJson, Distinct.toJson, Json.allReread_object] using hlist
  | lock =>
    cases value with
    | forUpdate => exact Json.allReread_string _
    | clause text => simp [toJson, Lock.toJson, Json.allReread_object]
  | settings => simp [toJson, Settings.toJson, Json.allReread_object]

/-- What is read from the text of a value. -/
theorem read?_write_eq (type : JsonType) {value : type.Value}
    (hvalue : ∀ literal ∈ type.constants value, literal.DigitsReread)
    (hnesting : (type.toJson value).nesting ≤ Json.nestingLimit) :
    type.read? (type.write value) = some (type.mapScalars Literal.scalarAsRead value) := by
  rw [read?, write, Json.read?_write (type.allReread_toJson hvalue), Option.bind_some]
  exact type.ofJson?_of_presents (fun literal hliteral ↦ (hvalue literal hliteral).isNumber)
    (Json.presentsWithin_self _ hnesting)

/-! ### Presentations -/

/-- Every presentation of what is written for a value whose doubles are finite is accepted, and read
as that value if and only if no decimal in it is a zero with a minus sign and no time in it is a
leap second inside a minute. The presentation or the written value may nest no deeper than the
reader opens arrays and objects: when it reads a text, these are `Json.nestingLimit` levels. -/
theorem ofJson?_presents_iff (type : JsonType) (value : type.Value) {levels : Nat} {json : Json}
    (hfinite : ∀ x, .float x ∈ type.constants value → x.isFinite = true)
    (hpresents : Json.Presents type.part (type.toJson value) json)
    (hnesting : (type.toJson value).nesting ≤ levels ∨ json.nesting ≤ levels) :
    (∃ result, type.ofJson? levels json = some result) ∧
      (type.ofJson? levels json = some value ↔
        ∀ literal ∈ type.constants value, literal.HasSignOfValue ∧ literal.LeapsAtEnd) := by
  have hnumbers : ∀ literal ∈ type.constants value, literal.IsNumber := by
    intro literal hliteral
    cases literal with
    | float x => exact hfinite x hliteral
    | _ => exact trivial
  have hread := type.ofJson?_of_presents hnumbers ⟨hpresents, hnesting⟩
  refine ⟨⟨_, hread⟩, ?_⟩
  rw [hread, Option.some.injEq]
  exact type.mapScalars_scalarAsRead_eq_self_iff value

/-- An equality as an array without its last field, a call with a note and without arguments, and an
interval of which only the months are given. -/
theorem ofJson?_presents_now :
    JsonType.expr.ofJson? 5
        (.object [("equals", .array
          [.object [("call", .object [("note", .array [.null]), ("name", .string "now")])],
            .object [("literal", .object [("interval", .object [("months", .integer 2)])])]])]) =
      some (Expr.equals (.call "now" []) (.literal (.interval { months := 2 })) false) := by
  have hcall : Json.Presents .call (.object [("name", .string "now"), ("args", .array [])])
      (.object [("note", .array [.null]), ("name", .string "now")]) :=
    @Json.Presents.fields .call _ _ [some (.string "now"), none] _ rfl
      (.given (.unchanged _ _) (.leftOut rfl .nil))
      (.keyed _ [("note", .array [.null])] (by decide) (List.Perm.swap _ _ _))
  have hinterval : Json.Presents .interval (Interval.toJson { months := 2 })
      (.object [("months", .integer 2)]) :=
    @Json.Presents.fields .interval _ _ [none, some (.integer 2), none, none, none, none] _ rfl
      (.leftOut rfl (.given (.unchanged _ _) (.leftOut rfl (.leftOut rfl (.leftOut rfl
        (.leftOut rfl .nil))))))
      (.keyed _ [] (by decide) (List.Perm.refl _))
  have hequality : Json.Presents .equality
      (.object [("left", (Expr.call "now" []).toJson),
        ("right", (Expr.literal (.interval { months := 2 })).toJson), ("negated", .boolean false)])
      (.array [.object [("call", .object [("note", .array [.null]), ("name", .string "now")])],
        .object [("literal", .object [("interval", .object [("months", .integer 2)])])]]) :=
    @Json.Presents.fields .equality _ _ [some _, some _, none] _ rfl
      (.given (.content "call" rfl hcall)
        (.given (.content "literal" rfl (.content "interval" rfl hinterval)) (.leftOut rfl .nil)))
      (.positional _ 1 rfl)
  have hconstants : ∀ literal ∈ JsonType.expr.constants
      (Expr.equals (.call "now" []) (.literal (.interval { months := 2 })) false),
      literal.HasSignOfValue ∧ literal.LeapsAtEnd := by
    intro literal hliteral
    rcases List.mem_singleton.mp hliteral with rfl
    exact ⟨trivial, trivial⟩
  have hfinite : ∀ x, Literal.float x ∈ JsonType.expr.constants
      (Expr.equals (.call "now" []) (.literal (.interval { months := 2 })) false) →
      x.isFinite = true := by
    intro x hx
    cases List.mem_singleton.mp hx
  exact (ofJson?_presents_iff .expr
    (Expr.equals (.call "now" []) (.literal (.interval { months := 2 })) false) hfinite
    (.content "equals" rfl hequality) (Or.inr (by decide))).2.mpr hconstants

/-- What is written for a zero with a minus sign is read as the zero without, and what is written
for the leap second after 23:56:04 is read as the fifth second of that minute. -/
theorem ofJson?_negative_zero_and_leap_second :
    (Json.Presents .literal (Literal.decimal (.mk true 0 28 (by decide) (by decide))).toJson
        (.object [("decimal", .string "-0.0000000000000000000000000000")]) ∧
      JsonType.literal.ofJson? Json.nestingLimit
          (.object [("decimal", .string "-0.0000000000000000000000000000")]) =
        some (Literal.decimal (.mk false 0 28 (by decide) (by decide)))) ∧
    Json.Presents .literal (Literal.time ⟨23, 56, 4, 1333333333, by decide, by decide, by decide,
        by decide⟩).toJson (.object [("time", .string "23:56:05.333333333")]) ∧
      JsonType.literal.ofJson? Json.nestingLimit
          (.object [("time", .string "23:56:05.333333333")]) =
        some (Literal.time ⟨23, 56, 5, 333333333, by decide, by decide, by decide,
          by decide⟩) := by
  refine ⟨⟨.unchanged _ _, rfl⟩, .unchanged _ _, rfl⟩

/-! ### Texts -/

/-- The text of a value whose doubles are finite is accepted, if the reader takes the digits of
these doubles for them, and read as that value if and only if no decimal in it is a zero with a
minus sign and no time in it is a leap second inside a minute. Without such zeros, writing, reading
and writing again changes nothing. -/
theorem read?_write_iff (type : JsonType) (value : type.Value)
    (hfinite : ∀ x, .float x ∈ type.constants value → x.isFinite = true)
    (hdigits : ∀ x, .float x ∈ type.constants value → x.isFinite = true →
      Json.read? (Json.float x).write = some (.float x))
    (hnesting : (type.toJson value).nesting ≤ Json.nestingLimit) :
    (∃ result, type.read? (type.write value) = some result) ∧
      (type.read? (type.write value) = some value ↔
        ∀ literal ∈ type.constants value, literal.HasSignOfValue ∧ literal.LeapsAtEnd) ∧
      ((∀ literal ∈ type.constants value, literal.HasSignOfValue) →
        ∀ text, type.read? text = some value →
          type.rewrite? text = some (type.write value) ∧
            type.rewrite? (type.write value) = some (type.write value)) := by
  have hreread : ∀ literal ∈ type.constants value, literal.DigitsReread := by
    intro literal hliteral
    cases literal with
    | float x => exact hdigits x hliteral (hfinite x hliteral)
    | _ => trivial
  have hread := type.read?_write_eq hreread hnesting
  refine ⟨⟨_, hread⟩, ?_, fun hsigns text htext ↦ ⟨?_, ?_⟩⟩
  · rw [hread, Option.some.injEq, mapScalars_scalarAsRead_eq_self_iff]
  · rw [rewrite?, htext, Option.map_some]
  · rw [rewrite?, hread, Option.map_some, write, write, type.toJson_mapScalars_scalarAsRead hsigns]

/-- A comparison with an array of a double, which is written with an exponent, and a decimal that
keeps its last zero. -/
def priceCheck : Expr :=
  .equals (.field 0 "price") (.literal (.array [.float ⟨0x4341C37937E08000⟩,
    .decimal (.mk true 350 2 (by decide) (by decide))] .float)) true

theorem read?_write_price :
    JsonType.expr.read? (JsonType.expr.write priceCheck) = some priceCheck := by
  have hdigits : Json.read? (Json.float ⟨0x4341C37937E08000⟩).write =
      some (.float ⟨0x4341C37937E08000⟩) := by
    have htext : (Json.float ⟨0x4341C37937E08000⟩).write = "1e+16" := by decide +kernel
    have hscan : Json.scanNumeral? "1e+16".toList =
      some ({ negative := false, whole := ['1'], exponent := some 16 }, []) := by decide
    have hnil : Json.lexemes? [] = some [] := by rw [Json.lexemes?]
    have hbegins : Json.BeginsNumber "1e+16".toList := ⟨'1', _, rfl, Or.inr rfl⟩
    have hlexemes := Json.lexemes?_number_append hbegins hscan hnil .nil
    rw [List.append_nil, hnil] at hlexemes
    rw [htext, Json.read?, hlexemes]
    rfl
  have hfloat : ∀ x, Literal.float x ∈ JsonType.expr.constants priceCheck →
      x = ⟨0x4341C37937E08000⟩ := by
    intro x hx
    simpa [constants, priceCheck, Literal.nodes, Literal.nodesOfEach] using hx
  have hkept : ∀ literal ∈ JsonType.expr.constants priceCheck,
      literal.HasSignOfValue ∧ literal.LeapsAtEnd := by
    simp [constants, priceCheck, Literal.nodes, Literal.nodesOfEach, Literal.HasSignOfValue,
      Decimal.HasSignOfValue, Literal.LeapsAtEnd]
  refine (read?_write_iff .expr priceCheck (fun x hx ↦ ?_) (fun x hx _ ↦ ?_)
    (by decide)).2.1.mpr hkept
  · rw [hfloat x hx]
    rfl
  · rw [hfloat x hx, hdigits]

/-- The text of a JSON value, read and written again. -/
theorem rewrite?_eq (type : JsonType) (value : type.Value) {json : Json} {text written : String}
    (htext : json.write = text) (hjson : json.AllReread)
    (hvalue : type.ofJson? Json.nestingLimit json = some value)
    (hwritten : type.write value = written) : type.rewrite? text = some written := by
  rw [rewrite?, read?, ← htext, Json.read?_write hjson, Option.bind_some, hvalue, Option.map_some,
    hwritten]

/-- A small negative number whose exponent moves all its digits beyond the last place is rounded to
zero and keeps its sign, but the text with that sign is not written again from itself. The text of
the leap second after 23:56:04 is read as the fifth second of that minute. -/
theorem rewrite?_negative_zero_read?_leap_second :
    (JsonType.literal.rewrite? "\x7b\"decimal\":\"-0.4e-28\"\x7d" =
        some "\x7b\"decimal\":\"-0.0000000000000000000000000000\"\x7d" ∧
      JsonType.literal.rewrite? "\x7b\"decimal\":\"-0.0000000000000000000000000000\"\x7d" =
        some "\x7b\"decimal\":\"0.0000000000000000000000000000\"\x7d") ∧
    JsonType.literal.read? (JsonType.literal.write (Literal.time ⟨23, 56, 4, 1333333333, by decide,
        by decide, by decide, by decide⟩)) =
      some (Literal.time ⟨23, 56, 5, 333333333, by decide, by decide, by decide,
        by decide⟩) := by
  have hjson (text : String) : (Json.object [("decimal", .string text)]).AllReread := by
    simp [Json.allReread_object]
  refine ⟨⟨?_, ?_⟩, ?_⟩
  · exact rewrite?_eq .literal (Literal.decimal (.mk true 0 28 (by decide) (by decide)))
      (by decide +kernel) (hjson "-0.4e-28") rfl (by decide +kernel)
  · exact rewrite?_eq .literal (Literal.decimal (.mk false 0 28 (by decide) (by decide)))
      (by decide +kernel) (hjson "-0.0000000000000000000000000000") rfl (by decide +kernel)
  · refine read?_write_eq .literal (fun literal hliteral ↦ ?_) (by decide)
    rcases List.mem_singleton.mp hliteral with rfl
    exact trivial

end JsonType

end SqlCompose
