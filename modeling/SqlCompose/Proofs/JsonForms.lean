import SqlCompose.Json.Forms.Query
import SqlCompose.Proofs.JsonPresentation
import SqlCompose.Proofs.JsonText
import SqlCompose.Proofs.ScalarText
import SqlCompose.Proofs.WrittenTimes
import SqlCompose.Settings

/-!
Reading presented forms. Each reader accepts every presentation of what is written for a value
whose doubles are finite, and gives back the value with every scalar as it is read
(`Literal.scalarAsRead`): the sign of a decimal zero is dropped, and the second that is shown stands
in the place of a leap second inside a minute. These are the only parts of such a value that its
written form does not carry over to the reader.

The lemmas follow the grammar of forms. For each constructor the reader is told what the
presentations of its content look like, and from that what it returns; expressions and array
literals are then treated by induction (`Expr.readsPresented`, `Literal.readsPresented`).
-/

set_option autoImplicit false
set_option relaxedAutoImplicit false

namespace SqlCompose

open Json (PresentsWithin FieldPresented)

/-! ### Types of values -/

theorem ValueType.ofJson?_toJson (type : ValueType) {levels : Nat}
    (hnesting : type.toJson.nesting ≤ levels) :
    ValueType.ofJson? levels type.toJson = some type := by
  induction type generalizing levels with
  | array element ih =>
    have hinner : element.toJson.nesting < (ValueType.array element).toJson.nesting :=
      Json.nesting_lt_of_mem_members (List.mem_singleton_self ("array", element.toJson))
    obtain ⟨inner, rfl⟩ := Json.exists_level hnesting (Nat.succ_pos _)
    rw [toJson, ofJson?, ih (by omega), Option.map_some]
  | _ => cases levels <;> rfl

/-! ### Intervals -/

namespace Interval

theorem withDefault?_component {levels : Nat} {name : String} {component : Int32}
    {given : Option Json}
    (hgiven : FieldPresented levels { name, fallback := some (.integer 0) }
      (.integer component.toInt) given) :
    Json.withDefault? 0 Json.int32? given = some component := by
  refine hgiven.withDefault? (fun json hjson ↦ ?_) fun hdefault ↦ ?_
  · rw [hjson.plain.1, Json.int32?_toInt]
  · have hzero : (0 : Int) = component.toInt := by simpa using hdefault
    exact Int32.toInt_inj.mp hzero

theorem ofJson?_of_presents {interval : Interval} {levels : Nat} {json : Json}
    (hpresents : PresentsWithin levels .interval interval.toJson json) :
    Interval.ofJson? levels json = some interval := by
  obtain ⟨inner, given, rfl, hfields, hall⟩ := hpresents.exists_fields rfl
    ([interval.years, interval.months, interval.days, interval.hours, interval.minutes,
      interval.seconds].map fun component ↦ .integer component.toInt) rfl rfl
  simp only [List.map_cons, List.map_nil, List.zip_cons_cons, List.zip_nil_left,
    List.forall₂_cons_left_iff, List.forall₂_nil_left_iff] at hall
  obtain ⟨years, _, hyears, ⟨months, _, hmonths, ⟨days, _, hdays, ⟨hours, _, hhours,
    ⟨minutes, _, hminutes, ⟨seconds, _, hseconds, rfl, rfl⟩, rfl⟩, rfl⟩, rfl⟩, rfl⟩, rfl⟩ := hall
  have hnames : json.fields? fieldNames =
    some [years, months, days, hours, minutes, seconds] := hfields
  simp only [Interval.ofJson?, Nat.succ_ne_zero, if_false, hnames, Option.bind_eq_bind,
    Option.bind_some, List.mapM_cons, List.mapM_nil, withDefault?_component hyears,
    withDefault?_component hmonths, withDefault?_component hdays, withDefault?_component hhours,
    withDefault?_component hminutes, withDefault?_component hseconds, Option.pure_def]

end Interval

/-! ### Literals -/

namespace Literal

/-- What is read for a scalar that was written. -/
def scalarAsRead : Literal → Literal
  | decimal number => decimal number.withSignOfValue
  | value => value.scalarAsWritten

/-- The literal with every scalar as it is read. -/
def asRead (value : Literal) : Literal :=
  value.mapScalars scalarAsRead

/-- Not a double without finite value. -/
def IsNumber : Literal → Prop
  | float value => value.isFinite = true
  | _ => True

theorem listToJson_eq_map (values : List Literal) : listToJson values = values.map toJson := by
  induction values with
  | nil => rfl
  | cons value rest ih => rw [listToJson, ih, List.map_cons]

/-- Every presentation of the literal is read, as far as there are levels enough. -/
def ReadsPresented (value : Literal) : Prop :=
  ∀ levels json, PresentsWithin levels .literal value.toJson json →
    ofJson? levels json = some value.asRead

theorem ofJson?_content {kind : String} (harray : kind ≠ "array") (hnull : kind ≠ "null")
    (levels : Nat) (content : Json) :
    ofJson? (levels + 1) (.object [(kind, content)]) = ofContent? levels kind content := by
  have hname : (Json.object [(kind, content)]).name? (levels + 1) ≠ some "null" := by
    cases content <;> simp [Json.name?, hnull]
  rw [ofJson?]
  · exact if_neg hname
  · simp [harray]

theorem listOf?_byte? (bytes : List UInt8) {levels : Nat}
    (hnesting : (Json.array (bytes.map fun byte ↦ .integer byte.toNat)).nesting ≤ levels) :
    Json.listOf? (fun _ ↦ Json.byte?) levels
      (.array (bytes.map fun byte ↦ .integer byte.toNat)) = some bytes := by
  obtain ⟨inner, rfl⟩ := Json.exists_level hnesting (Nat.succ_pos _)
  exact Json.mapM_written Json.byte?_toNat bytes

theorem ofJson?_null (levels : Nat) : ofJson? levels (.string "null") = some null := by
  rw [ofJson?]
  · exact if_pos rfl
  all_goals simp

/-- A literal other than an array or an interval has its content written in one way only. -/
theorem readsPresented_of_content {value : Literal} {kind : String} {content : Json}
    (hwritten : value.toJson = .object [(kind, content)])
    (hkind : kind ∉ ["interval", "array", "null"])
    (hread : ∀ levels, content.nesting ≤ levels →
      ofContent? levels kind content = some value.asRead) : value.ReadsPresented := by
  intro levels json hpresents
  rw [hwritten] at hpresents
  obtain ⟨inner, presented, rfl, rfl, hcontent⟩ := hpresents.exists_content rfl
  simp only [List.mem_cons, List.not_mem_nil, or_false, not_or] at hkind
  have hplain : PresentsWithin inner .plain content presented := by
    split at hcontent
    · exact absurd rfl hkind.1
    · exact absurd rfl hkind.2.1
    · exact hcontent
  obtain ⟨rfl, hnesting⟩ := hplain.plain
  rw [ofJson?_content hkind.2.1 hkind.2.2, hread inner hnesting]

theorem readsPresented_array {elements : List Literal} (elementType : ValueType)
    (helements : ∀ element ∈ elements, element.ReadsPresented) :
    (array elements elementType).ReadsPresented := by
  intro levels json hpresents
  rw [toJson, listToJson_eq_map] at hpresents
  obtain ⟨outer, content, rfl, rfl, hcontent⟩ := hpresents.exists_content rfl
  obtain ⟨middle, list, type, rfl, hfields, hlist, htype⟩ := hcontent.exists_pair rfl rfl rfl rfl
  obtain ⟨inner, presented, rfl, rfl, hitems⟩ := hlist.exists_items rfl
  obtain ⟨rfl, hnesting⟩ := htype.plain
  have hliterals : presented.mapM (ofJson? inner) = some (elements.map asRead) :=
    Json.mapM_of_presents hitems fun element helement ↦ helements element helement inner
  simp only [ofJson?, hfields, Json.items?, hliterals,
    ValueType.ofJson?_toJson elementType hnesting, Option.bind_eq_bind, Option.bind_some]
  rw [asRead, mapScalars, mapScalarsOfEach_eq_map]
  rfl

theorem readsPresented (value : Literal) (hvalue : ∀ node ∈ value.nodes, node.IsNumber) :
    value.ReadsPresented := by
  induction value using induction with
  | array elements elementType ih =>
    rw [forall_mem_nodes_array] at hvalue
    exact readsPresented_array elementType fun element helement ↦
      ih element helement (hvalue.2 element helement)
  | scalar value hscalar =>
    rw [nodes_of_isScalar hscalar, List.forall_mem_singleton] at hvalue
    cases value with
    | array => cases hscalar
    | null =>
      intro levels json hpresents
      rw [hpresents.eq_string, ofJson?_null]
      rfl
    | boolean value =>
      exact readsPresented_of_content rfl (by decide) fun levels _ ↦ rfl
    | text value =>
      exact readsPresented_of_content rfl (by decide) fun levels _ ↦ rfl
    | integer value =>
      refine readsPresented_of_content rfl (by decide) fun levels _ ↦ ?_
      rw [ofContent?, Json.int64?_toInt]
      rfl
    | float value =>
      refine readsPresented_of_content rfl (by decide) fun levels _ ↦ ?_
      have hfinite : value.isFinite = true := hvalue
      rw [Json.ofBinary64, if_pos hfinite]
      rfl
    | decimal number =>
      refine readsPresented_of_content rfl (by decide) fun levels _ ↦ ?_
      rw [ofContent?, Decimal.ofJson?, String.toList_ofList, Decimal.ofText?_text]
      rfl
    | binary bytes =>
      refine readsPresented_of_content rfl (by decide) fun levels hnesting ↦ ?_
      rw [ofContent?, listOf?_byte? bytes hnesting]
      rfl
    | date date =>
      refine readsPresented_of_content rfl (by decide) fun levels _ ↦ ?_
      rw [ofContent?, Json.parsed?_ofList, Date.ofText?_text]
      rfl
    | time time =>
      refine readsPresented_of_content rfl (by decide) fun levels _ ↦ ?_
      rw [ofContent?, Json.parsed?_ofList, TimeOfDay.ofText?_text]
      rfl
    | timestamp timestamp =>
      refine readsPresented_of_content rfl (by decide) fun levels _ ↦ ?_
      rw [ofContent?, Json.parsed?_ofList, Timestamp.ofText?_text]
      rfl
    | interval interval =>
      intro levels json hpresents
      rw [toJson] at hpresents
      obtain ⟨inner, presented, rfl, rfl, hcontent⟩ := hpresents.exists_content rfl
      rw [ofJson?_content (by decide) (by decide), ofContent?,
        Interval.ofJson?_of_presents hcontent]
      rfl

end Literal

/-! ### Expressions -/

theorem Truncation.ofJson?_toJson (unit : Truncation) (levels : Nat) :
    Truncation.ofJson? levels unit.toJson = some unit := by
  cases unit <;> rfl

namespace Expr

/-- The expression with every scalar as it is read. -/
def asRead (expr : Expr) : Expr :=
  expr.mapScalars Literal.scalarAsRead

theorem listToJson_eq_map (exprs : List Expr) : listToJson exprs = exprs.map toJson := by
  induction exprs with
  | nil => rfl
  | cons expr rest ih => rw [listToJson, ih, List.map_cons]

/-- What an expression of the given kind is read as, from the fields of its structure. -/
inductive ReadsFields (levels : Nat) : String → List (Option Json) → Expr → Prop
  | field (position : UInt64) (name : String) :
      ReadsFields levels "field" [some (.integer position.toNat), some (.string name)]
        (field position name)
  | equals {one two : Json} {given : Option Json} {left right : Expr} {negated : Bool}
      (hleft : ofJson? levels one = some left) (hright : ofJson? levels two = some right)
      (hnegated : Json.withDefault? false Json.boolean? given = some negated) :
      ReadsFields levels "equals" [some one, some two, given] (equals left right negated)
  | isIn {one two : Json} {left right : Expr} (hleft : ofJson? levels one = some left)
      (hright : ofJson? levels two = some right) :
      ReadsFields levels "in" [some one, some two] (isIn left right)
  | range {one two : Json} {first last : Expr} (hfirst : ofJson? levels one = some first)
      (hlast : ofJson? levels two = some last) :
      ReadsFields levels "range" [some one, some two] (range first last)
  | div {one two : Json} {left right : Expr} (hleft : ofJson? levels one = some left)
      (hright : ofJson? levels two = some right) :
      ReadsFields levels "div" [some one, some two] (div left right)
  | truncate (unit : Truncation) {one : Json} {operand : Expr}
      (hoperand : ofJson? levels one = some operand) :
      ReadsFields levels "truncate" [some unit.toJson, some one] (truncate unit operand)
  | call (name : String) {given : Option Json} {arguments : List Expr}
      (harguments : Json.withDefault? [] (Json.listOf? ofJson? levels) given = some arguments) :
      ReadsFields levels "call" [some (.string name), given] (call name arguments)
  | array {list type : Json} {elements : List Expr} {elementType : ValueType}
      (helements : Json.listOf? ofJson? levels list = some elements)
      (htype : ValueType.ofJson? levels type = some elementType) :
      ReadsFields levels "array" [some list, some type] (array elements elementType)

/-- Every kind has a structure of its own, so the reader is opened here once for all of them. Lists
are read one level further in, if there is one, which is the choice that `listOf?` makes. -/
theorem ReadsFields.ofJson?_eq {levels : Nat} {kind : String} {given : List (Option Json)}
    {expr : Expr} (hreads : ReadsFields levels kind given expr) {content : Json}
    (hfields : content.fields? (fieldNames kind) = some given) :
    ofJson? (levels + 2) (.object [(kind, content)]) = some expr := by
  unfold ofJson?
  cases hreads with
  | field position name =>
    simp only [hfields, Json.uint64?_toNat, Json.text?, Option.bind_eq_bind, Option.bind_some]
    rfl
  | equals hleft hright hnegated =>
    simp only [hfields, hleft, hright, hnegated, Option.bind_eq_bind, Option.bind_some]
    rfl
  | isIn hleft hright =>
    simp only [hfields, hleft, hright, Option.bind_eq_bind, Option.bind_some]
    rfl
  | range hfirst hlast =>
    simp only [hfields, hfirst, hlast, Option.bind_eq_bind, Option.bind_some]
    rfl
  | div hleft hright =>
    simp only [hfields, hleft, hright, Option.bind_eq_bind, Option.bind_some]
    rfl
  | truncate unit hoperand =>
    simp only [hfields, Truncation.ofJson?_toJson, hoperand, Option.bind_eq_bind,
      Option.bind_some]
    rfl
  | call name harguments =>
    simp only [hfields, Json.text?, Option.bind_eq_bind, Option.bind_some]
    cases levels <;>
      exact congrArg (fun read ↦ read.bind fun arguments ↦ some (Expr.call name arguments))
        harguments
  | @array _ _ _ elementType helements htype =>
    simp only [hfields, htype, Option.bind_eq_bind, Option.bind_some]
    cases levels <;>
      exact congrArg (fun read ↦ read.bind fun elements ↦ some (Expr.array elements elementType))
        helements

/-- Every presentation of the expression is read, as far as there are levels enough. -/
def ReadsPresented (expr : Expr) : Prop :=
  ∀ levels json, PresentsWithin levels .expr expr.toJson json →
    ofJson? levels json = some expr.asRead

theorem readsPresented_field (position : UInt64) (name : String) :
    (field position name).ReadsPresented := by
  intro levels json hpresents
  obtain ⟨outer, content, rfl, rfl, hcontent⟩ := hpresents.exists_content rfl
  obtain ⟨inner, number, text, rfl, hfields, hnumber, htext⟩ :=
    hcontent.exists_pair rfl rfl rfl rfl
  rw [hnumber.plain.1, htext.plain.1] at hfields
  exact (ReadsFields.field position name).ofJson?_eq hfields

theorem readsPresented_source (position : UInt64) : (source position).ReadsPresented := by
  intro levels json hpresents
  obtain ⟨outer, content, rfl, rfl, hcontent⟩ := hpresents.exists_content rfl
  rw [hcontent.plain.1]
  exact congrArg (Option.map source) (Json.uint64?_toNat position)

theorem readsPresented_literal {value : Literal} (hvalue : value.ReadsPresented) :
    (literal value).ReadsPresented := by
  intro levels json hpresents
  obtain ⟨outer, content, rfl, rfl, hcontent⟩ := hpresents.exists_content rfl
  exact congrArg (Option.map literal) (hvalue outer content hcontent)

theorem readsPresented_not {operand : Expr} (hoperand : operand.ReadsPresented) :
    (not operand).ReadsPresented := by
  intro levels json hpresents
  obtain ⟨outer, content, rfl, rfl, hcontent⟩ := hpresents.exists_content rfl
  exact congrArg (Option.map not) (hoperand outer content hcontent)

theorem readsPresented_equals {left right : Expr} (hleft : left.ReadsPresented)
    (hright : right.ReadsPresented) (negated : Bool) :
    (equals left right negated).ReadsPresented := by
  intro levels json hpresents
  obtain ⟨outer, content, rfl, rfl, hcontent⟩ := hpresents.exists_content rfl
  obtain ⟨inner, given, rfl, hfields, hall⟩ := hcontent.exists_fields rfl
    [left.toJson, right.toJson, .boolean negated] rfl rfl
  simp only [List.zip_cons_cons, List.zip_nil_left, List.forall₂_cons_left_iff,
    List.forall₂_nil_left_iff] at hall
  obtain ⟨_, _, hfirst, ⟨_, _, hsecond, ⟨third, _, hthird, rfl, rfl⟩, rfl⟩, rfl⟩ := hall
  obtain ⟨one, rfl, hone⟩ := hfirst.exists_given rfl
  obtain ⟨two, rfl, htwo⟩ := hsecond.exists_given rfl
  have hnegated : Json.withDefault? false Json.boolean? third = some negated := by
    refine hthird.withDefault? (fun json hjson ↦ ?_) fun hdefault ↦ ?_
    · rw [hjson.plain.1]
      rfl
    · simpa using hdefault
  exact (ReadsFields.equals (hleft inner one hone) (hright inner two htwo) hnegated).ofJson?_eq
    hfields

/-- A structure of two operands is read when both operands are. -/
theorem readsPresented_of_operands {whole left right : Expr} {kind : String} {part : Json.Part}
    {first second : String}
    (hwritten : whole.toJson =
      .object [(kind, .object [(first, left.toJson), (second, right.toJson)])])
    {contents : String → Json.Part} (hkinds : Json.Part.expr.rule = .tagged contents)
    (hkind : contents kind = part)
    (hrule : part.rule =
      .record [{ name := first, part := .expr }, { name := second, part := .expr }])
    (hnames : fieldNames kind = [first, second])
    (hreads : ∀ {levels : Nat} {one two : Json}, ofJson? levels one = some left.asRead →
      ofJson? levels two = some right.asRead →
      ReadsFields levels kind [some one, some two] whole.asRead)
    (hleft : left.ReadsPresented) (hright : right.ReadsPresented) : whole.ReadsPresented := by
  intro levels json hpresents
  rw [hwritten] at hpresents
  obtain ⟨outer, content, rfl, rfl, hcontent⟩ := hpresents.exists_content hkinds
  rw [hkind] at hcontent
  obtain ⟨inner, one, two, rfl, hfields, hone, htwo⟩ := hcontent.exists_pair hrule rfl rfl rfl
  refine (hreads (hleft inner one hone) (hright inner two htwo)).ofJson?_eq ?_
  rw [hnames]
  exact hfields

theorem readsPresented_isIn {left right : Expr} (hleft : left.ReadsPresented)
    (hright : right.ReadsPresented) : (isIn left right).ReadsPresented :=
  readsPresented_of_operands rfl rfl rfl rfl rfl .isIn hleft hright

theorem readsPresented_range {first last : Expr} (hfirst : first.ReadsPresented)
    (hlast : last.ReadsPresented) : (range first last).ReadsPresented :=
  readsPresented_of_operands rfl rfl rfl rfl rfl .range hfirst hlast

theorem readsPresented_div {left right : Expr} (hleft : left.ReadsPresented)
    (hright : right.ReadsPresented) : (div left right).ReadsPresented :=
  readsPresented_of_operands rfl rfl rfl rfl rfl .div hleft hright

theorem readsPresented_truncate {operand : Expr} (unit : Truncation)
    (hoperand : operand.ReadsPresented) : (truncate unit operand).ReadsPresented := by
  intro levels json hpresents
  obtain ⟨outer, content, rfl, rfl, hcontent⟩ := hpresents.exists_content rfl
  obtain ⟨inner, name, one, rfl, hfields, hname, hone⟩ := hcontent.exists_pair rfl rfl rfl rfl
  rw [hname.plain.1] at hfields
  exact (ReadsFields.truncate unit (hoperand inner one hone)).ofJson?_eq hfields

/-- A list of expressions is read item by item. -/
theorem listOf?_of_presents {exprs : List Expr} (hexprs : ∀ expr ∈ exprs, expr.ReadsPresented)
    {levels : Nat} {json : Json}
    (hpresents : PresentsWithin levels .exprs (.array (listToJson exprs)) json) :
    Json.listOf? ofJson? levels json = some (mapScalarsOfEach Literal.scalarAsRead exprs) := by
  rw [listToJson_eq_map] at hpresents
  obtain ⟨inner, presented, rfl, rfl, hitems⟩ := hpresents.exists_items rfl
  rw [mapScalarsOfEach_eq_map]
  exact Json.mapM_of_presents hitems fun expr hexpr ↦ hexprs expr hexpr inner

theorem readsPresented_call (name : String) {arguments : List Expr}
    (harguments : ∀ argument ∈ arguments, argument.ReadsPresented) :
    (call name arguments).ReadsPresented := by
  intro levels json hpresents
  obtain ⟨outer, content, rfl, rfl, hcontent⟩ := hpresents.exists_content rfl
  obtain ⟨inner, text, given, rfl, hfields, htext, hgiven⟩ := hcontent.exists_two rfl rfl rfl
  rw [htext.plain.1] at hfields
  have hlist : Json.withDefault? [] (Json.listOf? ofJson? inner) given =
      some (mapScalarsOfEach Literal.scalarAsRead arguments) := by
    refine hgiven.withDefault? (fun list hlist ↦ listOf?_of_presents harguments hlist)
      fun hdefault ↦ ?_
    cases arguments with
    | nil => rfl
    | cons => simp [listToJson] at hdefault
  exact (ReadsFields.call name hlist).ofJson?_eq hfields

theorem readsPresented_array {elements : List Expr} (elementType : ValueType)
    (helements : ∀ element ∈ elements, element.ReadsPresented) :
    (array elements elementType).ReadsPresented := by
  intro levels json hpresents
  obtain ⟨outer, content, rfl, rfl, hcontent⟩ := hpresents.exists_content rfl
  obtain ⟨inner, list, type, rfl, hfields, hlist, htype⟩ := hcontent.exists_pair rfl rfl rfl rfl
  obtain ⟨rfl, hnesting⟩ := htype.plain
  exact (ReadsFields.array (listOf?_of_presents helements hlist)
    (ValueType.ofJson?_toJson elementType hnesting)).ofJson?_eq hfields

theorem readsPresented (expr : Expr) (hexpr : ∀ value ∈ expr.constants, value.IsNumber) :
    expr.ReadsPresented := by
  induction expr using induction with
  | field position name => exact readsPresented_field position name
  | source position => exact readsPresented_source position
  | not operand hoperand => exact readsPresented_not (hoperand hexpr)
  | equals left right negated hleft hright =>
    rw [constants_equals, List.forall_mem_append] at hexpr
    exact readsPresented_equals (hleft hexpr.1) (hright hexpr.2) negated
  | between value first last hvalue hfirst hlast =>
    rw [constants_isIn, constants_range, List.forall_mem_append, List.forall_mem_append] at hexpr
    exact readsPresented_isIn (hvalue hexpr.1)
      (readsPresented_range (hfirst hexpr.2.1) (hlast hexpr.2.2))
  | isIn value collection _ hvalue hcollection =>
    rw [constants_isIn, List.forall_mem_append] at hexpr
    exact readsPresented_isIn (hvalue hexpr.1) (hcollection hexpr.2)
  | range first last hfirst hlast =>
    rw [constants_range, List.forall_mem_append] at hexpr
    exact readsPresented_range (hfirst hexpr.1) (hlast hexpr.2)
  | div left right hleft hright =>
    rw [constants_div, List.forall_mem_append] at hexpr
    exact readsPresented_div (hleft hexpr.1) (hright hexpr.2)
  | truncate unit operand hoperand => exact readsPresented_truncate unit (hoperand hexpr)
  | call name arguments harguments =>
    rw [constants_call, forall_mem_constantsOfEach] at hexpr
    exact readsPresented_call name fun argument hmem ↦
      harguments argument hmem (hexpr argument hmem)
  | literal value =>
    rw [constants_literal] at hexpr
    exact readsPresented_literal (value.readsPresented hexpr)
  | array elements elementType helements =>
    rw [constants_array, forall_mem_constantsOfEach] at hexpr
    exact readsPresented_array elementType fun element hmem ↦
      helements element hmem (hexpr element hmem)

end Expr

/-! ### Parts of queries -/

theorem optional?_elim (name : Option String) :
    Json.optional? Json.text? (name.elim .null .string) = some name := by
  cases name <;> rfl

theorem Schema.ofJson?_of_presents {schema : Schema} {levels : Nat} {json : Json}
    (hpresents : PresentsWithin levels .schema schema.toJson json) :
    Schema.ofJson? levels json = some schema := by
  obtain ⟨inner, given, rfl, hfields, hall⟩ := hpresents.exists_fields rfl
    [.string schema.table, .array (schema.fields.map .string),
      schema.primaryKey.elim .null .string] rfl rfl
  simp only [List.zip_cons_cons, List.zip_nil_left, List.forall₂_cons_left_iff,
    List.forall₂_nil_left_iff] at hall
  obtain ⟨_, _, hfirst, ⟨names, _, hsecond, ⟨key, _, hthird, rfl, rfl⟩, rfl⟩, rfl⟩ := hall
  obtain ⟨table, rfl, htable⟩ := hfirst.exists_given rfl
  have hnames : Json.withDefault? [] (Json.listOf? (fun _ ↦ Json.text?) inner) names =
      some schema.fields := by
    refine hsecond.withDefault? (fun list hlist ↦ ?_) fun hdefault ↦ ?_
    · obtain ⟨rfl, hnesting⟩ := hlist.plain
      obtain ⟨innermost, rfl⟩ := Json.exists_level hnesting (Nat.succ_pos _)
      have hread (name : String) : Json.text? (.string name) = some name := rfl
      exact Json.mapM_written hread schema.fields
    · simpa [eq_comm] using hdefault
  have hkey : Json.withDefault? none (Json.optional? Json.text?) key = some schema.primaryKey := by
    refine hthird.withDefault? (fun name hname ↦ ?_) fun hdefault ↦ ?_
    · rw [hname.plain.1, optional?_elim]
    · cases hprimary : schema.primaryKey with
      | none => rfl
      | some name => simp [hprimary] at hdefault
  have hgiven : json.fields? ["source", "fields", "primary_key"] =
    some [some table, names, key] := hfields
  rw [htable.plain.1] at hgiven
  simp only [Schema.ofJson?, hgiven, Json.required?, Json.text?, hnames, hkey,
    Option.bind_eq_bind, Option.bind_some]

theorem JoinKind.ofJson?_toJson (kind : JoinKind) (levels : Nat) :
    JoinKind.ofJson? levels kind.toJson = some kind := by
  cases kind <;> rfl

/-- The join with a change made to every scalar in its condition. -/
def Join.mapScalars (change : Literal → Literal) (join : Join) : Join :=
  { join with on := join.on.mapScalars change }

theorem Join.ofJson?_of_presents {join : Join} {levels : Nat} {json : Json}
    (hjoin : ∀ value ∈ join.on.constants, value.IsNumber)
    (hpresents : PresentsWithin levels .join join.toJson json) :
    Join.ofJson? levels json = some (join.mapScalars Literal.scalarAsRead) := by
  obtain ⟨inner, kind, condition, rfl, hfields, hkind, hcondition⟩ :=
    hpresents.exists_pair rfl rfl rfl rfl
  rw [hkind.plain.1] at hfields
  simp only [Join.ofJson?, hfields, JoinKind.ofJson?_toJson,
    join.on.readsPresented hjoin inner condition hcondition, Option.bind_eq_bind, Option.bind_some]
  rfl

theorem SortDirection.ofJson?_toJson (direction : SortDirection) (levels : Nat) :
    SortDirection.ofJson? levels direction.toJson = some direction := by
  cases direction <;> rfl

/-- The term of an ordering with a change made to every scalar in it. -/
def SortTerm.mapScalars (change : Literal → Literal) (term : SortTerm) : SortTerm :=
  { term with expr := term.expr.mapScalars change }

theorem SortTerm.ofJson?_of_presents {term : SortTerm} {levels : Nat} {json : Json}
    (hterm : ∀ value ∈ term.expr.constants, value.IsNumber)
    (hpresents : PresentsWithin levels .sortTerm term.toJson json) :
    SortTerm.ofJson? levels json = some (term.mapScalars Literal.scalarAsRead) := by
  obtain ⟨inner, expr, given, rfl, hfields, hexpr, hgiven⟩ := hpresents.exists_two rfl rfl rfl
  have hdirection : Json.withDefault? .ascending (SortDirection.ofJson? inner) given =
      some term.direction := by
    refine hgiven.withDefault? (fun name hname ↦ ?_) fun hdefault ↦ ?_
    · rw [hname.plain.1, SortDirection.ofJson?_toJson]
    · cases hsort : term.direction with
      | ascending => rfl
      | descending => simp [hsort, SortDirection.toJson] at hdefault
  simp only [SortTerm.ofJson?, hfields, term.expr.readsPresented hterm inner expr hexpr,
    hdirection,
    Option.bind_eq_bind, Option.bind_some]
  rfl

/-- Which rows count as duplicates, with a change made to every scalar in the expressions. -/
def Distinct.mapScalars (change : Literal → Literal) : Distinct → Distinct
  | rows => rows
  | on exprs => on (Expr.mapScalarsOfEach change exprs)

/-- The literals in the expressions that decide which rows count as duplicates. -/
def Distinct.constants : Distinct → List Literal
  | rows => []
  | on exprs => Expr.constantsOfEach exprs

theorem Distinct.ofJson?_of_presents {distinct : Distinct} {levels : Nat} {json : Json}
    (hdistinct : ∀ value ∈ distinct.constants, value.IsNumber)
    (hpresents : PresentsWithin levels .distinct distinct.toJson json) :
    Distinct.ofJson? levels json = some (distinct.mapScalars Literal.scalarAsRead) := by
  cases distinct with
  | rows =>
    rw [hpresents.eq_string]
    cases levels <;> rfl
  | on exprs =>
    obtain ⟨inner, list, rfl, rfl, hlist⟩ := hpresents.exists_content rfl
    rw [constants, Expr.forall_mem_constantsOfEach] at hdistinct
    exact congrArg (Option.map on) (Expr.listOf?_of_presents
      (fun expr hexpr ↦ expr.readsPresented (hdistinct expr hexpr)) hlist)

theorem Lock.ofJson?_toJson (lock : Lock) {levels : Nat} (hnesting : lock.toJson.nesting ≤ levels) :
    Lock.ofJson? levels lock.toJson = some lock := by
  cases lock with
  | forUpdate => cases levels <;> rfl
  | clause text =>
    obtain ⟨inner, rfl⟩ := Json.exists_level hnesting (Nat.succ_pos _)
    rfl

/-! ### Settings -/

theorem uint64_eq_of_integer {first second : UInt64}
    (heq : Json.integer first.toNat = .integer second.toNat) : first = second :=
  UInt64.toNat_inj.mp (Int.ofNat.inj (Json.integer.inj heq))

namespace Settings

theorem ofCompilerJson?_of_presents {settings : Settings} {levels : Nat} {json : Json}
    (hpresents : PresentsWithin levels .compilerSettings
      (.object [("max_expression_depth", .integer settings.maxDepth.toNat),
        ("log_statements", .boolean settings.logStatements)]) json) :
    levels ≠ 0 ∧ ofCompilerJson? json = some settings := by
  obtain ⟨inner, given, rfl, hfields, hall⟩ := hpresents.exists_fields rfl
    [.integer settings.maxDepth.toNat, .boolean settings.logStatements] rfl rfl
  simp only [List.zip_cons_cons, List.zip_nil_left, List.forall₂_cons_left_iff,
    List.forall₂_nil_left_iff] at hall
  obtain ⟨depth, _, hfirst, ⟨logged, _, hsecond, rfl, rfl⟩, rfl⟩ := hall
  have hdepth : Json.withDefault? defaultMaxDepth Json.uint64? depth = some settings.maxDepth := by
    refine hfirst.withDefault? (fun number hnumber ↦ ?_) fun hdefault ↦ ?_
    · rw [hnumber.plain.1, Json.uint64?_toNat]
    · exact uint64_eq_of_integer (Option.some.inj hdefault)
  have hlogged : Json.withDefault? false Json.boolean? logged = some settings.logStatements := by
    refine hsecond.withDefault? (fun value hvalue ↦ ?_) fun hdefault ↦ ?_
    · rw [hvalue.plain.1]
      rfl
    · simpa using hdefault
  have hgiven : json.fields? ["max_expression_depth", "log_statements"] =
    some [depth, logged] := hfields
  refine ⟨Nat.succ_ne_zero inner, ?_⟩
  simp only [ofCompilerJson?, hgiven, hdepth, hlogged, Option.bind_eq_bind, Option.bind_some]

theorem ofJson?_of_presents {settings : Settings} {levels : Nat} {json : Json}
    (hpresents : PresentsWithin levels .settings settings.toJson json) :
    ofJson? levels json = some settings := by
  obtain ⟨inner, given, rfl, hfields, hall⟩ := hpresents.exists_fields rfl
    [.object [("max_expression_depth", .integer settings.maxDepth.toNat),
      ("log_statements", .boolean settings.logStatements)]] rfl rfl
  simp only [List.zip_cons_cons, List.zip_nil_left, List.forall₂_cons_left_iff,
    List.forall₂_nil_left_iff] at hall
  obtain ⟨part, _, hpart, rfl, rfl⟩ := hall
  have hgiven : json.fields? ["compiler"] = some [part] := hfields
  simp only [ofJson?, hgiven, Option.bind_eq_bind, Option.bind_some]
  refine hpart.withDefault? (fun compiler hcompiler ↦ ?_) fun hdefault ↦ ?_
  · obtain ⟨hlevels, hread⟩ := ofCompilerJson?_of_presents hcompiler
    rw [if_neg hlevels, hread]
  · obtain ⟨maxDepth, logStatements⟩ := settings
    simp only [Option.some.injEq, Json.object.injEq, List.cons.injEq, Prod.mk.injEq, true_and,
      and_true, Json.boolean.injEq] at hdefault
    obtain ⟨hdepth, hlogged⟩ := hdefault
    rw [← uint64_eq_of_integer hdepth, ← hlogged]

end Settings

end SqlCompose
