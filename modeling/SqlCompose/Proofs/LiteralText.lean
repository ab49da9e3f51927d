import SqlCompose.Proofs.NumberText
import SqlCompose.Proofs.StatementText
import SqlCompose.Proofs.Unambiguity

/-!
Literals can be told from their texts. What a text does not show is the type of the elements of an
array that has any, and whether a decimal without fraction was given with scale zero or one; the
normal form of a literal leaves out just that. Two literals that can be written have the same
PostgreSQL text exactly when they have the same normal form (`Literal.render_eq_iff`), with the
second that is shown in the place of a leap second inside a minute.

The argument reads lexemes. A scalar ends at the first comma or closing bracket, and
`Lexeme.scalar?` tells its kind from the lexemes up to there; the type of an empty array is read by
`ValueType.read?`. By induction over the literal, lexemes that begin with those of two literals
begin with one literal, up to normal form, and go on in the same way (`Literal.isTold`).
-/

set_option autoImplicit false
set_option relaxedAutoImplicit false

namespace SqlCompose

/-! ### Normal forms -/

namespace Literal

mutual

/-- The literal without what its text does not show. -/
def normalized : Literal → Literal
  | decimal value => decimal value.normalized
  | array elements elementType =>
    array (normalizedOfEach elements) (if elements.isEmpty then elementType else .text)
  | value => value

/-- The normal forms of each of several literals. -/
def normalizedOfEach : List Literal → List Literal
  | [] => []
  | value :: rest => normalized value :: normalizedOfEach rest

end

end Literal

/-! ### Type names -/

namespace ValueType

/-- The types that are not array types. -/
def baseTypes : List ValueType :=
  [boolean, text, integer, float, decimal, binary, date, time, timestamp, interval]

/-- The type that has the given name. -/
def ofWord? (name : List Char) : Option ValueType :=
  baseTypes.find? fun type ↦ (Dialect.postgresTypeName type).toList == name

/-- The array type with as many dimensions as pairs of brackets follow. -/
def readBrackets (type : ValueType) : List Lexeme → ValueType × List Lexeme
  | .mark ['['] :: .mark [']'] :: rest => readBrackets (array type) rest
  | rest => (type, rest)

/-- The type at the front of a list of lexemes. -/
def read? : List Lexeme → Option (ValueType × List Lexeme)
  | .word name :: rest => (ofWord? name).map fun type ↦ type.readBrackets rest
  | _ => none

theorem read?_lexemes_append (type : ValueType) (rest : List Lexeme) :
    read? (type.lexemes ++ rest) = some (type.readBrackets rest) := by
  induction type generalizing rest with
  | array element ih =>
    rw [lexemes, List.append_assoc, ih]
    rfl
  | _ => rfl

theorem readBrackets_of_head? {rest : List Lexeme} (hrest : rest.head? ≠ some (.mark ['[']))
    (type : ValueType) : type.readBrackets rest = (type, rest) := by
  unfold readBrackets
  split
  · exact absurd rfl hrest
  · rfl

/-- A type ends where no bracket follows. -/
theorem lexemes_append_injective {type other : ValueType} {rest following : List Lexeme}
    (hrest : rest.head? ≠ some (.mark ['['])) (hfollowing : following.head? ≠ some (.mark ['[']))
    (heq : type.lexemes ++ rest = other.lexemes ++ following) :
    type = other ∧ rest = following := by
  have hread := congrArg read? heq
  rw [read?_lexemes_append, read?_lexemes_append, readBrackets_of_head? hrest,
    readBrackets_of_head? hfollowing] at hread
  exact Prod.mk.inj (Option.some.inj hread)

end ValueType

/-! ### Scalars -/

/-- What the lexemes of a scalar show: its kind of notation and the texts in it. -/
inductive ScalarText
  | word (text : List Char)
  | quoted (content : List Char)
  | number (text : List Char)
  | typed (heading content : List Char)
  | castNumber (text : List Char)
  | castQuoted (content : List Char)
deriving DecidableEq

/-- The notation of a scalar, from all of its lexemes. -/
def Lexeme.scalar? : List Lexeme → Option ScalarText
  | [.word text] => some (.word text)
  | [.word heading, .quotedText content] => some (.typed heading content)
  | [.quotedText content] => some (.quoted content)
  | [.quotedText content, _, _] => some (.castQuoted content)
  | [.number text] => some (.number text)
  | [.operator sign, .number text] => some (.number (sign ++ text))
  | [.number text, _, _] => some (.castNumber text)
  | [.operator sign, .number text, _, _] => some (.castNumber (sign ++ text))
  | _ => none

namespace Literal

/-- The notation in which a scalar is written. -/
def scalarText : Literal → ScalarText
  | null => .word "NULL".toList
  | boolean value => .word (booleanWord value).toList
  | text value => .quoted value.toList
  | integer value => .number (Text.signedDecimal value.toInt)
  | float value => .castNumber (FloatLayout.statement.write value).toList
  | decimal value => .number (Dialect.decimalText value).toList
  | binary bytes => .castQuoted ('\\' :: 'x' :: Text.hexBytes bytes)
  | date value => .typed "date".toList value.text
  | time value => .typed "time".toList value.text
  | timestamp value => .typed "timestamp".toList (value.text ' ')
  | interval value => .typed "interval".toList value.text
  | array .. => .word []

end Literal

namespace Lexeme

theorem ofNumber_cases (text : List Char) :
    ofNumber text = [.number text] ∨
      ∃ numeral, text = ['-'] ++ numeral ∧ ofNumber text = [.operator ['-'], .number numeral] := by
  unfold ofNumber
  split
  · exact Or.inr ⟨_, rfl, rfl⟩
  · exact Or.inl rfl

theorem scalar?_ofNumber (text : List Char) : scalar? (ofNumber text) = some (.number text) := by
  rcases ofNumber_cases text with hplain | ⟨numeral, rfl, hsigned⟩
  · rw [hplain]
    rfl
  · rw [hsigned]
    rfl

theorem scalar?_ofNumber_cast (text : List Char) (operator type : Lexeme) :
    scalar? (ofNumber text ++ [operator, type]) = some (.castNumber text) := by
  rcases ofNumber_cases text with hplain | ⟨numeral, rfl, hsigned⟩
  · rw [hplain]
    rfl
  · rw [hsigned]
    rfl

end Lexeme

theorem hexByte_injective {first second : UInt8} (heq : Text.hexByte first = Text.hexByte second) :
    first = second := by
  have hdigits : ∀ digit < 16, ∀ other < 16,
      Nat.digitChar digit = Nat.digitChar other → digit = other := by decide
  have hfirst : first.toNat < 256 := first.toNat_lt
  have hsecond : second.toNat < 256 := second.toNat_lt
  obtain ⟨hhigh, hlow⟩ := List.cons.inj heq
  have hhighs := hdigits _ (by omega) _ (by omega) hhigh
  have hlows := hdigits _ (by omega) _ (by omega) (List.cons.inj hlow).1
  exact UInt8.toNat_inj.mp (by omega)

theorem hexBytes_injective {first second : List UInt8}
    (heq : Text.hexBytes first = Text.hexBytes second) : first = second := by
  induction first generalizing second with
  | nil =>
    cases second with
    | nil => rfl
    | cons byte rest => cases heq
  | cons byte rest ih =>
    cases second with
    | nil => cases heq
    | cons other others =>
      have hsplit : Text.hexByte byte ++ Text.hexBytes rest =
          Text.hexByte other ++ Text.hexBytes others := heq
      obtain ⟨hbytes, hrests⟩ := List.append_inj hsplit rfl
      rw [hexByte_injective hbytes, ih hrests]

/-- A decimal shows a point and an integer does not. -/
theorem signedDecimal_ne_decimalText (number : Int) (value : Decimal) :
    Text.signedDecimal number ≠ (Dialect.decimalText value).toList := by
  intro heq
  have hpoint : '.' ∈ (Dialect.decimalText value).toList := by
    rw [Dialect.toList_decimalText, pointedText]
    cases value.negative <;> simp
  rw [← heq, Text.signedDecimal] at hpoint
  have hdigits : '.' ∉ Text.decimal number.natAbs := fun hmem ↦
    absurd ((isDigits_decimal _).2 '.' hmem) (by decide)
  split at hpoint
  · exact hdigits ((List.mem_cons.mp hpoint).resolve_left (by decide))
  · exact hdigits hpoint

namespace Literal

/-- The lexemes of a scalar show its notation. -/
theorem scalar?_lexemes {value : Literal} (hscalar : value.isScalar = true) :
    Lexeme.scalar? (value.scalarTokens.flatMap Token.lexemes) = some value.scalarText := by
  cases value with
  | array => cases hscalar
  | integer value =>
    rw [scalarTokens, List.flatMap_singleton]
    exact Lexeme.scalar?_ofNumber _
  | decimal value =>
    rw [scalarTokens, List.flatMap_singleton]
    exact Lexeme.scalar?_ofNumber _
  | float value =>
    rw [scalarTokens, List.flatMap_cons]
    exact Lexeme.scalar?_ofNumber_cast _ _ _
  | date | time | timestamp | interval =>
    simp [scalarTokens, Token.lexemes, Lexeme.scalar?, scalarText]
  | _ => rfl

/-- All doubles in the literal are finite and every leap second in it ends a minute. -/
structure IsShown (value : Literal) : Prop where
  isFinite : value.IsFinite
  leapsAtEnd : ∀ node ∈ value.nodes, node.LeapsAtEnd

theorem IsShown.leapsAtEnd_of_isScalar {value : Literal} (hshown : value.IsShown)
    (hscalar : value.isScalar = true) : value.LeapsAtEnd := by
  refine hshown.leapsAtEnd value ?_
  rw [nodes_of_isScalar hscalar, List.mem_singleton]

theorem isShown_array {elements : List Literal} {elementType : ValueType} :
    (array elements elementType).IsShown ↔ ∀ element ∈ elements, element.IsShown := by
  constructor
  · rintro ⟨hfinite, hleaps⟩ element helement
    rw [isFinite_array] at hfinite
    rw [forall_mem_nodes_array] at hleaps
    exact ⟨hfinite element helement, hleaps.2 element helement⟩
  · intro hall
    refine ⟨isFinite_array.mpr fun element helement ↦ (hall element helement).isFinite, ?_⟩
    exact forall_mem_nodes_array.mpr ⟨trivial,
      fun element helement ↦ (hall element helement).leapsAtEnd⟩

theorem isFinite_float {number : Binary64} (hfinite : (Literal.float number).IsFinite) :
    number.isFinite = true :=
  hfinite number (by rw [nodes_of_isScalar rfl]; exact List.mem_singleton.mpr rfl)

theorem scalarTokens_of_typed {value : Literal} {heading content : List Char}
    (htyped : value.scalarText = .typed heading content) :
    value.scalarTokens = [.typed (String.ofList heading) (String.ofList content)] := by
  cases value with
  | date | time | timestamp | interval =>
    cases htyped
    rw [scalarTokens, String.ofList_toList]
  | _ => cases htyped

/-- The notation of a scalar determines its normal form. -/
theorem normalized_eq_of_scalarText {first second : Literal} (hfirst : first.isScalar = true)
    (hsecond : second.isScalar = true) (hshown : first.IsShown) (hother : second.IsShown)
    (heq : first.scalarText = second.scalarText) : first.normalized = second.normalized := by
  cases first with
  | array => cases hfirst
  | null =>
    cases second with
    | array => cases hsecond
    | null => rfl
    | boolean value => cases value <;> exact absurd heq (by decide)
    | _ => cases heq
  | boolean value =>
    cases second with
    | array => cases hsecond
    | null => cases value <;> exact absurd heq (by decide)
    | boolean other => cases value <;> cases other <;> first | rfl | exact absurd heq (by decide)
    | _ => cases heq
  | text value =>
    cases second with
    | array => cases hsecond
    | text other => rw [String.toList_inj.mp (ScalarText.quoted.inj heq)]
    | _ => cases heq
  | integer value =>
    cases second with
    | array => cases hsecond
    | integer other =>
      have hnumbers : Text.signedDecimal value.toInt ++ [] =
          Text.signedDecimal other.toInt ++ [] := by
        rw [ScalarText.number.inj heq]
      rw [Int64.toInt_inj.mp (signedDecimal_append_inj .nil .nil hnumbers).1]
    | decimal other => exact absurd (ScalarText.number.inj heq) (signedDecimal_ne_decimalText _ _)
    | _ => cases heq
  | float value =>
    cases second with
    | array => cases hsecond
    | float other =>
      rw [FloatLayout.write_injective (isFinite_float hshown.isFinite)
        (isFinite_float hother.isFinite) (String.toList_inj.mp (ScalarText.castNumber.inj heq))]
    | _ => cases heq
  | decimal value =>
    cases second with
    | array => cases hsecond
    | integer other =>
      exact absurd (ScalarText.number.inj heq).symm (signedDecimal_ne_decimalText _ _)
    | decimal other =>
      have htexts := String.toList_inj.mp (ScalarText.number.inj heq)
      rw [normalized, normalized, Dialect.decimalText_eq_iff.mp htexts]
    | _ => cases heq
  | binary bytes =>
    cases second with
    | array => cases hsecond
    | binary others =>
      have htexts := ScalarText.castQuoted.inj heq
      rw [hexBytes_injective (List.cons.inj (List.cons.inj htexts).2).2]
    | _ => cases heq
  | date | time | timestamp | interval =>
    have htokens := scalarTokens_of_typed heq.symm
    rw [scalarTokens_injective hfirst hsecond (hshown.leapsAtEnd_of_isScalar hfirst)
      (hother.leapsAtEnd_of_isScalar hsecond) ((scalarTokens_of_typed rfl).trans htokens.symm)]

end Literal

/-! ### Where a literal ends -/

/-- A comma or a closing bracket, which ends an element of an array. -/
def Lexeme.endsItem : Lexeme → Bool
  | .mark symbol => symbol == [','] || symbol == [']']
  | _ => false

/-- Nothing follows, or an element of an array ends. -/
def ItemEnds (rest : List Lexeme) : Prop :=
  ∀ lexeme ∈ rest.head?, lexeme.endsItem = true

theorem itemEnds_cons {lexeme : Lexeme} (hlexeme : lexeme.endsItem = true) (rest : List Lexeme) :
    ItemEnds (lexeme :: rest) := by
  intro first hfirst
  cases hfirst
  exact hlexeme

theorem ItemEnds.head?_ne {rest : List Lexeme} (hrest : ItemEnds rest) {lexeme : Lexeme}
    (hlexeme : lexeme.endsItem = false) : rest.head? ≠ some lexeme := by
  intro hhead
  rw [hrest lexeme hhead] at hlexeme
  cases hlexeme

/-- Lexemes up to the end of an item can be told from what follows. -/
theorem ItemEnds.append_injective {rest following : List Lexeme} (hrest : ItemEnds rest)
    (hfollowing : ItemEnds following) {first second : List Lexeme}
    (hfirst : ∀ lexeme ∈ first, lexeme.endsItem = false)
    (hsecond : ∀ lexeme ∈ second, lexeme.endsItem = false)
    (heq : first ++ rest = second ++ following) : first = second ∧ rest = following := by
  induction first generalizing second with
  | nil =>
    cases second with
    | nil => exact ⟨rfl, heq⟩
    | cons lexeme second =>
      rw [List.nil_append] at heq
      exact absurd (congrArg List.head? heq) (hrest.head?_ne (hsecond lexeme List.mem_cons_self))
  | cons lexeme first ih =>
    cases second with
    | nil =>
      rw [List.nil_append] at heq
      exact absurd (congrArg List.head? heq).symm
        (hfollowing.head?_ne (hfirst lexeme List.mem_cons_self))
    | cons other second =>
      rw [List.forall_mem_cons] at hfirst hsecond
      obtain ⟨hhead, htail⟩ := List.cons.inj heq
      obtain ⟨hitems, hrests⟩ := ih hfirst.2 hsecond.2 htail
      exact ⟨by rw [hhead, hitems], hrests⟩

/-! ### The lexemes of a literal -/

theorem flatMap_lexemes_commaSeparated (first : List Token) (rest : List (List Token)) :
    (Token.commaSeparated (first :: rest)).flatMap Token.lexemes =
      first.flatMap Token.lexemes ++
        rest.flatMap fun item ↦ .mark [','] :: item.flatMap Token.lexemes := by
  induction rest generalizing first with
  | nil => simp [Token.commaSeparated, Token.separatedBy]
  | cons next rest ih =>
    have hstep : Token.commaSeparated (first :: next :: rest) =
        first ++ [.comma, .space] ++ Token.commaSeparated (next :: rest) := rfl
    rw [hstep, List.flatMap_append, List.flatMap_append, ih, List.flatMap_cons]
    simp [Token.lexemes]

namespace Literal

/-- The lexemes of a literal. -/
def lexemes (value : Literal) : List Lexeme :=
  (value.form.tokens ⟨[], [], 0⟩).flatMap Token.lexemes

/-- The lexemes after the first element of an array: commas, further elements and a bracket. -/
def lexemesOfRest (elements : List Literal) : List Lexeme :=
  (elements.flatMap fun element ↦ .mark [','] :: element.lexemes) ++ [.mark [']']]

theorem lexemes_of_isScalar {value : Literal} (hscalar : value.isScalar = true) :
    value.lexemes = value.scalarTokens.flatMap Token.lexemes := by
  rw [lexemes, form_of_isScalar hscalar, Form.tokens]

theorem lexemes_array_nil (elementType : ValueType) :
    (array [] elementType).lexemes =
      .word "ARRAY".toList :: .mark ['['] :: .mark [']'] :: .mark [':', ':'] ::
        (ValueType.array elementType).lexemes := by
  change .word "ARRAY".toList :: .mark ['['] :: .mark [']'] :: .mark [':', ':'] ::
    ((ValueType.array elementType).lexemes ++ []) = _
  rw [List.append_nil]

theorem lexemes_array_cons (first : Literal) (rest : List Literal) (elementType : ValueType) :
    (array (first :: rest) elementType).lexemes =
      .word "ARRAY".toList :: .mark ['['] :: (first.lexemes ++ lexemesOfRest rest) := by
  rw [lexemes, form, formOfEach, Form.ofElements, Form.tokens, List.flatMap_cons, List.flatMap_cons,
    List.flatMap_append, flatMap_lexemes_commaSeparated, Form.tokensOfEach_eq_map,
    formOfEach_eq_map, lexemesOfRest, List.map_map, List.flatMap_map, List.append_assoc]
  rfl

/-- A scalar does not end an item before its own end. -/
theorem endsItem_of_mem_scalar {value : Literal} (hscalar : value.isScalar = true) :
    ∀ lexeme ∈ value.lexemes, lexeme.endsItem = false := by
  have hnumber (text : List Char) : ∀ lexeme ∈ Lexeme.ofNumber text, lexeme.endsItem = false := by
    rcases Lexeme.ofNumber_cases text with hplain | ⟨numeral, -, hsigned⟩
    · simp [hplain, Lexeme.endsItem]
    · simp [hsigned, Lexeme.endsItem]
  rw [lexemes_of_isScalar hscalar]
  cases value with
  | array => cases hscalar
  | integer | decimal =>
    rw [scalarTokens, List.flatMap_singleton]
    exact hnumber _
  | float =>
    rw [scalarTokens, List.flatMap_cons, List.forall_mem_append]
    exact ⟨hnumber _, by simp [Token.lexemes, ValueType.lexemes, Lexeme.endsItem]⟩
  | _ => simp [scalarTokens, Token.lexemes, ValueType.lexemes, Lexeme.endsItem]

/-- A scalar does not begin as an array does. -/
theorem exists_lexemes_scalar {value : Literal} (hscalar : value.isScalar = true) :
    ∃ first rest, value.lexemes = first :: rest ∧ first ≠ .word "ARRAY".toList := by
  have hnumber (text : List Char) (rest : List Lexeme) :
      ∃ first following, Lexeme.ofNumber text ++ rest = first :: following ∧
        first ≠ .word "ARRAY".toList := by
    rcases Lexeme.ofNumber_cases text with hplain | ⟨numeral, -, hsigned⟩
    · rw [hplain]
      exact ⟨_, _, rfl, by simp⟩
    · rw [hsigned]
      exact ⟨_, _, rfl, by simp⟩
  rw [lexemes_of_isScalar hscalar]
  cases value with
  | array => cases hscalar
  | integer | decimal | float =>
    rw [scalarTokens, List.flatMap_cons]
    exact hnumber _ _
  | boolean value => cases value <;> exact ⟨_, _, rfl, by decide⟩
  | text | binary => exact ⟨_, _, rfl, by simp⟩
  | _ => exact ⟨_, _, rfl, by decide⟩

theorem exists_lexemes_array (elements : List Literal) (elementType : ValueType) :
    ∃ rest, (array elements elementType).lexemes = .word "ARRAY".toList :: rest := by
  cases elements with
  | nil => exact ⟨_, lexemes_array_nil elementType⟩
  | cons first rest => exact ⟨_, lexemes_array_cons first rest elementType⟩

theorem lexemes_scalar_append_ne {value : Literal} (hscalar : value.isScalar = true)
    (elements : List Literal) (elementType : ValueType) (rest following : List Lexeme) :
    value.lexemes ++ rest ≠ (array elements elementType).lexemes ++ following := by
  obtain ⟨first, later, hvalue, hne⟩ := exists_lexemes_scalar hscalar
  obtain ⟨inside, harray⟩ := exists_lexemes_array elements elementType
  rw [hvalue, harray]
  exact fun heq ↦ hne (List.cons.inj heq).1

/-- No literal begins with the end of an item. -/
theorem lexemes_append_ne {value : Literal} {lexeme : Lexeme} (hlexeme : lexeme.endsItem = true)
    (rest following : List Lexeme) : value.lexemes ++ rest ≠ lexeme :: following := by
  have hbegins : ∃ first later, value.lexemes = first :: later ∧ first.endsItem = false := by
    induction value using Literal.induction with
    | scalar value hscalar =>
      obtain ⟨first, later, hvalue, -⟩ := exists_lexemes_scalar hscalar
      refine ⟨first, later, hvalue, endsItem_of_mem_scalar hscalar first ?_⟩
      rw [hvalue]
      exact List.mem_cons_self
    | array elements elementType =>
      obtain ⟨inside, harray⟩ := exists_lexemes_array elements elementType
      exact ⟨_, inside, harray, rfl⟩
  obtain ⟨first, later, hvalue, hfirst⟩ := hbegins
  rw [hvalue]
  intro heq
  rw [(List.cons.inj heq).1, hlexeme] at hfirst
  cases hfirst

theorem itemEnds_lexemesOfRest (elements : List Literal) (rest : List Lexeme) :
    ItemEnds (lexemesOfRest elements ++ rest) := by
  cases elements <;> exact itemEnds_cons rfl _

/-- In front of the end of an item, the lexemes of the literal are those of no other literal, up to
normal form. -/
def IsTold (value : Literal) : Prop :=
  ∀ (other : Literal) (rest following : List Lexeme), other.IsShown → ItemEnds rest →
    ItemEnds following → value.lexemes ++ rest = other.lexemes ++ following →
    value.normalized = other.normalized ∧ rest = following

theorem isTold_scalar {value : Literal} (hscalar : value.isScalar = true)
    (hshown : value.IsShown) : value.IsTold := by
  intro other rest following hother hrest hfollowing heq
  cases other using Literal.induction with
  | scalar other hscalarOther =>
    obtain ⟨hlexemes, hrests⟩ := hrest.append_injective hfollowing
      (endsItem_of_mem_scalar hscalar) (endsItem_of_mem_scalar hscalarOther) heq
    rw [lexemes_of_isScalar hscalar, lexemes_of_isScalar hscalarOther] at hlexemes
    have htexts := congrArg Lexeme.scalar? hlexemes
    rw [scalar?_lexemes hscalar, scalar?_lexemes hscalarOther] at htexts
    exact ⟨normalized_eq_of_scalarText hscalar hscalarOther hshown hother
      (Option.some.inj htexts), hrests⟩
  | array others otherType =>
    exact absurd heq (lexemes_scalar_append_ne hscalar others otherType rest following)

/-- The elements of an array after the first are told by their lexemes if each of them is. -/
theorem lexemesOfRest_append_injective {elements others : List Literal}
    {rest following : List Lexeme} (htold : ∀ element ∈ elements, element.IsTold)
    (hothers : ∀ other ∈ others, other.IsShown)
    (heq : lexemesOfRest elements ++ rest = lexemesOfRest others ++ following) :
    normalizedOfEach elements = normalizedOfEach others ∧ rest = following := by
  induction elements generalizing others with
  | nil =>
    cases others with
    | nil => exact ⟨rfl, (List.cons.inj heq).2⟩
    | cons other others => exact absurd (List.cons.inj heq).1 (by decide)
  | cons element elements ih =>
    cases others with
    | nil => exact absurd (List.cons.inj heq).1 (by decide)
    | cons other others =>
      rw [List.forall_mem_cons] at htold hothers
      have hsplit (value : Literal) (values : List Literal) (after : List Lexeme) :
          lexemesOfRest (value :: values) ++ after =
            .mark [','] :: (value.lexemes ++ (lexemesOfRest values ++ after)) := by
        simp [lexemesOfRest]
      rw [hsplit, hsplit] at heq
      obtain ⟨hfirst, hrests⟩ := htold.1 other _ _ hothers.1 (itemEnds_lexemesOfRest _ _)
        (itemEnds_lexemesOfRest _ _) (List.cons.inj heq).2
      obtain ⟨hlater, hfollowing⟩ := ih htold.2 hothers.2 hrests
      exact ⟨by rw [normalizedOfEach, normalizedOfEach, hfirst, hlater], hfollowing⟩

/-- An array of elements that are told by their lexemes is told by its own: after the opening
bracket, only an array without elements goes on with the closing one. -/
theorem isTold_array {elements : List Literal} (htold : ∀ element ∈ elements, element.IsTold)
    (elementType : ValueType) : (array elements elementType).IsTold := by
  intro other rest following hother hrest hfollowing heq
  cases other using Literal.induction with
  | scalar other hscalar =>
    exact absurd heq.symm (lexemes_scalar_append_ne hscalar elements elementType following rest)
  | array others otherType =>
    rw [isShown_array] at hother
    cases elements with
    | nil =>
      cases others with
      | nil =>
        rw [lexemes_array_nil, lexemes_array_nil] at heq
        simp only [List.cons_append, List.cons.injEq, true_and] at heq
        obtain ⟨htypes, hrests⟩ := ValueType.lexemes_append_injective (hrest.head?_ne rfl)
          (hfollowing.head?_ne rfl) heq
        exact ⟨by rw [ValueType.array.inj htypes], hrests⟩
      | cons first others =>
        rw [lexemes_array_nil, lexemes_array_cons] at heq
        simp only [List.cons_append, List.append_assoc, List.cons.injEq, true_and] at heq
        exact absurd heq.symm (lexemes_append_ne rfl _ _)
    | cons element elements =>
      cases others with
      | nil =>
        rw [lexemes_array_nil, lexemes_array_cons] at heq
        simp only [List.cons_append, List.append_assoc, List.cons.injEq, true_and] at heq
        exact absurd heq (lexemes_append_ne rfl _ _)
      | cons first others =>
        rw [lexemes_array_cons, lexemes_array_cons] at heq
        simp only [List.cons_append, List.append_assoc, List.cons.injEq, true_and] at heq
        rw [List.forall_mem_cons] at htold hother
        obtain ⟨hfirst, hrests⟩ := htold.1 first _ _ hother.1 (itemEnds_lexemesOfRest _ _)
          (itemEnds_lexemesOfRest _ _) heq
        obtain ⟨hlater, hends⟩ := lexemesOfRest_append_injective htold.2 hother.2 hrests
        refine ⟨?_, hends⟩
        rw [normalized, normalized, normalizedOfEach, normalizedOfEach, hfirst, hlater]
        rfl

/-- Every literal of which the text shows all but its normal form is told by its lexemes. -/
theorem isTold {value : Literal} (hshown : value.IsShown) : value.IsTold := by
  induction value using Literal.induction with
  | scalar value hscalar => exact isTold_scalar hscalar hshown
  | array elements elementType ih =>
    rw [isShown_array] at hshown
    exact isTold_array (fun element hmem ↦ ih element hmem (hshown element hmem)) elementType

end Literal

/-! ### Texts and normal forms -/

/-- A token with its decimal in normal form. -/
def Token.normalized : Token → Token
  | .decimal value => .decimal value.normalized
  | token => token

theorem Dialect.render_map_normalized (tokens : List Token) :
    postgres.render (tokens.map Token.normalized) = postgres.render tokens := by
  have hspell (token : Token) : postgres.spell token.normalized = postgres.spell token := by
    cases token with
    | decimal value =>
      refine decimalText_eq_iff.mpr (Decimal.normalized_eq_iff.mpr ⟨?_, ?_, ?_⟩)
      · exact value.negative_normalized
      · exact value.shown_normalized
      · exact value.places_normalized
    | _ => rfl
  rw [render, render, List.map_map]
  congr 1
  exact List.map_congr_left fun token _ ↦ hspell token

namespace Literal

theorem map_normalized_commaSeparated (items : List (List Token)) :
    (Token.commaSeparated items).map Token.normalized =
      Token.commaSeparated (items.map (List.map Token.normalized)) := by
  unfold Token.commaSeparated
  induction items with
  | nil => rfl
  | cons item rest ih =>
    cases rest with
    | nil => rfl
    | cons next rest =>
      rw [Token.separatedBy, List.map_append, List.map_append, ih]
      rfl

theorem normalizedOfEach_eq_map (values : List Literal) :
    normalizedOfEach values = values.map normalized := by
  induction values with
  | nil => rfl
  | cons value rest ih => rw [normalizedOfEach, ih, List.map_cons]

/-- The tokens of the normal form are those of the literal with its decimals in normal form. -/
theorem tokens_form_normalized (scope : Scope) (value : Literal) :
    value.normalized.form.tokens scope = (value.form.tokens scope).map Token.normalized := by
  induction value using Literal.induction with
  | scalar value hscalar => cases value <;> first | rfl | cases hscalar
  | array elements elementType ih =>
    have helements : Form.tokensOfEach scope (formOfEach (normalizedOfEach elements)) =
        (Form.tokensOfEach scope (formOfEach elements)).map (List.map Token.normalized) := by
      simp only [Form.tokensOfEach_eq_map, formOfEach_eq_map, normalizedOfEach_eq_map,
        List.map_map]
      exact List.map_congr_left ih
    rw [normalized, form, form, Form.tokens_ofElements, Form.tokens_ofElements, helements]
    cases elements with
    | nil => rfl
    | cons first rest =>
      simp only [arrayTokens, formOfEach, Form.tokensOfEach, List.map_cons, List.isEmpty_cons,
        Bool.false_eq_true, ↓reduceIte, List.map_append, map_normalized_commaSeparated]
      rfl

theorem lexemes_render {limit : Nat} {value : Literal} {tokens : List Token}
    (hok : value.tokens limit = .ok tokens) :
    SqlCompose.lexemes (Dialect.postgres.render tokens).toList = value.lexemes := by
  rw [(lexemes_render_iff (legible_tokens hok)).mpr (legible_tokens hok), lexemes,
    (tokens_eq_of_ok ⟨[], [], 0⟩ hok).1]

theorem render_eq_render_normalized {limit : Nat} {value : Literal} {tokens : List Token}
    (hok : value.tokens limit = .ok tokens) :
    Dialect.postgres.render tokens =
      Dialect.postgres.render (value.normalized.form.tokens ⟨[], [], 0⟩) := by
  rw [tokens_form_normalized, Dialect.render_map_normalized, (tokens_eq_of_ok ⟨[], [], 0⟩ hok).1]

/-- The text of a literal without leap seconds inside a minute determines its normal form. -/
theorem normalized_eq_of_render_eq {first second : Literal} {limit bound : Nat}
    {tokens others : List Token} (hfirst : first.tokens limit = .ok tokens)
    (hsecond : second.tokens bound = .ok others)
    (hfirstLeaps : ∀ node ∈ first.nodes, node.LeapsAtEnd)
    (hsecondLeaps : ∀ node ∈ second.nodes, node.LeapsAtEnd)
    (htexts : Dialect.postgres.render tokens = Dialect.postgres.render others) :
    first.normalized = second.normalized := by
  have hlexemes : first.lexemes ++ [] = second.lexemes ++ [] := by
    rw [← lexemes_render hfirst, ← lexemes_render hsecond, htexts]
  have hends : ItemEnds [] := by
    intro lexeme hlexeme
    cases hlexeme
  have hshown : first.IsShown := ⟨(tokens_eq_of_ok ⟨[], [], 0⟩ hfirst).2, hfirstLeaps⟩
  have hother : second.IsShown := ⟨(tokens_eq_of_ok ⟨[], [], 0⟩ hsecond).2, hsecondLeaps⟩
  exact (isTold hshown second [] [] hother hends hends hlexemes).1

/-- Two literals that can be written have the same text exactly when, as they are written, they are
the same up to the type of the elements of arrays that have any and to the scale, zero or one, of
decimals without fraction. If every leap second in them ends a minute, as it does in times that were
put together from parts or read from texts, then the literals themselves are the same up to this. -/
theorem render_eq_iff {first second : Literal} {limit bound : Nat} {tokens others : List Token}
    (hfirst : first.tokens limit = .ok tokens) (hsecond : second.tokens bound = .ok others) :
    (Dialect.postgres.render tokens = Dialect.postgres.render others ↔
        first.asWritten.normalized = second.asWritten.normalized) ∧
      ((∀ node ∈ first.nodes, node.LeapsAtEnd) → (∀ node ∈ second.nodes, node.LeapsAtEnd) →
        (Dialect.postgres.render tokens = Dialect.postgres.render others ↔
          first.normalized = second.normalized)) := by
  rw [← tokens_asWritten] at hfirst hsecond
  have hshown : Dialect.postgres.render tokens = Dialect.postgres.render others ↔
      first.asWritten.normalized = second.asWritten.normalized := by
    constructor
    · exact normalized_eq_of_render_eq hfirst hsecond first.leapsAtEnd_of_mem_asWritten
        second.leapsAtEnd_of_mem_asWritten
    · intro hnormal
      rw [render_eq_render_normalized hfirst, render_eq_render_normalized hsecond, hnormal]
  refine ⟨hshown, fun hfirstLeaps hsecondLeaps ↦ ?_⟩
  rwa [first.asWritten_eq_self_iff.mpr hfirstLeaps,
    second.asWritten_eq_self_iff.mpr hsecondLeaps] at hshown

/-- Arrays of `3.0` and negative zero are written alike with scale one and with scale zero, a text
of hexadecimal digits is not written as the bytes that it spells, and the leap second at the end of
a minute is not written as the first second of the next one. -/
theorem render_eq_iff_arrays :
    (∃ tokens others,
      (array [decimal ⟨false, 30, 1, by decide, by decide⟩, float ⟨0x8000000000000000⟩]
        .decimal).tokens 2 = .ok tokens ∧
      (array [decimal ⟨false, 3, 0, by decide, by decide⟩, float ⟨0x8000000000000000⟩]
        .float).tokens 3 = .ok others ∧
      Dialect.postgres.render tokens = Dialect.postgres.render others) ∧
    (∃ tokens others, (text "\\x00").tokens 1 = .ok tokens ∧
      (binary [0]).tokens 1 = .ok others ∧
      Dialect.postgres.render tokens ≠ Dialect.postgres.render others) ∧
    ∃ tokens others,
      (time ⟨23, 56, 59, 1000000000, by decide, by decide, by decide, by decide⟩).tokens 1 =
        .ok tokens ∧
      (time ⟨23, 57, 0, 0, by decide, by decide, by decide, by decide⟩).tokens 1 = .ok others ∧
      Dialect.postgres.render tokens ≠ Dialect.postgres.render others := by
  have hscaled : ∃ tokens, (array [decimal ⟨false, 30, 1, by decide, by decide⟩,
      float ⟨0x8000000000000000⟩] .decimal).tokens 2 = .ok tokens := ⟨_, rfl⟩
  have hplain : ∃ tokens, (array [decimal ⟨false, 3, 0, by decide, by decide⟩,
      float ⟨0x8000000000000000⟩] .float).tokens 3 = .ok tokens := ⟨_, rfl⟩
  have htext : (text "\\x00").tokens 1 = .ok [.text "\\x00"] := rfl
  have hbytes : (binary [0]).tokens 1 = .ok [.bytes [0], .cast, .typeName .binary] := rfl
  have hleap : ∃ tokens, (time ⟨23, 56, 59, 1000000000, by decide, by decide, by decide,
      by decide⟩).tokens 1 = .ok tokens := ⟨_, rfl⟩
  have hnext : ∃ tokens, (time ⟨23, 57, 0, 0, by decide, by decide, by decide,
      by decide⟩).tokens 1 = .ok tokens := ⟨_, rfl⟩
  obtain ⟨tokens, htokens⟩ := hscaled
  obtain ⟨others, hothers⟩ := hplain
  obtain ⟨leap, hleap⟩ := hleap
  obtain ⟨next, hnext⟩ := hnext
  refine ⟨⟨tokens, others, htokens, hothers, (render_eq_iff htokens hothers).1.mpr rfl⟩,
    ⟨_, _, htext, hbytes, fun htexts ↦ ?_⟩, leap, next, hleap, hnext, fun htexts ↦ ?_⟩
  · cases (render_eq_iff htext hbytes).1.mp htexts
  · have htold := (render_eq_iff hleap hnext).2 (by simp [nodes, LeapsAtEnd, TimeOfDay.LeapsAtEnd])
      (by simp [nodes, LeapsAtEnd, TimeOfDay.LeapsAtEnd, nanosecondsPerSecond])
    cases htold.mp htexts

end Literal

end SqlCompose
