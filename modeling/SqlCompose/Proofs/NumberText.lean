import SqlCompose.Literal.Tokens
import SqlCompose.Proofs.RoundingInterval
import SqlCompose.Proofs.Spelling

/-!
Numbers can be told from their texts. `numeralValue` is the rational number that a numeral denotes,
whether it is written out in full or with an exponent. The numeral of a finite double denotes a
number that rounds to its rank, and the sign is written in front, so two finite doubles with one
text are the same, also when both are zero (`FloatLayout.write_injective`).

A decimal shows its sign and as many digits after the point as its scale says, but at least one.
Hence its text determines it except that an integer may have been given with scale zero or one
(`Dialect.decimalText_eq_iff`), and no amount is changed: the text denotes exactly the number that
the decimal stands for (`Literal.render_decimal`).
-/

set_option autoImplicit false
set_option relaxedAutoImplicit false

namespace SqlCompose

/-! ### The value of a numeral -/

/-- The digits after a point at the front of a text, and what follows them. -/
def splitFraction : List Char → List Char × List Char
  | '.' :: rest => Text.spanDigits rest
  | rest => ([], rest)

/-- The exponent that an `e` at the front of a text introduces. -/
def exponentValue : List Char → Int
  | 'e' :: '-' :: digits => -(Text.decimalValue digits : Int)
  | 'e' :: digits => Text.decimalValue digits
  | _ => 0

/-- The number that a numeral denotes. -/
def numeralValue (text : List Char) : ℚ :=
  let (whole, rest) := Text.spanDigits text
  let (fraction, exponent) := splitFraction rest
  Text.decimalValue (whole ++ fraction) * 10 ^ (exponentValue exponent - fraction.length)

theorem exponentValue_signedDecimal (exponent : Int) :
    exponentValue ('e' :: Text.signedDecimal exponent) = exponent := by
  unfold Text.signedDecimal
  split_ifs with hnegative
  · rw [exponentValue, decimalValue_decimal]
    omega
  · obtain ⟨digit, rest, hdecimal, hdigit⟩ := (isDigits_decimal exponent.natAbs).exists_cons
    have hminus : digit ≠ '-' := ne_of_isDigit hdigit (by decide)
    rw [exponentValue, decimalValue_decimal]
    · omega
    · simp [hdecimal, hminus]

/-- A numeral without point. -/
theorem numeralValue_append {whole exponent : List Char} (hwhole : IsDigits whole)
    (hexponent : Stops Char.isDigit exponent) (hpoint : Stops (· == '.') exponent) :
    numeralValue (whole ++ exponent) =
      Text.decimalValue whole * 10 ^ exponentValue exponent := by
  have hsplit : splitFraction exponent = ([], exponent) := by
    unfold splitFraction
    split
    · exact absurd (hpoint '.' rfl) (by decide)
    · rfl
  simp only [numeralValue, hexponent.spanDigits_append hwhole.2, hsplit, List.append_nil,
    List.length_nil, Nat.cast_zero, sub_zero]

/-- A numeral with point. -/
theorem numeralValue_pointed_append {whole fraction exponent : List Char}
    (hwhole : IsDigits whole) (hfraction : IsDigits fraction)
    (hexponent : Stops Char.isDigit exponent) :
    numeralValue (whole ++ '.' :: (fraction ++ exponent)) =
      Text.decimalValue (whole ++ fraction) * 10 ^ (exponentValue exponent - fraction.length) := by
  have hpoint : Stops Char.isDigit ('.' :: (fraction ++ exponent)) := .cons rfl _
  simp only [numeralValue, hpoint.spanDigits_append hwhole.2, splitFraction,
    hexponent.spanDigits_append hfraction.2]

theorem numeralValue_pointed {whole fraction : List Char} (hwhole : IsDigits whole)
    (hfraction : IsDigits fraction) :
    numeralValue (whole ++ '.' :: fraction) =
      Text.decimalValue (whole ++ fraction) * 10 ^ (-(fraction.length : Int)) := by
  have hvalue := numeralValue_pointed_append hwhole hfraction .nil
  rw [List.append_nil] at hvalue
  rw [hvalue]
  congr 2
  exact zero_sub _

/-- Sign and numeral can be told apart. -/
theorem signed_injective {negative other : Bool} {numeral second : List Char}
    (hnumeral : IsNumeral numeral) (hsecond : IsNumeral second)
    (heq : (if negative then '-' :: numeral else numeral) =
      if other then '-' :: second else second) : negative = other ∧ numeral = second := by
  have hdigit {text rest : List Char} (htext : IsNumeral text) : text ≠ '-' :: rest := by
    obtain ⟨c, tail, rfl, hc⟩ := Lexeme.IsNumeral.exists_digit_cons htext
    rintro ⟨rfl, rfl⟩
    exact absurd hc (by decide)
  cases negative with
  | true =>
    cases other with
    | true => exact ⟨rfl, (List.cons.inj heq).2⟩
    | false => exact absurd heq.symm (hdigit hsecond)
  | false =>
    cases other with
    | true => exact absurd heq (hdigit hnumeral)
    | false => exact ⟨rfl, heq⟩

/-! ### Doubles -/

namespace FloatLayout

/-- The point stands before all digits. -/
theorem positional_of_nonpos {digits : List Char} (hdigits : digits ≠ []) {position : Int}
    (hposition : position ≤ 0) :
    statement.positional digits position =
      ['0'] ++ '.' :: (List.replicate (-position).toNat '0' ++ digits) := by
  have hzero : position.toNat = 0 := by omega
  unfold positional
  simp only
  rw [hzero, List.take_zero, List.drop_zero, if_pos List.isEmpty_nil, if_neg (by simp [hdigits])]

/-- The point stands between digits. -/
theorem positional_of_lt {digits : List Char} {position : Int} (hpos : 0 < position)
    (hlt : position < digits.length) :
    statement.positional digits position =
      digits.take position.toNat ++ '.' :: digits.drop position.toNat := by
  have hwhole : (digits.take position.toNat).isEmpty = false := by
    rw [List.isEmpty_eq_false_iff, ← List.length_pos_iff, List.length_take]
    omega
  have hdecimals : (digits.drop position.toNat).isEmpty = false := by
    rw [List.isEmpty_eq_false_iff, ← List.length_pos_iff, List.length_drop]
    omega
  have hfill : position.toNat - digits.length = 0 := by omega
  have hshift : (-position).toNat = 0 := by omega
  simp only [positional, hfill, hshift, List.replicate_zero, List.append_nil, List.nil_append,
    hwhole, hdecimals, Bool.false_eq_true, ↓reduceIte]

/-- The point stands after all digits. -/
theorem positional_of_length_le {digits : List Char} (hdigits : digits ≠ []) {position : Int}
    (hle : digits.length ≤ position) :
    statement.positional digits position =
      (digits ++ List.replicate (position.toNat - digits.length) '0') ++ ['.', '0'] := by
  have hnonempty : digits.isEmpty = false := List.isEmpty_eq_false_iff.mpr hdigits
  have hwhole : digits.take position.toNat = digits := List.take_of_length_le (by omega)
  have hdecimals : digits.drop position.toNat = [] := List.drop_eq_nil_iff.mpr (by omega)
  have hshift : (-position).toNat = 0 := by omega
  have hkept : statement.keepsPoint = true := rfl
  simp only [positional, hwhole, hdecimals, hshift, hnonempty, hkept, List.replicate_zero,
    List.append_nil, List.isEmpty_nil, Bool.false_eq_true, ↓reduceIte]

/-- A number that is written out in full. -/
theorem numeralValue_positional {digits : List Char} (hdigits : IsDigits digits) (position : Int) :
    numeralValue (statement.positional digits position) =
      Text.decimalValue digits * 10 ^ (position - digits.length) := by
  have hzeros (count : Nat) : ∀ c ∈ List.replicate count '0', c.isDigit = true :=
    fun _ hc ↦ isDigit_of_mem_replicate hc
  rcases le_or_gt position 0 with hnonpos | hpos
  · have hdecimals : IsDigits (List.replicate (-position).toNat '0' ++ digits) := by
      refine ⟨by simp [hdigits.1], fun c hc ↦ ?_⟩
      rcases List.mem_append.mp hc with hfill | hdigit
      · exact hzeros _ c hfill
      · exact hdigits.2 c hdigit
    have hfill : ['0'] ++ (List.replicate (-position).toNat '0' ++ digits) =
        List.replicate ((-position).toNat + 1) '0' ++ digits := rfl
    rw [positional_of_nonpos hdigits.1 hnonpos, numeralValue_pointed .zero hdecimals, hfill,
      decimalValue_append, decimalValue_replicate_zero, Nat.zero_mul, Nat.zero_add,
      List.length_append, List.length_replicate]
    congr 2
    omega
  · rcases lt_or_ge position digits.length with hlt | hle
    · rw [positional_of_lt hpos hlt,
        numeralValue_pointed (hdigits.take (by omega)) (hdigits.drop (by omega)),
        List.take_append_drop, List.length_drop]
      congr 2
      omega
    · rw [positional_of_length_le hdigits.1 hle,
        numeralValue_pointed (hdigits.append (hzeros _)) .zero, decimalValue_append,
        decimalValue_append, decimalValue_replicate_zero]
      have hvalue : Text.decimalValue ['0'] = 0 := rfl
      have hexponent : position - digits.length = (position.toNat - digits.length : Nat) := by omega
      rw [hvalue, hexponent, zpow_natCast, List.length_replicate, List.length_singleton,
        Nat.add_zero, Nat.add_zero, Nat.cast_mul, Nat.cast_mul, cast_tenTo, cast_tenTo,
        Nat.cast_one, zpow_neg_one, pow_one, mul_inv_cancel_right₀ (by norm_num)]

/-- A number that is written with an exponent. -/
theorem numeralValue_scientific {digits : List Char} (hdigits : IsDigits digits) (position : Int) :
    numeralValue (statement.scientific digits position) =
      Text.decimalValue digits * 10 ^ (position - digits.length) := by
  have hlength : 0 < digits.length := List.length_pos_of_ne_nil hdigits.1
  have hmarked : (if position - 1 < 0 then Text.signedDecimal (position - 1)
      else statement.positiveExponent ++ Text.decimal (position - 1).toNat) =
      Text.signedDecimal (position - 1) := by
    split_ifs with hnegative
    · rfl
    · have hmagnitude : (position - 1).toNat = (position - 1).natAbs := by omega
      rw [Text.signedDecimal, if_neg hnegative, hmagnitude]
      rfl
  have hstops (inClass : Char → Bool) (hmark : inClass 'e' = false) :
      Stops inClass ('e' :: Text.signedDecimal (position - 1)) := .cons hmark _
  unfold scientific
  simp only
  rw [hmarked]
  split_ifs with hshort
  · rw [numeralValue_append hdigits (hstops _ rfl) (hstops _ rfl), exponentValue_signedDecimal]
    congr 2
    omega
  · rw [List.append_assoc, List.cons_append,
      numeralValue_pointed_append (hdigits.take (by omega)) (hdigits.drop (by omega))
        (hstops _ rfl), List.take_append_drop, exponentValue_signedDecimal, List.length_drop]
    congr 2
    omega

/-- The numeral of a double denotes a number that rounds to it. -/
theorem roundsTo_magnitude (x : Binary64) :
    Binary64.RoundsTo (numeralValue (statement.magnitude x)) x.rank := by
  unfold magnitude
  by_cases hzero : x.significand = 0
  · rw [if_pos hzero]
    rw [Binary64.significand_eq] at hzero
    have hvalue : Text.decimalValue ['0'] = 0 := rfl
    rw [numeralValue_positional .zero, hvalue, Nat.cast_zero, zero_mul, Binary64.RoundsTo,
      if_pos (by rw [hzero]), Binary64.lowerEnd, Binary64.upperEnd, hzero]
    constructor
    · refine mul_nonpos_of_nonpos_of_nonneg ?_ (by positivity)
      simp
    · positivity
  · have hrounds := Binary64.roundsTo_shortestDigits statement.tie (Nat.pos_of_ne_zero hzero)
    simp only [if_neg hzero]
    generalize x.shortestDigits statement.tie = shortest at hrounds ⊢
    have hdigits := isDigits_decimal shortest.coefficient
    split
    · rw [numeralValue_positional hdigits, decimalValue_decimal, add_sub_cancel_left]
      exact hrounds
    · rw [numeralValue_scientific hdigits, decimalValue_decimal, add_sub_cancel_left]
      exact hrounds

/-- A finite double can be told from its text. -/
theorem write_injective {x y : Binary64} (hx : x.isFinite = true) (hy : y.isFinite = true)
    (heq : statement.write x = statement.write y) : x = y := by
  have htexts := congrArg String.toList heq
  rw [toList_write hx, toList_write hy] at htexts
  obtain ⟨hsign, hmagnitude⟩ :=
    signed_injective (isNumeral_magnitude x) (isNumeral_magnitude y) htexts
  have hrank : x.rank = y.rank := by
    refine (roundsTo_magnitude x).rank_eq ?_
    rw [hmagnitude]
    exact roundsTo_magnitude y
  exact Binary64.eq_of_rank_eq hsign hrank

end FloatLayout

/-! ### Decimals -/

/-- A sign, digits with a point before the last `places` of them, and at least one digit before
the point. -/
def pointedText (negative : Bool) (mantissa places : Nat) : List Char :=
  let digits := Text.padded (places + 1) mantissa
  let whole := digits.length - places
  let unsigned := digits.take whole ++ '.' :: digits.drop whole
  if negative then '-' :: unsigned else unsigned

theorem exists_pointedText (negative : Bool) (mantissa : Nat) {places : Nat}
    (hplaces : 0 < places) :
    ∃ whole fraction, IsDigits whole ∧ IsDigits fraction ∧ fraction.length = places ∧
      Text.decimalValue (whole ++ fraction) = mantissa ∧
      pointedText negative mantissa places =
        if negative then '-' :: (whole ++ '.' :: fraction) else whole ++ '.' :: fraction := by
  have hlength := length_padded_ge (places + 1) mantissa
  have hdigits := isDigits_padded (places + 1) mantissa
  have hvalue := decimalValue_padded (places + 1) mantissa
  unfold pointedText
  generalize Text.padded (places + 1) mantissa = digits at hlength hdigits hvalue
  refine ⟨digits.take (digits.length - places), digits.drop (digits.length - places),
    hdigits.take (by omega), hdigits.drop (by omega), ?_, ?_, rfl⟩
  · rw [List.length_drop]
    omega
  · rwa [List.take_append_drop]

theorem pointedText_injective {negative other : Bool} {mantissa second places width : Nat}
    (hplaces : 0 < places) (hwidth : 0 < width)
    (heq : pointedText negative mantissa places = pointedText other second width) :
    negative = other ∧ mantissa = second ∧ places = width := by
  obtain ⟨whole, fraction, hwhole, hfraction, rfl, rfl, htext⟩ :=
    exists_pointedText negative mantissa hplaces
  obtain ⟨whole', fraction', hwhole', hfraction', rfl, rfl, htext'⟩ :=
    exists_pointedText other second hwidth
  rw [htext, htext'] at heq
  obtain ⟨hsign, hnumerals⟩ := signed_injective (hwhole.isNumeral_pointed hfraction)
    (hwhole'.isNumeral_pointed hfraction') heq
  have hpoint (rest : List Char) : Stops Char.isDigit ('.' :: rest) := .cons rfl rest
  have hspans := congrArg Text.spanDigits hnumerals
  rw [(hpoint _).spanDigits_append hwhole.2, (hpoint _).spanDigits_append hwhole'.2,
    Prod.mk.injEq] at hspans
  obtain ⟨hwholes, hrests⟩ := hspans
  rw [hwholes, (List.cons.inj hrests).2]
  exact ⟨hsign, rfl, rfl⟩

namespace Decimal

/-- How many digits are shown after the point. -/
def places (value : Decimal) : Nat :=
  max 1 value.scale

theorem places_pos (value : Decimal) : 0 < value.places :=
  Nat.lt_of_lt_of_le Nat.one_pos (Nat.le_max_left _ _)

/-- All digits that are shown, as one number. -/
def shown (value : Decimal) : Nat :=
  value.mantissa * tenTo (1 - value.scale)

/-- An integer with scale one is the same integer with scale zero. -/
def normalized (value : Decimal) : Decimal :=
  if value.scale = 1 ∧ value.mantissa % 10 = 0 then
    { value with
      mantissa := value.mantissa / 10
      scale := 0
      mantissa_lt := Nat.lt_of_le_of_lt (Nat.div_le_self _ _) value.mantissa_lt
      scale_le := by decide }
  else value

theorem shown_normalized (value : Decimal) : value.normalized.shown = value.shown := by
  unfold normalized
  split_ifs with hinteger
  · have hone : tenTo 1 = 10 := rfl
    have hzero : tenTo 0 = 1 := rfl
    simp only [shown, hinteger.1, Nat.sub_self, Nat.sub_zero, hone, hzero]
    omega
  · rfl

theorem places_normalized (value : Decimal) : value.normalized.places = value.places := by
  unfold normalized
  split_ifs with hinteger
  · rw [places, places, hinteger.1]
    rfl
  · rfl

theorem negative_normalized (value : Decimal) : value.normalized.negative = value.negative := by
  unfold normalized
  split <;> rfl

theorem eq_of_parts {value other : Decimal} (hnegative : value.negative = other.negative)
    (hmantissa : value.mantissa = other.mantissa) (hscale : value.scale = other.scale) :
    value = other := by
  cases value
  cases other
  cases hnegative
  cases hmantissa
  cases hscale
  rfl

/-- An integer with scale zero is the normal form of that integer with scale one. -/
theorem normalized_eq_of_scale {value other : Decimal}
    (hnegative : value.negative = other.negative) (hscale : value.scale = 0)
    (hother : other.scale = 1) (hmantissa : value.mantissa * 10 = other.mantissa) :
    value.normalized = other.normalized := by
  unfold normalized
  rw [if_neg (by omega), if_pos ⟨hother, by omega⟩]
  refine eq_of_parts hnegative ?_ hscale
  change value.mantissa = other.mantissa / 10
  omega

/-- Decimals have the same normal form if they show the same digits with the same sign. -/
theorem normalized_eq_iff {value other : Decimal} :
    value.normalized = other.normalized ↔
      value.negative = other.negative ∧ value.shown = other.shown ∧
        value.places = other.places := by
  constructor
  · intro heq
    rw [← negative_normalized value, ← shown_normalized value, ← places_normalized value, heq,
      negative_normalized, shown_normalized, places_normalized]
    exact ⟨rfl, rfl, rfl⟩
  · rintro ⟨hnegative, hshown, hplaces⟩
    have hone : tenTo 1 = 10 := rfl
    have hzero : tenTo 0 = 1 := rfl
    unfold shown at hshown
    unfold places at hplaces
    by_cases hscale : value.scale = other.scale
    · rw [hscale] at hshown
      have hpos : 0 < tenTo (1 - other.scale) := Nat.pow_pos (by decide)
      rw [eq_of_parts hnegative (Nat.eq_of_mul_eq_mul_right hpos hshown) hscale]
    · rcases Nat.eq_zero_or_pos value.scale with hvalue | hvalue
      · have hother : other.scale = 1 := by omega
        rw [hvalue, hother, hone, hzero, Nat.mul_one] at hshown
        exact normalized_eq_of_scale hnegative hvalue hother hshown
      · have hother : other.scale = 0 := by omega
        have hvalueOne : value.scale = 1 := by omega
        rw [hvalueOne, hother, hone, hzero, Nat.mul_one] at hshown
        exact (normalized_eq_of_scale hnegative.symm hother hvalueOne hshown.symm).symm

end Decimal

namespace Dialect

theorem padded_mul_ten (number : Nat) :
    Text.padded 2 (number * 10) = Text.padded 1 number ++ ['0'] := by
  rcases Nat.eq_zero_or_pos number with rfl | hpos
  · rfl
  · have hdigits : Text.decimal (number * 10) = Text.decimal number ++ ['0'] := by
      have happend := Nat.toDigits_append_toDigits (by decide : 1 < 10) hpos (by decide : 0 < 10)
      rw [Nat.add_zero, Nat.mul_comm, Nat.toDigits_zero] at happend
      exact happend.symm
    have hcount : 0 < (Text.decimal number).length :=
      List.length_pos_of_ne_nil (isDigits_decimal number).1
    have hfill : 2 - ((Text.decimal number).length + 1) = 0 := by omega
    have hfill' : 1 - (Text.decimal number).length = 0 := by omega
    rw [Text.padded, Text.padded, Text.digitCount, Text.digitCount, hdigits, List.length_append,
      List.length_singleton, hfill, hfill']
    rfl

theorem toList_decimalText (value : Decimal) :
    (decimalText value).toList = pointedText value.negative value.shown value.places := by
  rw [decimalText_eq]
  unfold Decimal.text pointedText Decimal.shown Decimal.places
  by_cases hscale : value.scale = 0
  · have hdigits : Text.padded (max 1 0 + 1) (value.mantissa * tenTo (1 - 0)) =
        Text.padded 1 value.mantissa ++ ['0'] := padded_mul_ten value.mantissa
    rw [hscale, hdigits]
    cases value.negative <;> simp
  · have hplaces : max 1 value.scale = value.scale := by omega
    have hshown : value.mantissa * tenTo (1 - value.scale) = value.mantissa := by
      rw [show 1 - value.scale = 0 by omega]
      exact Nat.mul_one _
    rw [hplaces, hshown]
    simp only [hscale, ↓reduceIte, String.toList_ofList]

/-- The text of a decimal determines its normal form, and conversely. -/
theorem decimalText_eq_iff {value other : Decimal} :
    decimalText value = decimalText other ↔ value.normalized = other.normalized := by
  rw [← String.toList_inj, toList_decimalText, toList_decimalText, Decimal.normalized_eq_iff]
  constructor
  · exact pointedText_injective value.places_pos other.places_pos
  · rintro ⟨hsign, hshown, hwidth⟩
    rw [hsign, hshown, hwidth]

end Dialect

/-! ### Exactness of decimals -/

/-- The number that a numeral denotes, with or without a minus sign in front. -/
def signedNumeralValue : List Char → ℚ
  | '-' :: numeral => -numeralValue numeral
  | numeral => numeralValue numeral

theorem signedNumeralValue_of_isNumeral {numeral : List Char} (hnumeral : IsNumeral numeral) :
    signedNumeralValue numeral = numeralValue numeral := by
  obtain ⟨c, rest, rfl, hc⟩ := Lexeme.IsNumeral.exists_digit_cons hnumeral
  have hminus : c ≠ '-' := ne_of_isDigit hc (by decide)
  simp [signedNumeralValue, hminus]

namespace Decimal

/-- The number that a decimal stands for. -/
def rational (value : Decimal) : ℚ :=
  (if value.negative then -1 else 1) * (value.mantissa / 10 ^ value.scale)

/-- The digits that are shown, with the point before as many of them as are shown behind it. -/
theorem shown_mul_zpow (value : Decimal) :
    (value.shown : ℚ) * 10 ^ (-(value.places : Int)) = value.mantissa / 10 ^ value.scale := by
  rw [shown, places, zpow_neg, zpow_natCast, ← div_eq_mul_inv, Nat.cast_mul, cast_tenTo]
  rcases Nat.eq_zero_or_pos value.scale with hscale | hscale
  · rw [hscale]
    norm_num
  · have hfill : 1 - value.scale = 0 := by omega
    have hplaces : max 1 value.scale = value.scale := by omega
    rw [hfill, hplaces, pow_zero, mul_one]

end Decimal

/-- A decimal is written, wherever it stands, as an optional minus sign, digits, a point and as many
digits as its scale says, but at least one; the text denotes exactly the number that the decimal
stands for. -/
theorem Literal.render_decimal (dialect : Dialect) (limit depth : Nat) (value : Decimal) :
    ∃ tokens whole fraction,
      (Literal.decimal value).tokensAt limit depth = .ok tokens ∧
      (dialect.render tokens).toList =
        (if value.negative then ['-'] else []) ++ whole ++ '.' :: fraction ∧
      IsDigits whole ∧ IsDigits fraction ∧ fraction.length = max value.scale 1 ∧
      signedNumeralValue (dialect.render tokens).toList = value.rational := by
  obtain ⟨whole, fraction, hwhole, hfraction, hlength, hvalue, htext⟩ :=
    exists_pointedText value.negative value.shown value.places_pos
  have hrender : (dialect.render [.decimal value]).toList =
      if value.negative then '-' :: (whole ++ '.' :: fraction) else whole ++ '.' :: fraction := by
    rw [← htext, ← Dialect.toList_decimalText]
    simp [Dialect.render, Dialect.spell]
  have hnumeral : numeralValue (whole ++ '.' :: fraction) =
      value.mantissa / 10 ^ value.scale := by
    rw [numeralValue_pointed hwhole hfraction, hvalue, hlength, value.shown_mul_zpow]
  refine ⟨[.decimal value], whole, fraction, rfl, ?_, hwhole, hfraction, ?_, ?_⟩
  · rw [hrender]
    cases value.negative <;> simp
  · rw [hlength, Decimal.places, Nat.max_comm]
  · rw [hrender, Decimal.rational]
    cases value.negative with
    | true => simp [signedNumeralValue, hnumeral]
    | false =>
      have hplain := signedNumeralValue_of_isNumeral (hwhole.isNumeral_pointed hfraction)
      simp [hplain, hnumeral]

/-- A mantissa with fewer digits than the scale is filled up, and a number without fraction gets
one. -/
example :
    Dialect.decimalText ⟨true, 1, 3, by decide, by decide⟩ = "-0.001" ∧
      Dialect.decimalText ⟨false, 3, 0, by decide, by decide⟩ = "3.0" := by
  decide +kernel

end SqlCompose
