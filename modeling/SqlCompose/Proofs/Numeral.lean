import SqlCompose.Dialect
import Mathlib.Tactic.SplitIfs

/-!
The shape of written numbers. Integers, decimals and finite doubles are all written as an optional
minus sign and a numeral: digits, possibly a point and more digits, possibly an exponent. The sign
is there exactly for the numbers that count as negative, and both zeros of the doubles and negative
zero decimals keep it. Digits denote the number they were written for, padded or not, and end where
something else begins.
-/

set_option autoImplicit false
set_option relaxedAutoImplicit false

namespace SqlCompose

/-! ### Where a run of characters ends -/

/-- The text is empty or begins with a character outside the class. -/
def Stops (inClass : Char → Bool) (rest : List Char) : Prop :=
  ∀ c ∈ rest.head?, inClass c = false

theorem Stops.nil {inClass : Char → Bool} : Stops inClass [] := by
  intro c hc
  cases hc

theorem Stops.cons {inClass : Char → Bool} {c : Char} (hc : inClass c = false)
    (rest : List Char) : Stops inClass (c :: rest) := by
  intro first hfirst
  cases hfirst
  exact hc

theorem Stops.takeWhile_append {inClass : Char → Bool} {rest : List Char}
    (hrest : Stops inClass rest) {run : List Char} (hrun : ∀ c ∈ run, inClass c = true) :
    (run ++ rest).takeWhile inClass = run := by
  rw [List.takeWhile_append_of_pos hrun]
  cases rest with
  | nil => simp
  | cons c rest => rw [List.takeWhile_cons_of_neg (by simp [hrest c rfl]), List.append_nil]

theorem Stops.dropWhile_append {inClass : Char → Bool} {rest : List Char}
    (hrest : Stops inClass rest) {run : List Char} (hrun : ∀ c ∈ run, inClass c = true) :
    (run ++ rest).dropWhile inClass = rest := by
  rw [List.dropWhile_append_of_pos hrun]
  cases rest with
  | nil => rfl
  | cons c rest => rw [List.dropWhile_cons_of_neg (by simp [hrest c rfl])]

theorem Stops.spanDigits_append {rest : List Char} (hrest : Stops Char.isDigit rest)
    {digits : List Char} (hdigits : ∀ c ∈ digits, c.isDigit = true) :
    Text.spanDigits (digits ++ rest) = (digits, rest) := by
  rw [Text.spanDigits, hrest.takeWhile_append hdigits, hrest.dropWhile_append hdigits]

theorem Stops.mono {inClass other : Char → Bool} {rest : List Char} (hrest : Stops inClass rest)
    (himp : ∀ c, other c = true → inClass c = true) : Stops other rest := by
  intro c hc
  have hoff := hrest c hc
  cases hother : other c with
  | false => rfl
  | true => rw [himp c hother] at hoff; cases hoff

/-! ### Digits -/

/-- A run of at least one digit. -/
def IsDigits (text : List Char) : Prop :=
  text ≠ [] ∧ ∀ c ∈ text, c.isDigit = true

namespace IsDigits

theorem append {first second : List Char} (hfirst : IsDigits first)
    (hsecond : ∀ c ∈ second, c.isDigit = true) : IsDigits (first ++ second) := by
  refine ⟨fun hnil ↦ hfirst.1 (List.append_eq_nil_iff.mp hnil).1, fun c hc ↦ ?_⟩
  rcases List.mem_append.mp hc with hleft | hright
  · exact hfirst.2 c hleft
  · exact hsecond c hright

theorem take {text : List Char} (htext : IsDigits text) {count : Nat} (hcount : 0 < count) :
    IsDigits (text.take count) := by
  refine ⟨fun hnil ↦ ?_, fun c hc ↦ htext.2 c (List.mem_of_mem_take hc)⟩
  rcases List.take_eq_nil_iff.mp hnil with hzero | hempty
  · omega
  · exact htext.1 hempty

theorem drop {text : List Char} (htext : IsDigits text) {count : Nat}
    (hcount : count < text.length) : IsDigits (text.drop count) := by
  refine ⟨fun hnil ↦ ?_, fun c hc ↦ htext.2 c (List.mem_of_mem_drop hc)⟩
  have := List.drop_eq_nil_iff.mp hnil
  omega

theorem zero : IsDigits ['0'] := by
  refine ⟨by simp, ?_⟩
  rw [List.forall_mem_singleton]
  decide

end IsDigits

theorem isDigits_decimal (number : Nat) : IsDigits (Text.decimal number) :=
  ⟨Nat.toDigits_ne_nil, fun _ hc ↦ Nat.isDigit_of_mem_toDigits (by decide) (by decide) hc⟩

theorem isDigit_of_mem_replicate {count : Nat} {c : Char} (hc : c ∈ List.replicate count '0') :
    c.isDigit = true := by
  rw [(List.mem_replicate.mp hc).2]
  decide

theorem isDigits_padded (width number : Nat) : IsDigits (Text.padded width number) := by
  obtain ⟨hnonempty, hdigits⟩ := isDigits_decimal number
  refine ⟨fun hnil ↦ hnonempty (List.append_eq_nil_iff.mp hnil).2, fun c hc ↦ ?_⟩
  rcases List.mem_append.mp hc with hzero | hdigit
  · exact isDigit_of_mem_replicate hzero
  · exact hdigits c hdigit

/-! ### Reading digits back -/

theorem decimalValue_eq_ofDigitChars (digits : List Char) :
    Text.decimalValue digits = Nat.ofDigitChars 10 digits 0 := by
  rw [Text.decimalValue, Text.valueOf, List.foldl_map, Nat.ofDigitChars_eq_foldl]
  congr 1
  funext value c
  rw [Nat.mul_comm]

theorem decimalValue_decimal (number : Nat) :
    Text.decimalValue (Text.decimal number) = number := by
  rw [decimalValue_eq_ofDigitChars, Text.decimal, Nat.ofDigitChars_ten_toDigits]

theorem decimal_injective {first second : Nat} (heq : Text.decimal first = Text.decimal second) :
    first = second := by
  rw [← decimalValue_decimal first, heq, decimalValue_decimal]

theorem decimalValue_append (first second : List Char) :
    Text.decimalValue (first ++ second) =
      Text.decimalValue first * tenTo second.length + Text.decimalValue second := by
  rw [decimalValue_eq_ofDigitChars, decimalValue_eq_ofDigitChars, decimalValue_eq_ofDigitChars,
    Nat.ofDigitChars_append, Nat.ofDigitChars_eq_ofDigitChars_zero, Nat.mul_comm]
  rfl

theorem decimalValue_replicate_zero (count : Nat) :
    Text.decimalValue (List.replicate count '0') = 0 := by
  rw [decimalValue_eq_ofDigitChars, Nat.ofDigitChars_replicate_zero, Nat.mul_zero]

theorem decimalValue_padded (width number : Nat) :
    Text.decimalValue (Text.padded width number) = number := by
  rw [Text.padded, decimalValue_append, decimalValue_replicate_zero, Nat.zero_mul, Nat.zero_add,
    decimalValue_decimal]

theorem length_padded {width number : Nat} (hwidth : 0 < width) (hlt : number < tenTo width) :
    (Text.padded width number).length = width := by
  have hcount : (Text.decimal number).length ≤ width :=
    (Nat.length_toDigits_le_iff (by decide) hwidth).mpr hlt
  rw [Text.padded, Text.digitCount, List.length_append, List.length_replicate]
  omega

theorem ne_of_isDigit {digit c : Char} (hdigit : digit.isDigit = true) (hc : c.isDigit = false) :
    digit ≠ c := by
  rintro rfl
  rw [hdigit] at hc
  cases hc

theorem IsDigits.exists_cons {digits : List Char} (hdigits : IsDigits digits) :
    ∃ digit rest, digits = digit :: rest ∧ digit.isDigit = true := by
  obtain ⟨hnonempty, hall⟩ := hdigits
  obtain ⟨digit, rest, rfl⟩ := List.exists_cons_of_ne_nil hnonempty
  exact ⟨digit, rest, rfl, hall digit List.mem_cons_self⟩

/-- Digits do not begin with anything else. -/
theorem IsDigits.append_ne_cons {digits : List Char} (hdigits : IsDigits digits) {c : Char}
    (hc : c.isDigit = false) (rest other : List Char) : digits ++ rest ≠ c :: other := by
  obtain ⟨digit, others, rfl, hdigit⟩ := hdigits.exists_cons
  exact fun heq ↦ ne_of_isDigit hdigit hc (List.cons.inj heq).1

/-- A signed number ends where something else than a digit begins. -/
theorem signedDecimal_append_inj {first second : Int} {rest other : List Char}
    (hrest : Stops Char.isDigit rest) (hother : Stops Char.isDigit other)
    (heq : Text.signedDecimal first ++ rest = Text.signedDecimal second ++ other) :
    first = second ∧ rest = other := by
  have hmagnitudes {a b : Nat} (heq : Text.decimal a ++ rest = Text.decimal b ++ other) :
      a = b ∧ rest = other := by
    have hspans := congrArg Text.spanDigits heq
    rw [hrest.spanDigits_append (isDigits_decimal a).2,
      hother.spanDigits_append (isDigits_decimal b).2, Prod.mk.injEq] at hspans
    exact ⟨decimal_injective hspans.1, hspans.2⟩
  unfold Text.signedDecimal at heq
  split at heq <;> split at heq
  · obtain ⟨habs, hrests⟩ := hmagnitudes (List.cons.inj heq).2
    exact ⟨by omega, hrests⟩
  · exact absurd heq.symm ((isDigits_decimal _).append_ne_cons (by decide) _ _)
  · exact absurd heq ((isDigits_decimal _).append_ne_cons (by decide) _ _)
  · obtain ⟨habs, hrests⟩ := hmagnitudes heq
    exact ⟨by omega, hrests⟩

/-! ### Numerals -/

/-- Digits, possibly followed by a point with digits and by an exponent. -/
def IsNumeral (text : List Char) : Prop :=
  ∃ whole fraction exponent, text = whole ++ (fraction ++ exponent) ∧ IsDigits whole ∧
    (fraction = [] ∨ ∃ digits, IsDigits digits ∧ fraction = '.' :: digits) ∧
    (exponent = [] ∨ ∃ sign digits, (sign = [] ∨ sign = ['-']) ∧ IsDigits digits ∧
      exponent = 'e' :: (sign ++ digits))

theorem IsDigits.isNumeral {text : List Char} (htext : IsDigits text) : IsNumeral text :=
  ⟨text, [], [], by simp, htext, Or.inl rfl, Or.inl rfl⟩

theorem IsDigits.isNumeral_pointed {whole digits : List Char} (hwhole : IsDigits whole)
    (hdigits : IsDigits digits) : IsNumeral (whole ++ '.' :: digits) :=
  ⟨whole, '.' :: digits, [], by simp, hwhole, Or.inr ⟨digits, hdigits, rfl⟩, Or.inl rfl⟩

/-- The minus sign of a negative number, followed by a numeral. -/
def IsSignedNumeral (negative : Bool) (text : List Char) : Prop :=
  ∃ numeral, IsNumeral numeral ∧ text = if negative then '-' :: numeral else numeral

theorem isSignedNumeral_signedDecimal (number : Int) :
    IsSignedNumeral (decide (number < 0)) (Text.signedDecimal number) := by
  refine ⟨_, (isDigits_decimal number.natAbs).isNumeral, ?_⟩
  unfold Text.signedDecimal
  simp only [decide_eq_true_eq]

/-! ### Decimals -/

theorem length_padded_ge (width number : Nat) : width ≤ (Text.padded width number).length := by
  simp only [Text.padded, Text.digitCount, List.length_append, List.length_replicate]
  omega

/-- A decimal shows a point by itself exactly if it has decimal places. -/
theorem Decimal.point_mem_text_iff (value : Decimal) : '.' ∈ value.text ↔ value.scale ≠ 0 := by
  have hdigits (width : Nat) : '.' ∉ Text.padded width value.mantissa := fun hmem ↦
    absurd ((isDigits_padded _ _).2 '.' hmem) (by decide)
  unfold Decimal.text
  by_cases hscale : value.scale = 0
  · cases value.negative <;> simp [hscale, hdigits]
  · cases value.negative <;> simp [hscale]

/-- A point is added where the scale is zero. -/
theorem Dialect.decimalText_eq (value : Decimal) :
    Dialect.decimalText value =
      String.ofList (if value.scale = 0 then value.text ++ ['.', '0'] else value.text) := by
  have hpoint := value.point_mem_text_iff
  unfold Dialect.decimalText
  by_cases hscale : value.scale = 0
  · simp [hscale, hpoint]
  · simp [hscale, hpoint]

/-- A decimal is written with at least one digit before the point and, once the point is added where
its scale is zero, with at least one digit after it. -/
theorem isSignedNumeral_decimalText (value : Decimal) :
    IsSignedNumeral value.negative (Dialect.decimalText value).toList := by
  rw [Dialect.decimalText_eq]
  unfold Decimal.text
  generalize hpadded : Text.padded (value.scale + 1) value.mantissa = digits
  have hdigits : IsDigits digits := hpadded ▸ isDigits_padded _ _
  have hlength : value.scale + 1 ≤ digits.length := hpadded ▸ length_padded_ge _ _
  have hwhole : IsDigits (digits.take (digits.length - value.scale)) := hdigits.take (by omega)
  by_cases hscale : value.scale = 0
  · refine ⟨_, hwhole.isNumeral_pointed .zero, ?_⟩
    cases value.negative <;> simp [hscale]
  · have hdecimals : IsDigits (digits.drop (digits.length - value.scale)) :=
      hdigits.drop (by omega)
    refine ⟨_, hwhole.isNumeral_pointed hdecimals, ?_⟩
    cases value.negative <;> simp [hscale]

/-! ### Doubles -/

namespace FloatLayout

theorem isNumeral_positional {digits : List Char} (hdigits : IsDigits digits) (position : Int) :
    IsNumeral (statement.positional digits position) := by
  have hshown : IsDigits (if (digits.take position.toNat).isEmpty then ['0']
      else digits.take position.toNat ++
        List.replicate (position.toNat - digits.length) '0') := by
    split_ifs with hempty
    · exact .zero
    · refine IsDigits.append ⟨by simpa using hempty, fun c hc ↦ ?_⟩ fun c hc ↦ ?_
      · exact hdigits.2 c (List.mem_of_mem_take hc)
      · exact isDigit_of_mem_replicate hc
  unfold positional
  simp only
  by_cases hempty : (List.replicate (-position).toNat '0' ++ digits.drop position.toNat).isEmpty
  · rw [if_pos hempty]
    exact hshown.isNumeral_pointed .zero
  · rw [if_neg hempty]
    refine hshown.isNumeral_pointed ⟨by simpa using hempty, fun c hc ↦ ?_⟩
    rcases List.mem_append.mp hc with hzero | hdigit
    · exact isDigit_of_mem_replicate hzero
    · exact hdigits.2 c (List.mem_of_mem_drop hdigit)

theorem isNumeral_scientific {digits : List Char} (hdigits : IsDigits digits) (position : Int) :
    IsNumeral (statement.scientific digits position) := by
  have hexponent : ∃ sign marked, (sign = [] ∨ sign = ['-']) ∧ IsDigits marked ∧
      (if position - 1 < 0 then Text.signedDecimal (position - 1)
        else statement.positiveExponent ++ Text.decimal (position - 1).toNat) = sign ++ marked := by
    split_ifs with hnegative
    · refine ⟨['-'], _, Or.inr rfl, isDigits_decimal (position - 1).natAbs, ?_⟩
      rw [Text.signedDecimal, if_pos hnegative]
      rfl
    · exact ⟨[], _, Or.inl rfl, isDigits_decimal (position - 1).toNat, rfl⟩
  obtain ⟨sign, marked, hsign, hmarked, hwritten⟩ := hexponent
  unfold scientific
  simp only
  rw [hwritten]
  split_ifs with hone
  · exact ⟨digits, [], 'e' :: (sign ++ marked), rfl, hdigits, Or.inl rfl,
      Or.inr ⟨sign, marked, hsign, hmarked, rfl⟩⟩
  · exact ⟨digits.take 1, '.' :: digits.drop 1, 'e' :: (sign ++ marked), by simp,
      hdigits.take (by omega), Or.inr ⟨_, hdigits.drop (by omega), rfl⟩,
      Or.inr ⟨sign, marked, hsign, hmarked, rfl⟩⟩

theorem isNumeral_magnitude (x : Binary64) : IsNumeral (statement.magnitude x) := by
  unfold magnitude
  split
  · exact isNumeral_positional .zero 1
  · simp only
    split
    · exact isNumeral_positional (isDigits_decimal _) _
    · exact isNumeral_scientific (isDigits_decimal _) _

theorem toList_write {x : Binary64} (hfinite : x.isFinite = true) :
    (statement.write x).toList =
      if x.isNegative then '-' :: statement.magnitude x else statement.magnitude x := by
  have hnumber : x.isNaN = false := by
    unfold Binary64.isNaN
    unfold Binary64.isFinite at hfinite
    simp only [bne_iff_ne, ne_eq] at hfinite
    simp [hfinite]
  simp only [write, hnumber, hfinite, Bool.false_eq_true, ↓reduceIte, String.toList_ofList]

theorem isSignedNumeral_write {x : Binary64} (hfinite : x.isFinite = true) :
    IsSignedNumeral x.isNegative (statement.write x).toList :=
  ⟨_, isNumeral_magnitude x, toList_write hfinite⟩

end FloatLayout

end SqlCompose
