import Mathlib.Tactic.Ring
import SqlCompose.Json.Forms.Literal
import SqlCompose.Proofs.CalendarText
import SqlCompose.Proofs.JsonLexeme

/-!
Scalars that are read back. Decimals, dates, times of day and timestamps are exchanged as strings in
their written form, bytes and the integers of a fixed width as numbers; each is read back from what
is written for it.

There is one exception. A decimal keeps its sign apart from its digits, and the sign is written even
if all digits are zero, but a zero is read without sign. So the text of a decimal is read as the
decimal whose sign is that of its value (`Decimal.ofText?_text`), which is another one for a
negative zero only.
-/

set_option autoImplicit false
set_option relaxedAutoImplicit false

namespace SqlCompose

/-! ### Decimals -/

namespace Decimal

/-- Not a zero with a minus sign. -/
def HasSignOfValue (number : Decimal) : Prop :=
  number.mantissa = 0 → number.negative = false

/-- The same number, without sign if it is zero. -/
def withSignOfValue (number : Decimal) : Decimal :=
  { number with negative := number.negative && number.mantissa != 0 }

theorem withSignOfValue_eq_self {number : Decimal} (hnumber : number.HasSignOfValue) :
    number.withSignOfValue = number := by
  have hnegative : (number.negative && number.mantissa != 0) = number.negative := by
    by_cases hzero : number.mantissa = 0
    · rw [hnumber hzero, Bool.false_and]
    · rw [bne_iff_ne.mpr hzero, Bool.and_true]
  rw [withSignOfValue, hnegative]

theorem scan_cons_digit {mantissa scale : Nat} {started pointed : Bool} {c : Char}
    (hc : c.isDigit = true) (hmantissa : mantissa * 10 + (c.toNat - '0'.toNat) < twoTo 96)
    (hscale : pointed = true → scale < 28) (rest : List Char) :
    scan mantissa scale started pointed (c :: rest) =
      scan (mantissa * 10 + (c.toNat - '0'.toNat)) (if pointed then scale + 1 else scale) true
        pointed rest := by
  have hfits : pointed = false ∨ scale < 28 := by
    cases pointed with
    | false => exact Or.inl rfl
    | true => exact Or.inr (hscale rfl)
  rw [scan, Text.digit?, if_pos hc]
  exact if_pos ⟨hmantissa, hfits⟩

/-- A run of digits that fits moves on by its length and adds its value. -/
theorem scan_digits_append {digits : List Char} (hdigits : ∀ c ∈ digits, c.isDigit = true)
    {mantissa scale : Nat} {started pointed : Bool}
    (hmantissa : mantissa * tenTo digits.length + Text.decimalValue digits < twoTo 96)
    (hscale : pointed = true → scale + digits.length ≤ 28) (rest : List Char) :
    scan mantissa scale started pointed (digits ++ rest) =
      scan (mantissa * tenTo digits.length + Text.decimalValue digits)
        (if pointed then scale + digits.length else scale) (started || !digits.isEmpty) pointed
        rest := by
  induction digits generalizing mantissa scale started with
  | nil => simp [tenTo, Text.decimalValue, Text.valueOf]
  | cons c digits ih =>
    have hvalue : mantissa * tenTo (digits.length + 1) + Text.decimalValue (c :: digits) =
        (mantissa * 10 + (c.toNat - '0'.toNat)) * tenTo digits.length +
          Text.decimalValue digits := by
      have hsingle : Text.decimalValue [c] = c.toNat - '0'.toNat := Nat.zero_add _
      have hpower : tenTo (digits.length + 1) = tenTo digits.length * 10 := rfl
      rw [← List.singleton_append, decimalValue_append, hsingle, hpower]
      ring
    rw [List.length_cons] at hmantissa hscale ⊢
    rw [hvalue] at hmantissa ⊢
    have hfirst : mantissa * 10 + (c.toNat - '0'.toNat) < twoTo 96 := by
      refine Nat.lt_of_le_of_lt (Nat.le_add_right_of_le ?_) hmantissa
      exact Nat.le_mul_of_pos_right _ (Nat.pow_pos (by decide))
    have hplaces : pointed = true → scale < 28 := by
      intro hpointed
      have hbound := hscale hpointed
      omega
    rw [List.cons_append, scan_cons_digit (hdigits c (by simp)) hfirst hplaces,
      ih (fun d hd ↦ hdigits d (by simp [hd])) hmantissa]
    · cases pointed
      · simp
      · simp [Nat.add_assoc, Nat.add_comm 1]
    · intro hpointed
      have hbound := hscale hpointed
      rw [if_pos hpointed]
      omega

/-- Digits before and after a point, which is left out when there are none after it. -/
def pointed (whole decimals : List Char) : List Char :=
  if decimals = [] then whole else whole ++ '.' :: decimals

theorem scan_pointed {whole decimals : List Char} (hwhole : IsDigits whole)
    (hdecimals : ∀ c ∈ decimals, c.isDigit = true) (hscale : decimals.length ≤ 28)
    (hmantissa : Text.decimalValue (whole ++ decimals) < twoTo 96) :
    scan 0 0 false false (pointed whole decimals) =
      some (Text.decimalValue (whole ++ decimals), decimals.length) := by
  rw [decimalValue_append] at hmantissa ⊢
  have hstarted : (!whole.isEmpty) = true := by simp [hwhole.1]
  have hfirst (rest : List Char) :
      scan 0 0 false false (whole ++ rest) =
        scan (Text.decimalValue whole) 0 true false rest := by
    rw [scan_digits_append hwhole.2 ?_ (by simp), hstarted, Nat.zero_mul, Nat.zero_add]
    · rfl
    · refine Nat.lt_of_le_of_lt ?_ hmantissa
      rw [Nat.zero_mul, Nat.zero_add]
      exact Nat.le_add_right_of_le (Nat.le_mul_of_pos_right _ (Nat.pow_pos (by decide)))
  unfold pointed
  split_ifs with hnil
  · have hnothing := hfirst []
    rw [List.append_nil] at hnothing
    rw [hnothing, hnil]
    simp [scan, tenTo, Text.decimalValue, Text.valueOf]
  · have hpoint (rest : List Char) : scan (Text.decimalValue whole) 0 true false ('.' :: rest) =
        scan (Text.decimalValue whole) 0 true true rest := rfl
    have hplaces : true = true → 0 + decimals.length ≤ 28 := by omega
    have hsecond : scan (Text.decimalValue whole) 0 true true (decimals ++ []) = _ :=
      scan_digits_append hdecimals hmantissa hplaces []
    rw [List.append_nil, if_pos rfl, Nat.zero_add] at hsecond
    rw [hfirst, hpoint, hsecond]
    rfl

/-- A decimal is written with the digits of its mantissa, as many of them after the point as its
scale says. -/
theorem exists_pointed (number : Decimal) :
    ∃ whole decimals, IsDigits whole ∧ (∀ c ∈ decimals, c.isDigit = true) ∧
      decimals.length = number.scale ∧ Text.decimalValue (whole ++ decimals) = number.mantissa ∧
      number.text = if number.negative then '-' :: pointed whole decimals
        else pointed whole decimals := by
  unfold text
  generalize hpadded : Text.padded (number.scale + 1) number.mantissa = digits
  have hdigits : IsDigits digits := hpadded ▸ isDigits_padded _ _
  have hlength : number.scale + 1 ≤ digits.length := hpadded ▸ length_padded_ge _ _
  have hplaces : (digits.drop (digits.length - number.scale)).length = number.scale := by
    rw [List.length_drop]
    omega
  refine ⟨digits.take (digits.length - number.scale), digits.drop (digits.length - number.scale),
    hdigits.take (by omega), fun c hc ↦ hdigits.2 c (List.mem_of_mem_drop hc), hplaces, ?_, ?_⟩
  · rw [List.take_append_drop, ← hpadded, decimalValue_padded]
  · have hempty : digits.drop (digits.length - number.scale) = [] ↔ number.scale = 0 := by
      rw [← List.length_eq_zero_iff, hplaces]
    simp only [pointed, hempty]

theorem splitSign_signed (negative : Bool) {whole : List Char} (hwhole : IsDigits whole)
    (decimals : List Char) :
    Text.splitSign (if negative then '-' :: pointed whole decimals else pointed whole decimals) =
      (negative, pointed whole decimals) := by
  have hbegins : ∃ c rest, pointed whole decimals = c :: rest ∧ c.isDigit = true := by
    obtain ⟨c, rest, rfl, hc⟩ := hwhole.exists_cons
    unfold pointed
    split
    · exact ⟨c, rest, rfl, hc⟩
    · exact ⟨c, rest ++ '.' :: decimals, rfl, hc⟩
  obtain ⟨c, rest, hcons, hc⟩ := hbegins
  cases negative with
  | true => rfl
  | false =>
    have hminus : c ≠ '-' := ne_of_isDigit hc (by decide)
    have hplus : c ≠ '+' := ne_of_isDigit hc (by decide)
    rw [if_neg Bool.false_ne_true, hcons, Json.splitSign_cons, if_neg hminus, if_neg hplus]

/-- The text of a decimal is read as the same number, without sign if it is zero: the digits fit as
they are, so no place is rounded and the form with an exponent is not tried. -/
theorem ofText?_text (number : Decimal) : ofText? number.text = some number.withSignOfValue := by
  obtain ⟨whole, decimals, hwhole, hdecimals, hlength, hvalue, htext⟩ := exists_pointed number
  have hscan : scan 0 0 false false (pointed whole decimals) =
      some (number.mantissa, number.scale) := by
    rw [scan_pointed hwhole hdecimals (hlength ▸ number.scale_le) (hvalue ▸ number.mantissa_lt),
      hvalue, hlength]
  have hplain : ofPlainText? number.text = some number.withSignOfValue := by
    simp only [ofPlainText?, htext, splitSign_signed number.negative hwhole, hscan,
      Option.bind_some]
    rw [ofParts?, dif_pos number.mantissa_lt, dif_pos number.scale_le, withSignOfValue]
  rw [ofText?, hplain]
  rfl

end Decimal

/-! ### Dates and times -/

theorem Date.ofText?_text (date : Date) : Date.ofText? date.text = some date := by
  have hscan := Date.scan?_text_append date []
  rw [List.append_nil] at hscan
  rw [Date.ofText?, hscan]
  rfl

/-- A time of day with seconds, at the front of a text that ends there, is the whole text. -/
theorem TimeOfDay.ofText?_of_scan? {text : List Char} {time : TimeOfDay}
    (hscan : TimeOfDay.scan? text = some (time, [])) : TimeOfDay.ofText? text = some time := by
  unfold TimeOfDay.scan? at hscan
  obtain ⟨⟨hour, minute, behind⟩, hminutes, hscan⟩ := Option.bind_eq_some_iff.mp hscan
  obtain ⟨⟨second, nanosecond, rest⟩, hseconds, hscan⟩ := Option.bind_eq_some_iff.mp hscan
  obtain ⟨time, htime, heq⟩ := Option.bind_eq_some_iff.mp hscan
  cases heq
  have hcolon : (Calendar.skipBlank behind).isEmpty = false := by
    unfold TimeOfDay.scanSeconds? at hseconds
    obtain ⟨after, hmark, -⟩ := Option.bind_eq_some_iff.mp hseconds
    unfold Calendar.mark? at hmark
    cases hbehind : Calendar.skipBlank behind with
    | nil =>
      rw [hbehind] at hmark
      cases hmark
    | cons c rest => rfl
  rw [TimeOfDay.ofText?, hminutes]
  simp only [Option.bind_eq_bind, Option.bind_some, hcolon, Bool.false_eq_true, if_false, hseconds]
  exact htime

theorem TimeOfDay.ofText?_text (time : TimeOfDay) :
    TimeOfDay.ofText? time.text = some time.asWritten :=
  TimeOfDay.ofText?_of_scan? (TimeOfDay.scan?_text time)

theorem Timestamp.ofText?_text (timestamp : Timestamp) :
    Timestamp.ofText? (timestamp.text 'T') = some timestamp.asWritten := by
  have hmark (rest : List Char) : Calendar.mark? 'T' ('T' :: rest) = some rest :=
    Calendar.mark?_cons (by decide) rest
  simp only [Timestamp.ofText?, Timestamp.text, Date.scan?_text_append, hmark,
    TimeOfDay.scan?_text, Option.bind_eq_bind, Option.bind_some]
  rfl

/-! ### Integers of a fixed width -/

namespace Json

theorem integerBetween?_of_le {low high value : Int} (hlow : low ≤ value) (hhigh : value ≤ high) :
    integerBetween? low high (integer value) = some value :=
  if_pos ⟨hlow, hhigh⟩

theorem byte?_toNat (byte : UInt8) : byte? (integer byte.toNat) = some byte := by
  have hbyte := byte.toNat_lt
  rw [byte?, integerBetween?_of_le (by omega) (by omega), Option.map_some, Int.toNat_natCast,
    UInt8.ofNat_toNat]

theorem uint64?_toNat (number : UInt64) : uint64? (integer number.toNat) = some number := by
  have hnumber := number.toNat_lt
  rw [uint64?, integerBetween?_of_le (by omega) (by omega), Option.map_some, Int.toNat_natCast,
    UInt64.ofNat_toNat]

theorem int32?_toInt (number : Int32) : int32? (integer number.toInt) = some number := by
  have hlow := number.le_toInt
  have hhigh := number.toInt_lt
  rw [int32?, integerBetween?_of_le (by omega) (by omega), Option.map_some, Int32.ofInt_toInt]

theorem int64?_toInt (number : Int64) : int64? (integer number.toInt) = some number := by
  have hlow := number.le_toInt
  have hhigh := number.toInt_lt
  rw [int64?, integerBetween?_of_le (by omega) (by omega), Option.map_some, Int64.ofInt_toInt]

theorem parsed?_ofList {α : Type} (parse : List Char → Option α) (text : List Char) :
    parsed? parse (string (String.ofList text)) = parse text := by
  rw [parsed?, text?, Option.bind_some, String.toList_ofList]

end Json

end SqlCompose
