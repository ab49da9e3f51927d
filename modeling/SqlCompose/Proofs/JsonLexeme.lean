import Mathlib.Data.List.Basic
import Mathlib.Tactic.SplitIfs
import SqlCompose.Json.Lexeme
import SqlCompose.Json.Writer
import SqlCompose.Proofs.Numeral

/-!
The lexemes of written JSON values. A value is written without any white space, so its lexemes
follow one upon the other and each has to end by itself: a string with its quotation mark
(`scanLexeme?_textChars`), a number because what follows it is a comma, a bracket or a brace
(`scanNumeral?_append`).

Every character of a string is written as one unit that stands for it alone, so escaping and
surrogates never meet (`exists_unit`). An integer is written without superfluous zeros and denotes
itself as long as it fits into sixty-four bits (`value_signedDecimal`).
-/

set_option autoImplicit false
set_option relaxedAutoImplicit false

namespace SqlCompose.Json

/-! ### Strings -/

/-- A character that is written as it stands. -/
theorem scanText?_cons {c : Char} (hquote : c ≠ '"') (hslash : c ≠ '\\')
    (hcontrol : ¬ c.toNat < 0x20) (rest : List Char) :
    scanText? (c :: rest) =
      (scanText? rest).map fun scanned ↦ (.plain c :: scanned.1, scanned.2) := by
  rw [scanText?]
  · rw [if_neg (by simp [hslash, hcontrol])]
    cases scanText? rest <;> rfl
  all_goals simp [hquote, hslash]

/-- A character that is written as a letter behind a backslash. -/
theorem scanText?_escape {c letter : Char} (hletter : shortEscape? letter = some c)
    (hunit : letter ≠ 'u') (rest : List Char) :
    scanText? ('\\' :: letter :: rest) =
      (scanText? rest).map fun scanned ↦ (.plain c :: scanned.1, scanned.2) := by
  rw [scanText?, hletter]
  · cases scanText? rest <;> rfl
  · simp [hunit]

theorem unit?_hexByte {code : Nat} (hcode : code < 0x20) :
    ∃ high low, Text.hexByte (UInt8.ofNat code) = [high, low] ∧
      unit? '0' '0' high low = some code := by
  have hall : ∀ code < 0x20, unit? '0' '0' (Nat.digitChar ((UInt8.ofNat code).toNat / 16))
      (Nat.digitChar ((UInt8.ofNat code).toNat % 16)) = some code := by decide
  exact ⟨_, _, rfl, hall code hcode⟩

/-- A character is read back from its written form, as a unit that stands for it alone. -/
theorem exists_unit (c : Char) :
    ∃ unit, (∀ rest, scanText? (escaped c ++ rest) =
      (scanText? rest).map fun scanned ↦ (unit :: scanned.1, scanned.2)) ∧
        ∀ units, characters? (unit :: units) = (characters? units).map (c :: ·) := by
  have hshort (letter : Char) (hletter : shortEscape? letter = some c) (hunit : letter ≠ 'u') :
      ∃ unit, (∀ rest, scanText? (['\\', letter] ++ rest) =
        (scanText? rest).map fun scanned ↦ (unit :: scanned.1, scanned.2)) ∧
          ∀ units, characters? (unit :: units) = (characters? units).map (c :: ·) :=
    ⟨.plain c, scanText?_escape hletter hunit, fun _ ↦ rfl⟩
  unfold escaped
  split_ifs with hquote hslash hback hfeed hline hreturn htab hcontrol
  · exact hshort '"' (by rw [hquote]; rfl) (by decide)
  · exact hshort '\\' (by rw [hslash]; rfl) (by decide)
  · exact hshort 'b' (by rw [hback]; rfl) (by decide)
  · exact hshort 'f' (by rw [hfeed]; rfl) (by decide)
  · exact hshort 'n' (by rw [hline]; rfl) (by decide)
  · exact hshort 'r' (by rw [hreturn]; rfl) (by decide)
  · exact hshort 't' (by rw [htab]; rfl) (by decide)
  · refine ⟨.escaped c.toNat, fun rest ↦ ?_, fun units ↦ ?_⟩
    · obtain ⟨high, low, hhex, hunit⟩ := unit?_hexByte hcontrol
      rw [hhex]
      simp only [List.cons_append, List.nil_append, scanText?, hunit]
      cases scanText? rest <;> rfl
    · have hhigh : isHighSurrogate c.toNat = false := by
        simp only [isHighSurrogate, Bool.and_eq_false_iff, decide_eq_false_iff_not]
        omega
      have hlow : isLowSurrogate c.toNat = false := by
        simp only [isLowSurrogate, Bool.and_eq_false_iff, decide_eq_false_iff_not]
        omega
      rw [characters?.eq_def]
      simp only [hhigh, hlow, Char.ofNat_toNat, Bool.false_eq_true, if_false]
  · exact ⟨.plain c, scanText?_cons hquote hslash hcontrol, fun _ ↦ rfl⟩

/-- The characters of a string are read back up to its closing quotation mark. -/
theorem exists_units (text rest : List Char) :
    ∃ units, scanText? (text.flatMap escaped ++ '"' :: rest) = some (units, rest) ∧
      characters? units = some text := by
  induction text with
  | nil => exact ⟨[], rfl, rfl⟩
  | cons c text ih =>
    obtain ⟨units, hscan, hcharacters⟩ := ih
    obtain ⟨unit, hunit, hself⟩ := exists_unit c
    refine ⟨unit :: units, ?_, ?_⟩
    · rw [List.flatMap_cons, List.append_assoc, hunit, hscan]
      rfl
    · rw [hself, hcharacters]
      rfl

theorem scanLexeme?_textChars (text : String) (rest : List Char) :
    scanLexeme? (textChars text ++ rest) = some (.text (some text), rest) := by
  obtain ⟨units, hscan, hcharacters⟩ := exists_units text.toList rest
  have hcontent : (characters? units).map String.ofList = some text := by
    rw [hcharacters, Option.map_some, String.ofList_toList]
  rw [textChars, List.cons_append, List.append_assoc, List.singleton_append, scanLexeme?, hscan,
    Option.map_some, ← hcontent]

/-! ### Numbers -/

/-- What may stand behind a number without becoming part of it. -/
def EndsNumber (rest : List Char) : Prop :=
  Stops (fun c ↦ c.isDigit || c == '.' || c == 'e' || c == 'E') rest

theorem EndsNumber.digits {rest : List Char} (hrest : EndsNumber rest) :
    Stops Char.isDigit rest :=
  hrest.mono fun c hc ↦ by simp [hc]

theorem EndsNumber.point {rest : List Char} (hrest : EndsNumber rest) : Stops (· == '.') rest :=
  hrest.mono fun c hc ↦ by simp_all

theorem EndsNumber.mark {rest : List Char} (hrest : EndsNumber rest) :
    Stops (fun c ↦ c == 'e' || c == 'E') rest := by
  refine hrest.mono fun c hc ↦ ?_
  rw [Bool.or_eq_true] at hc
  rcases hc with hlower | hupper <;> simp [*]

theorem stops_append {inClass : Char → Bool} {text rest : List Char} (htext : Stops inClass text)
    (hrest : text = [] → Stops inClass rest) : Stops inClass (text ++ rest) := by
  cases text with
  | nil => exact hrest rfl
  | cons c text => exact .cons (htext c rfl) _

theorem spanDigits_append {text rest : List Char}
    (hrest : (Text.spanDigits text).2 = [] → Stops Char.isDigit rest) :
    Text.spanDigits (text ++ rest) =
      ((Text.spanDigits text).1, (Text.spanDigits text).2 ++ rest) := by
  induction text with
  | nil => exact (hrest rfl).spanDigits_append (List.forall_mem_nil _)
  | cons c text ih =>
    unfold Text.spanDigits at hrest ih ⊢
    by_cases hc : c.isDigit = true
    · rw [List.dropWhile_cons_of_pos hc] at hrest
      rw [List.cons_append, List.takeWhile_cons_of_pos hc, List.dropWhile_cons_of_pos hc,
        List.takeWhile_cons_of_pos hc, List.dropWhile_cons_of_pos hc]
      have htail := Prod.mk.inj (ih hrest)
      rw [htail.1, htail.2]
    · rw [List.cons_append, List.takeWhile_cons_of_neg hc, List.dropWhile_cons_of_neg hc,
        List.takeWhile_cons_of_neg hc, List.dropWhile_cons_of_neg hc, List.cons_append]

theorem splitSign_cons (c : Char) (text : List Char) :
    Text.splitSign (c :: text) =
      if c = '-' then (true, text) else if c = '+' then (false, text) else (false, c :: text) := by
  by_cases hminus : c = '-'
  · rw [if_pos hminus, hminus]
    rfl
  · by_cases hplus : c = '+'
    · rw [if_neg hminus, if_pos hplus, hplus]
      rfl
    · rw [if_neg hminus, if_neg hplus]
      simp [Text.splitSign, hminus, hplus]

theorem splitSign_append {text : List Char} (hne : text ≠ []) (rest : List Char) :
    Text.splitSign (text ++ rest) = ((Text.splitSign text).1, (Text.splitSign text).2 ++ rest) := by
  cases text with
  | nil => exact absurd rfl hne
  | cons c text =>
    rw [List.cons_append, splitSign_cons, splitSign_cons]
    split_ifs <;> rfl

theorem scanExponent?_append {text after rest : List Char} {exponent : Int}
    (hscan : scanExponent? text = some (exponent, after)) (hrest : after = [] → EndsNumber rest) :
    scanExponent? (text ++ rest) = some (exponent, after ++ rest) := by
  have hne : text ≠ [] := by
    rintro rfl
    cases hscan
  simp only [scanExponent?] at hscan ⊢
  have hdigits : ¬ (Text.spanDigits (Text.splitSign text).2).1.isEmpty := by
    intro hempty
    rw [if_pos hempty] at hscan
    cases hscan
  rw [if_neg hdigits] at hscan
  obtain ⟨rfl, rfl⟩ := Prod.mk.inj (Option.some.inj hscan)
  rw [splitSign_append hne]
  have hspan := spanDigits_append fun hafter ↦ (hrest hafter).digits
  simp only [hspan, hdigits, Bool.false_eq_true, if_false]

theorem scanScaled?_of_stops (numeral : Numeral) {text : List Char}
    (htext : Stops (fun c ↦ c == 'e' || c == 'E') text) :
    scanScaled? numeral text = some (numeral, text) := by
  unfold scanScaled?
  split
  · exact absurd (htext _ rfl) (by decide)
  · exact absurd (htext _ rfl) (by decide)
  · rfl

theorem scanScaled?_append {numeral result : Numeral} {text after rest : List Char}
    (hscan : scanScaled? numeral text = some (result, after))
    (hrest : after = [] → EndsNumber rest) :
    scanScaled? numeral (text ++ rest) = some (result, after ++ rest) := by
  by_cases hstops : Stops (fun c ↦ c == 'e' || c == 'E') text
  · rw [scanScaled?_of_stops numeral hstops] at hscan
    cases hscan
    exact scanScaled?_of_stops numeral (stops_append hstops fun hnil ↦ (hrest hnil).mark)
  · have hmarked : ∃ marked, text = 'e' :: marked ∨ text = 'E' :: marked := by
      cases text with
      | nil => exact absurd .nil hstops
      | cons c marked =>
        refine ⟨marked, ?_⟩
        by_contra hother
        refine hstops (.cons ?_ marked)
        simpa [not_or] using hother
    obtain ⟨marked, rfl | rfl⟩ := hmarked <;>
    · obtain ⟨⟨exponent, behind⟩, hexponent, heq⟩ := Option.map_eq_some_iff.mp hscan
      cases heq
      rw [List.cons_append, scanScaled?, scanExponent?_append hexponent hrest, Option.map_some]

theorem scanDecimals?_of_stops (numeral : Numeral) {text : List Char}
    (htext : Stops (· == '.') text) : scanDecimals? numeral text = scanScaled? numeral text := by
  unfold scanDecimals?
  split
  · exact absurd (htext _ rfl) (by decide)
  · rfl

theorem scanDecimals?_append {numeral result : Numeral} {text after rest : List Char}
    (hscan : scanDecimals? numeral text = some (result, after))
    (hrest : after = [] → EndsNumber rest) :
    scanDecimals? numeral (text ++ rest) = some (result, after ++ rest) := by
  by_cases hstops : Stops (· == '.') text
  · rw [scanDecimals?_of_stops numeral hstops] at hscan
    rw [scanDecimals?_of_stops numeral (stops_append hstops ?_)]
    · exact scanScaled?_append hscan hrest
    · rintro rfl
      cases hscan
      exact (hrest rfl).point
  · obtain ⟨decimals, rfl⟩ : ∃ decimals, text = '.' :: decimals := by
      cases text with
      | nil => exact absurd .nil hstops
      | cons c decimals =>
        by_cases hpoint : c = '.'
        · exact ⟨decimals, by rw [hpoint]⟩
        · exact absurd (.cons (by simpa using hpoint) decimals) hstops
    simp only [scanDecimals?, List.cons_append] at hscan ⊢
    split_ifs at hscan with hdigits
    have hspan : Text.spanDigits (decimals ++ rest) =
        ((Text.spanDigits decimals).1, (Text.spanDigits decimals).2 ++ rest) := by
      refine spanDigits_append fun hnil ↦ ?_
      rw [hnil] at hscan
      cases hscan
      exact (hrest rfl).digits
    simp only [hspan, hdigits, Bool.false_eq_true, if_false]
    exact scanScaled?_append hscan hrest

theorem scanUnsigned?_append {negative : Bool} {result : Numeral} {text after rest : List Char}
    (hscan : scanUnsigned? negative text = some (result, after))
    (hrest : after = [] → EndsNumber rest) :
    scanUnsigned? negative (text ++ rest) = some (result, after ++ rest) := by
  simp only [scanUnsigned?] at hscan ⊢
  split_ifs at hscan with hwhole
  have hspan : Text.spanDigits (text ++ rest) =
      ((Text.spanDigits text).1, (Text.spanDigits text).2 ++ rest) := by
    refine spanDigits_append fun hnil ↦ ?_
    rw [hnil] at hscan
    cases hscan
    exact (hrest rfl).digits
  simp only [hspan, hwhole, Bool.false_eq_true, if_false]
  exact scanDecimals?_append hscan hrest

/-- A text that is read as a number is read so in front of anything that does not continue it. -/
theorem scanNumeral?_append {result : Numeral} {text after rest : List Char}
    (hscan : scanNumeral? text = some (result, after)) (hrest : after = [] → EndsNumber rest) :
    scanNumeral? (text ++ rest) = some (result, after ++ rest) := by
  cases text with
  | nil => cases hscan
  | cons c text =>
    by_cases hminus : c = '-'
    · subst hminus
      exact scanUnsigned?_append hscan hrest
    · have hunsigned (behind : List Char) :
          scanNumeral? (c :: behind) = scanUnsigned? false (c :: behind) := by
        simp [scanNumeral?, hminus]
      rw [List.cons_append, hunsigned]
      rw [hunsigned] at hscan
      exact scanUnsigned?_append hscan hrest

/-! ### Integers -/

/-- Only zero is written with a leading zero. -/
theorem eq_zero_of_head?_decimal (number : Nat) (hhead : (Text.decimal number).head? = some '0') :
    number = 0 := by
  induction number using Nat.strongRecOn with
  | ind number ih =>
    by_cases hsmall : number < 10
    · rw [Text.decimal, Nat.toDigits_of_lt_base hsmall, List.head?_cons] at hhead
      exact Nat.digitChar_eq_zero.mp (Option.some.inj hhead)
    · have hlarge : 10 ≤ number := Nat.le_of_not_lt hsmall
      rw [Text.decimal, Nat.toDigits_of_base_le (by decide) hlarge,
        List.head?_append_of_ne_nil _ Nat.toDigits_ne_nil] at hhead
      have hquotient := ih (number / 10) (Nat.div_lt_self (by omega) (by decide)) hhead
      omega

theorem scanUnsigned?_decimal (negative : Bool) (number : Nat) :
    scanUnsigned? negative (Text.decimal number) =
      some ({ negative, whole := Text.decimal number }, []) := by
  have hdigits := isDigits_decimal number
  have hspan : Text.spanDigits (Text.decimal number) = (Text.decimal number, []) := by
    have happend := Stops.nil.spanDigits_append hdigits.2
    rwa [List.append_nil] at happend
  have hzero : (Text.decimal number).head? = some '0' → (Text.decimal number).length = 1 := by
    intro hhead
    rw [eq_zero_of_head?_decimal number hhead]
    rfl
  have hgrammatical : ((Text.decimal number).isEmpty ||
      ((Text.decimal number).head? == some '0' && (Text.decimal number).length != 1)) = false := by
    simpa [hdigits.1] using hzero
  simp only [scanUnsigned?, hspan, hgrammatical, Bool.false_eq_true, if_false]
  rfl

theorem scanNumeral?_of_isDigit {c : Char} (hc : c.isDigit = true) (rest : List Char) :
    scanNumeral? (c :: rest) = scanUnsigned? false (c :: rest) := by
  have hminus : c ≠ '-' := ne_of_isDigit hc (by decide)
  simp [scanNumeral?, hminus]

theorem scanNumeral?_signedDecimal (number : Int) :
    scanNumeral? (Text.signedDecimal number) =
      some ({ negative := decide (number < 0), whole := Text.decimal number.natAbs }, []) := by
  unfold Text.signedDecimal
  by_cases hnegative : number < 0
  · rw [if_pos hnegative, scanNumeral?, scanUnsigned?_decimal, decide_eq_true hnegative]
  · rw [if_neg hnegative, decide_eq_false hnegative, ← scanUnsigned?_decimal]
    obtain ⟨digit, others, hdecimal, hdigit⟩ := (isDigits_decimal number.natAbs).exists_cons
    rw [hdecimal]
    exact scanNumeral?_of_isDigit hdigit others

/-- The digits of an integer of at most sixty-four bits denote that integer. -/
theorem value_signedDecimal {number : Int} (hlow : -(twoTo 63 : Int) ≤ number)
    (hhigh : number < twoTo 64) :
    Numeral.value { negative := decide (number < 0), whole := Text.decimal number.natAbs } =
      integer number := by
  unfold Numeral.value Numeral.integer?
  simp only [List.isEmpty_nil, Bool.not_true, Option.isSome_none, Bool.or_self,
    Bool.false_eq_true, if_false, decimalValue_decimal]
  by_cases hnegative : number < 0
  · have hrange : 0 < number.natAbs ∧ number.natAbs ≤ twoTo 63 := by omega
    have hvalue : -(number.natAbs : Int) = number := by omega
    simp only [decide_eq_true hnegative, if_true, if_pos hrange, hvalue]
  · have hrange : number.natAbs < twoTo 64 := by omega
    have hvalue : (number.natAbs : Int) = number := by omega
    simp only [decide_eq_false hnegative, Bool.false_eq_true, if_false, if_pos hrange, hvalue]

/-! ### Lexemes of numbers -/

/-- A minus sign or a digit. -/
def BeginsNumber (text : List Char) : Prop :=
  ∃ c rest, text = c :: rest ∧ (c = '-' ∨ c.isDigit = true)

theorem scanLexeme?_number {text : List Char} (htext : BeginsNumber text) :
    scanLexeme? text =
      (scanNumeral? text).map fun scanned ↦ (.scalar scanned.1.value, scanned.2) := by
  obtain ⟨c, rest, rfl, hc⟩ := htext
  rw [scanLexeme?]
  all_goals
    intro others heq
    cases heq
    exact absurd hc (by decide)

/-! ### Taking lexemes one after the other -/

theorem lexemes?_of_isBlank {c : Char} (hc : isBlank c = true) (rest : List Char) :
    lexemes? (c :: rest) = lexemes? rest := by
  rw [lexemes?, if_pos hc]

theorem lexemes?_eq_bind {text : List Char} (hne : text ≠ []) (htext : Stops isBlank text) :
    lexemes? text =
      (scanLexeme? text).bind fun scanned ↦ (lexemes? scanned.2).map (scanned.1 :: ·) := by
  cases text with
  | nil => exact absurd rfl hne
  | cons c rest =>
    rw [lexemes?, if_neg (by simp [htext c rfl])]
    cases hscan : scanLexeme? (c :: rest) with
    | none => rw [Option.bind_none]
    | some scanned => rw [Option.bind_some]

theorem lexemes?_of_scan {text after : List Char} {lexeme : Lexeme} (htext : Stops isBlank text)
    (hscan : scanLexeme? text = some (lexeme, after)) :
    lexemes? text = (lexemes? after).map (lexeme :: ·) := by
  have hne : text ≠ [] := by
    rintro rfl
    cases hscan
  rw [lexemes?_eq_bind hne htext, hscan, Option.bind_some]

/-- A text without lexemes consists of white space, which may stand in front of anything. -/
theorem lexemes?_append_of_nil {text : List Char} (htext : lexemes? text = some [])
    (rest : List Char) : lexemes? (text ++ rest) = lexemes? rest := by
  induction text with
  | nil => rfl
  | cons c text ih =>
    by_cases hc : isBlank c = true
    · rw [lexemes?_of_isBlank hc] at htext
      rw [List.cons_append, lexemes?_of_isBlank hc, ih htext]
    · rw [lexemes?, if_neg hc] at htext
      split at htext
      · cases htext
      · obtain ⟨lexemes, -, hlexemes⟩ := Option.map_eq_some_iff.mp htext
        cases hlexemes

theorem BeginsNumber.stops_isBlank {text : List Char} (htext : BeginsNumber text) :
    Stops isBlank text := by
  obtain ⟨c, rest, rfl, hc⟩ := htext
  refine .cons ?_ rest
  by_contra hblank
  simp only [isBlank, Bool.or_eq_true, beq_iff_eq, Bool.not_eq_false] at hblank
  rcases hblank with ((rfl | rfl) | rfl) | rfl <;> exact absurd hc (by decide)

theorem BeginsNumber.ne_nil {text : List Char} (htext : BeginsNumber text) : text ≠ [] := by
  obtain ⟨c, rest, rfl, -⟩ := htext
  exact List.cons_ne_nil c rest

theorem BeginsNumber.append {text : List Char} (htext : BeginsNumber text) (rest : List Char) :
    BeginsNumber (text ++ rest) := by
  obtain ⟨c, behind, rfl, hc⟩ := htext
  exact ⟨c, behind ++ rest, rfl, hc⟩

theorem beginsNumber_of_isDigits {digits : List Char} (hdigits : IsDigits digits)
    (rest : List Char) : BeginsNumber (digits ++ rest) := by
  obtain ⟨digit, others, rfl, hdigit⟩ := hdigits.exists_cons
  exact ⟨digit, others ++ rest, rfl, Or.inr hdigit⟩

/-- A number at the front of a text, when nothing but white space is behind it in its own text. -/
theorem lexemes?_number_append {text after rest : List Char} {numeral : Numeral}
    (htext : BeginsNumber text) (hscan : scanNumeral? text = some (numeral, after))
    (hafter : lexemes? after = some []) (hrest : EndsNumber rest) :
    lexemes? (text ++ rest) = (lexemes? rest).map (.scalar numeral.value :: ·) := by
  have happend := htext.append rest
  have hlexeme : scanLexeme? (text ++ rest) = some (.scalar numeral.value, after ++ rest) := by
    rw [scanLexeme?_number happend, scanNumeral?_append hscan fun _ ↦ hrest, Option.map_some]
  rw [lexemes?_of_scan happend.stops_isBlank hlexeme, lexemes?_append_of_nil hafter]

theorem beginsNumber_signedDecimal (number : Int) : BeginsNumber (Text.signedDecimal number) := by
  unfold Text.signedDecimal
  split
  · exact ⟨'-', _, rfl, Or.inl rfl⟩
  · rw [← List.append_nil (Text.decimal _)]
    exact beginsNumber_of_isDigits (isDigits_decimal _) []

/-! ### Doubles -/

theorem beginsNumber_magnitude (x : Binary64) : BeginsNumber (FloatLayout.json.magnitude x) := by
  have hpositional {digits : List Char} (hdigits : IsDigits digits) (position : Int) :
      BeginsNumber (FloatLayout.json.positional digits position) := by
    obtain ⟨whole, fraction, exponent, heq, hwhole, -, -⟩ :=
      FloatLayout.isNumeral_positional hdigits position
    change BeginsNumber (FloatLayout.statement.positional digits position)
    rw [heq]
    exact beginsNumber_of_isDigits hwhole _
  unfold FloatLayout.magnitude
  split
  · exact hpositional .zero 1
  · simp only
    split
    · exact hpositional (isDigits_decimal _) _
    · unfold FloatLayout.scientific
      simp only
      split
      · exact beginsNumber_of_isDigits (isDigits_decimal _) _
      · rw [List.append_assoc]
        exact beginsNumber_of_isDigits ((isDigits_decimal _).take Nat.one_pos) _

theorem beginsNumber_float {x : Binary64} (hfinite : x.isFinite = true) :
    BeginsNumber (float x).chars := by
  have hnumber : x.isNaN = false := by
    unfold Binary64.isNaN
    unfold Binary64.isFinite at hfinite
    simp only [bne_iff_ne, ne_eq] at hfinite
    simp [hfinite]
  simp only [chars, FloatLayout.write, hfinite, hnumber, Bool.false_eq_true, if_false, if_true,
    String.toList_ofList]
  split
  · exact ⟨'-', _, rfl, Or.inl rfl⟩
  · exact beginsNumber_magnitude x

/-! ### Words and strings -/

theorem lexemes?_null_append (rest : List Char) :
    lexemes? ("null".toList ++ rest) = (lexemes? rest).map (.scalar null :: ·) :=
  lexemes?_of_scan (.cons rfl _) rfl

theorem lexemes?_boolean_append (value : Bool) (rest : List Char) :
    lexemes? ((boolean value).chars ++ rest) =
      (lexemes? rest).map (.scalar (boolean value) :: ·) := by
  cases value
  · exact lexemes?_of_scan (.cons rfl _) rfl
  · exact lexemes?_of_scan (.cons rfl _) rfl

theorem lexemes?_text_append (text : String) (rest : List Char) :
    lexemes? (textChars text ++ rest) = (lexemes? rest).map (.text (some text) :: ·) :=
  lexemes?_of_scan (.cons rfl _) (scanLexeme?_textChars text rest)

end SqlCompose.Json
