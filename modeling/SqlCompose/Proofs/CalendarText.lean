import Mathlib.Tactic.SplitIfs
import SqlCompose.Calendar.Interval
import SqlCompose.Calendar.Timestamp
import SqlCompose.Proofs.Numeral

/-!
Written dates and times determine what they were written for. Months, days, hours, minutes and
seconds have a fixed width, so reading takes exactly their digits; a year that is longer carries a
sign and ends at the next mark. The parts of a date and of a time of day are therefore read back one
after the other, and so are the two halves of a timestamp, whatever mark stands between them. The
components of an interval have no fixed width, but each of them ends at a mark.

One thing is not shown: a leap second inside a minute has the text of the second after it, and is
read as that (`TimeOfDay.asWritten`). Two times have the same text exactly if they are the same up
to this (`TimeOfDay.text_eq_iff`), and all other times are read back as they are
(`TimeOfDay.asWritten_eq_self_iff`).
-/

set_option autoImplicit false
set_option relaxedAutoImplicit false

namespace SqlCompose

/-! ### Numbers and marks -/

namespace Calendar

theorem isBlank_of_isDigit {c : Char} (hc : c.isDigit = true) : isBlank c = false := by
  obtain ⟨hlow, hhigh⟩ := Char.isDigit_iff_toNat.mp hc
  have hlow' : 48 ≤ c.toNat := hlow
  have hhigh' : c.toNat ≤ 57 := hhigh
  simp only [isBlank, Bool.or_eq_false_iff, Bool.and_eq_false_iff, decide_eq_false_iff_not,
    beq_eq_false_iff_ne]
  omega

theorem skipBlank_cons {c : Char} (hc : isBlank c = false) (rest : List Char) :
    skipBlank (c :: rest) = c :: rest :=
  List.dropWhile_cons_of_neg (by simp [hc])

theorem skipBlank_append {digits : List Char} (hdigits : IsDigits digits) (rest : List Char) :
    skipBlank (digits ++ rest) = digits ++ rest := by
  obtain ⟨digit, others, rfl, hdigit⟩ := hdigits.exists_cons
  exact skipBlank_cons (isBlank_of_isDigit hdigit) _

/-- A number of fixed width is read back, whatever follows. -/
theorem number?_padded {width number : Nat} (hwidth : 0 < width) (hlt : number < tenTo width)
    (rest : List Char) :
    number? width (Text.padded width number ++ rest) = some (number, rest) := by
  have hdigits := isDigits_padded width number
  have hlength := length_padded hwidth hlt
  have hwhile : (Text.padded width number).takeWhile Char.isDigit = Text.padded width number := by
    rw [← List.append_nil (Text.padded width number), List.takeWhile_append_of_pos hdigits.2]
    rfl
  have hnonempty : (Text.padded width number).isEmpty = false := by
    rw [List.isEmpty_eq_false_iff]
    exact hdigits.1
  simp only [number?, skipBlank_append hdigits, List.take_left' hlength, hwhile, hnonempty,
    Bool.false_eq_true, ↓reduceIte, decimalValue_padded, List.drop_left' rfl]

theorem mark?_cons {mark : Char} (hmark : isBlank mark = false) (rest : List Char) :
    mark? mark (mark :: rest) = some rest := by
  rw [mark?, skipBlank_cons hmark]
  exact if_pos rfl

/-- A number without a sign has the digits that it is asked for. -/
theorem signedNumber?_padded {width number : Nat} (hwidth : 0 < width)
    (hlt : number < tenTo width) (rest : List Char) :
    signedNumber? width (Text.padded width number ++ rest) = some ((number : Int), rest) := by
  have hnumber := number?_padded hwidth hlt rest
  have hskip := skipBlank_append (isDigits_padded width number) rest
  obtain ⟨digit, others, hpadded, hdigit⟩ := (isDigits_padded width number).exists_cons
  have hminus : digit ≠ '-' := ne_of_isDigit hdigit (by decide)
  have hplus : digit ≠ '+' := ne_of_isDigit hdigit (by decide)
  rw [hpadded, List.cons_append] at hnumber hskip ⊢
  rw [signedNumber?, hskip]
  simp [hminus, hplus, hnumber]

/-- A year is read back if something else than a digit follows. -/
theorem signedNumber?_yearText (year : Int) (rest : List Char)
    (hrest : Stops Char.isDigit rest) :
    signedNumber? 4 (Date.yearText year ++ rest) = some (year, rest) := by
  have hspan (number : Nat) := hrest.spanDigits_append (isDigits_padded 4 number).2
  have hnonempty (number : Nat) : (Text.padded 4 number).isEmpty = false := by
    rw [List.isEmpty_eq_false_iff]
    exact (isDigits_padded 4 number).1
  unfold Date.yearText
  split_ifs with hyear hnegative
  · have hfour : year.toNat < 10000 := by omega
    rw [signedNumber?_padded (by decide) hfour, Int.toNat_of_nonneg hyear.1]
  · have hskip : skipBlank ('-' :: Text.padded 4 year.natAbs ++ rest) =
        '-' :: (Text.padded 4 year.natAbs ++ rest) := rfl
    simp only [signedNumber?, hskip, hspan, hnonempty, decimalValue_padded, Bool.false_eq_true,
      ↓reduceIte, Option.map_some]
    rw [show -(year.natAbs : Int) = year by omega]
  · have hskip : skipBlank ('+' :: Text.padded 4 year.natAbs ++ rest) =
        '+' :: (Text.padded 4 year.natAbs ++ rest) := rfl
    simp only [signedNumber?, hskip, hspan, hnonempty, decimalValue_padded, Bool.false_eq_true,
      ↓reduceIte, Option.map_some]
    rw [show (year.natAbs : Int) = year by omega]

end Calendar

/-! ### Dates -/

namespace Date

theorem month_lt (date : Date) : date.month < 100 := by
  by_cases hmonth : date.month < 100
  · exact hmonth
  · have hdays : daysInMonth date.year date.month = 0 := by
      unfold daysInMonth
      split <;> omega
    have hday := date.day_pos
    have hlast := date.day_le
    omega

theorem day_lt (date : Date) : date.day < 100 := by
  have hdays : daysInMonth date.year date.month ≤ 31 := by
    unfold daysInMonth
    split <;> first | omega | (split <;> omega)
  have hlast := date.day_le
  omega

theorem ofParts?_self (date : Date) : ofParts? date.year date.month date.day = some date :=
  dif_pos ⟨date.year_ge, date.year_le, date.day_pos, date.day_le⟩

/-- A date is read back, whatever follows. -/
theorem scan?_text_append (date : Date) (rest : List Char) :
    scan? (date.text ++ rest) = some (date, rest) := by
  have hyear := Calendar.signedNumber?_yearText date.year
    ('-' :: (Text.padded 2 date.month ++ '-' :: (Text.padded 2 date.day ++ rest))) (by simp [Stops])
  have hmark (rest : List Char) : Calendar.mark? '-' ('-' :: rest) = some rest :=
    Calendar.mark?_cons (by decide) rest
  have hmonth := Calendar.number?_padded (by decide : 0 < 2) date.month_lt
  have hday := Calendar.number?_padded (by decide : 0 < 2) date.day_lt
  simp only [scan?, text, List.append_assoc, List.cons_append, hyear, hmark, hmonth, hday,
    ofParts?_self, Option.bind_eq_bind, Option.bind_some, Option.pure_def]

theorem text_append_inj {first second : Date} {rest other : List Char}
    (heq : first.text ++ rest = second.text ++ other) : first = second ∧ rest = other := by
  have hscans := congrArg scan? heq
  rw [scan?_text_append, scan?_text_append, Option.some.injEq, Prod.mk.injEq] at hscans
  exact hscans

theorem text_injective {first second : Date} (heq : first.text = second.text) :
    first = second := by
  have happend : first.text ++ [] = second.text ++ [] := by rw [heq]
  exact (text_append_inj happend).1

end Date

/-! ### Times of day -/

namespace TimeOfDay

theorem nanosecondsOf_padded {width number : Nat} (hwidth : 0 < width) (hnine : width ≤ 9)
    (hlt : number < tenTo width) :
    nanosecondsOf (Text.padded width number) = number * tenTo (9 - width) := by
  have hlength := length_padded hwidth hlt
  have htake : (Text.padded width number).take 9 = Text.padded width number :=
    List.take_of_length_le (by omega)
  simp only [nanosecondsOf, htake, decimalValue_padded, hlength]

/-- The fraction of a second is read back. -/
theorem scanFraction?_fractionText {nanosecond : Nat} (hlt : nanosecond < nanosecondsPerSecond) :
    scanFraction? (fractionText nanosecond) = some (nanosecond, []) := by
  unfold nanosecondsPerSecond at hlt
  have hpoint {width number : Nat} (hwidth : 0 < width) (hnine : width ≤ 9)
      (hnumber : number < tenTo width) (hvalue : number * tenTo (9 - width) = nanosecond) :
      scanFraction? ('.' :: Text.padded width number) = some (nanosecond, []) := by
    have hdigits := isDigits_padded width number
    have hend : Stops Char.isDigit [] := by simp [Stops]
    have hspan := hend.spanDigits_append hdigits.2
    have hnonempty : (Text.padded width number).isEmpty = false := by
      rw [List.isEmpty_eq_false_iff]
      exact hdigits.1
    rw [List.append_nil] at hspan
    simp only [scanFraction?, hspan, hnonempty, Bool.false_eq_true, ↓reduceIte,
      nanosecondsOf_padded hwidth hnine hnumber, hvalue]
  unfold fractionText
  split_ifs with hzero hmilli hmicro
  · rw [hzero]
    rfl
  · have hthree : nanosecond / 1000000 < 1000 := by omega
    have hvalue : nanosecond / 1000000 * 1000000 = nanosecond := by omega
    exact hpoint (by decide) (by decide) hthree hvalue
  · have hsix : nanosecond / 1000 < 1000000 := by omega
    have hvalue : nanosecond / 1000 * 1000 = nanosecond := by omega
    exact hpoint (by decide) (by decide) hsix hvalue
  · exact hpoint (by decide) (by decide) hlt (Nat.mul_one nanosecond)

/-- The time is no leap second inside a minute. -/
def LeapsAtEnd (time : TimeOfDay) : Prop :=
  nanosecondsPerSecond ≤ time.nanosecond → time.second = 59

/-- The time that the text shows: a leap second inside a minute is taken for the second after it. -/
def asWritten (time : TimeOfDay) : TimeOfDay :=
  if hleap : nanosecondsPerSecond ≤ time.nanosecond ∧ time.second ≠ 59 then
    { time with
      second := time.second + 1
      nanosecond := time.nanosecond - nanosecondsPerSecond
      second_lt := by have := time.second_lt; omega
      nanosecond_lt := by have := time.nanosecond_lt; omega }
  else time

theorem asWritten_eq_self_iff (time : TimeOfDay) : time.asWritten = time ↔ time.LeapsAtEnd := by
  unfold asWritten LeapsAtEnd
  split_ifs with hleap
  · refine iff_of_false (fun hself ↦ ?_) fun hend ↦ hleap.2 (hend hleap.1)
    have hsecond : time.second + 1 = time.second := congrArg TimeOfDay.second hself
    omega
  · exact iff_of_true rfl fun hlong ↦ Decidable.byContradiction fun hsecond ↦ hleap ⟨hlong, hsecond⟩

theorem leapsAtEnd_asWritten (time : TimeOfDay) : time.asWritten.LeapsAtEnd := by
  have hnanosecond := time.nanosecond_lt
  unfold asWritten
  split_ifs with hleap
  · intro hlong
    simp only at hlong
    omega
  · exact fun hlong ↦ Decidable.byContradiction fun hsecond ↦ hleap ⟨hlong, hsecond⟩

theorem text_asWritten (time : TimeOfDay) : time.asWritten.text = time.text := by
  have hnanosecond := time.nanosecond_lt
  unfold asWritten
  split_ifs with hleap
  · unfold text
    unfold nanosecondsPerSecond at hleap hnanosecond ⊢
    have hshown : time.second + 1 + (time.nanosecond - 1000000000) / 1000000000 =
        time.second + time.nanosecond / 1000000000 := by omega
    have hfraction : (time.nanosecond - 1000000000) % 1000000000 =
        time.nanosecond % 1000000000 := by omega
    simp only [hshown, hfraction]
  · rfl

/-- A time with its seconds written up to sixty, and its fraction, is the time itself. -/
theorem ofWrittenParts?_self {time : TimeOfDay} (hend : time.LeapsAtEnd) :
    ofWrittenParts? time.hour time.minute (time.second + time.nanosecond / nanosecondsPerSecond)
      (time.nanosecond % nanosecondsPerSecond) = some time := by
  have hself : ofParts? time.hour time.minute time.second time.nanosecond = some time :=
    dif_pos ⟨time.hour_lt, time.minute_lt, time.second_lt, time.nanosecond_lt, hend⟩
  have hsecond := time.second_lt
  have hnanosecond := time.nanosecond_lt
  unfold ofWrittenParts?
  by_cases hleap : nanosecondsPerSecond ≤ time.nanosecond
  · have hlast := hend hleap
    unfold nanosecondsPerSecond at hleap hnanosecond ⊢
    have hrest : time.nanosecond % 1000000000 + 1000000000 = time.nanosecond := by omega
    rw [if_pos (by omega), hrest, ← hlast]
    exact hself
  · unfold nanosecondsPerSecond at hleap ⊢
    rw [if_neg (by omega), Nat.div_eq_of_lt (by omega), Nat.mod_eq_of_lt (by omega)]
    exact hself

theorem scan?_text_of_leapsAtEnd {time : TimeOfDay} (hend : time.LeapsAtEnd) :
    scan? time.text = some (time, []) := by
  have hbounds := And.intro time.second_lt time.nanosecond_lt
  have hsixty : time.second + time.nanosecond / nanosecondsPerSecond < 100 := by
    unfold nanosecondsPerSecond at hbounds ⊢
    omega
  have hmark (rest : List Char) : Calendar.mark? ':' (':' :: rest) = some rest :=
    Calendar.mark?_cons (by decide) rest
  have htwo {number : Nat} (hlt : number < 100) (rest : List Char) :=
    Calendar.number?_padded (by decide : 0 < 2) hlt rest
  have hhour := htwo (Nat.lt_trans time.hour_lt (by decide))
  have hminute := htwo (Nat.lt_trans time.minute_lt (by decide))
  have hsecond := htwo hsixty
  have hfraction := scanFraction?_fractionText (Nat.mod_lt time.nanosecond (by decide))
  simp only [scan?, scanMinutes?, scanSeconds?, text, hhour, hmark, hminute, hsecond, hfraction,
    ofWrittenParts?_self hend, Option.bind_eq_bind, Option.bind_some, Option.pure_def]

/-- A time of day is read back as far as its text shows it. -/
theorem scan?_text (time : TimeOfDay) : scan? time.text = some (time.asWritten, []) := by
  rw [← text_asWritten, scan?_text_of_leapsAtEnd time.leapsAtEnd_asWritten]

theorem text_eq_iff {first second : TimeOfDay} :
    first.text = second.text ↔ first.asWritten = second.asWritten := by
  constructor
  · intro heq
    have hscans := congrArg scan? heq
    rw [scan?_text, scan?_text, Option.some.injEq, Prod.mk.injEq] at hscans
    exact hscans.1
  · intro heq
    rw [← text_asWritten first, heq, text_asWritten]

/-- The leap second after 23:56:04 is written like the fifth second of that minute. -/
example : text ⟨23, 56, 4, 1333333333, by decide, by decide, by decide, by decide⟩ =
    text ⟨23, 56, 5, 333333333, by decide, by decide, by decide, by decide⟩ := by decide

end TimeOfDay

/-! ### Timestamps and intervals -/

namespace Timestamp

/-- The moment is no leap second inside a minute. -/
def LeapsAtEnd (timestamp : Timestamp) : Prop :=
  timestamp.time.LeapsAtEnd

/-- The moment that the text shows. -/
def asWritten (timestamp : Timestamp) : Timestamp :=
  { timestamp with time := timestamp.time.asWritten }

theorem asWritten_eq_self_iff (timestamp : Timestamp) :
    timestamp.asWritten = timestamp ↔ timestamp.LeapsAtEnd := by
  rw [LeapsAtEnd, ← TimeOfDay.asWritten_eq_self_iff]
  exact ⟨congrArg Timestamp.time, congrArg (Timestamp.mk timestamp.date)⟩

theorem text_asWritten (separator : Char) (timestamp : Timestamp) :
    timestamp.asWritten.text separator = timestamp.text separator := by
  unfold text asWritten
  rw [TimeOfDay.text_asWritten]

theorem text_eq_iff {separator : Char} {first second : Timestamp} :
    first.text separator = second.text separator ↔ first.asWritten = second.asWritten := by
  constructor
  · intro heq
    obtain ⟨hdate, hrest⟩ := Date.text_append_inj heq
    have htime := TimeOfDay.text_eq_iff.mp (List.cons.inj hrest).2
    rw [asWritten, asWritten, hdate, htime]
  · intro heq
    rw [← text_asWritten separator first, heq, text_asWritten]

end Timestamp

theorem Interval.text_injective {first second : Interval} (heq : first.text = second.text) :
    first = second := by
  have hmark {mark : Char} (hmark : mark.isDigit = false) (rest : List Char) :
      Stops Char.isDigit (mark :: rest) := by simpa [Stops] using hmark
  simp only [text, List.cons.injEq, true_and] at heq
  rw [← List.append_nil (Text.signedDecimal first.seconds.toInt),
    ← List.append_nil (Text.signedDecimal second.seconds.toInt)] at heq
  obtain ⟨hyears, hrest⟩ := signedDecimal_append_inj (hmark rfl _) (hmark rfl _) heq
  obtain ⟨hmonths, hrest⟩ :=
    signedDecimal_append_inj (hmark rfl _) (hmark rfl _) (List.cons.inj hrest).2
  obtain ⟨hdays, hrest⟩ :=
    signedDecimal_append_inj (hmark rfl _) (hmark rfl _) (List.cons.inj hrest).2
  obtain ⟨hhours, hrest⟩ :=
    signedDecimal_append_inj (hmark rfl _) (hmark rfl _) (List.cons.inj hrest).2
  obtain ⟨hminutes, hrest⟩ :=
    signedDecimal_append_inj (hmark rfl _) (hmark rfl _) (List.cons.inj hrest).2
  obtain ⟨hseconds, -⟩ := signedDecimal_append_inj (by simp [Stops]) (by simp [Stops])
    (List.cons.inj hrest).2
  cases first
  cases second
  rw [Interval.mk.injEq]
  exact ⟨Int32.toInt_inj.mp hyears, Int32.toInt_inj.mp hmonths, Int32.toInt_inj.mp hdays,
    Int32.toInt_inj.mp hhours, Int32.toInt_inj.mp hminutes, Int32.toInt_inj.mp hseconds⟩

end SqlCompose
