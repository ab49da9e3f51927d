import SqlCompose.Json.Number

/-!
The lexemes of JSON texts: brackets, braces and marks, strings, and the scalars that are neither.
Strings are first taken apart into plain characters and escaped UTF-16 units; units that form a
surrogate pair are joined afterwards, and a unit without its partner leaves the string unreadable.
Control characters are not allowed inside strings.
-/

set_option autoImplicit false
set_option relaxedAutoImplicit false

namespace SqlCompose.Json

/-! ### Strings -/

/-- A piece of a string: a character, or a UTF-16 unit given by its number. -/
inductive TextUnit
  | plain (character : Char)
  | escaped (unit : Nat)
deriving DecidableEq, Repr

/-- The character that a one-letter escape stands for. -/
def shortEscape? : Char → Option Char
  | '"' => some '"'
  | '\\' => some '\\'
  | '/' => some '/'
  | 'b' => some (Char.ofNat 8)
  | 'f' => some (Char.ofNat 12)
  | 'n' => some '\n'
  | 'r' => some '\r'
  | 't' => some '\t'
  | _ => none

/-- The number that four hexadecimal digits denote. -/
def unit? (first second third fourth : Char) : Option Nat := do
  pure (Text.valueOf 16
    [← Text.hexDigit? first, ← Text.hexDigit? second, ← Text.hexDigit? third,
      ← Text.hexDigit? fourth])

/-- The pieces of a string up to its closing quotation mark, and what follows that mark. -/
def scanText? : List Char → Option (List TextUnit × List Char)
  | [] => none
  | '"' :: rest => some ([], rest)
  | '\\' :: 'u' :: first :: second :: third :: fourth :: rest => do
    let unit ← unit? first second third fourth
    let (units, after) ← scanText? rest
    pure (.escaped unit :: units, after)
  | '\\' :: letter :: rest => do
    let character ← shortEscape? letter
    let (units, after) ← scanText? rest
    pure (.plain character :: units, after)
  | c :: rest =>
    if c = '\\' ∨ c.toNat < 0x20 then none
    else do
      let (units, after) ← scanText? rest
      pure (.plain c :: units, after)

/-- The first half of a surrogate pair. -/
def isHighSurrogate (unit : Nat) : Bool :=
  0xD800 ≤ unit && unit ≤ 0xDBFF

/-- The second half of a surrogate pair. -/
def isLowSurrogate (unit : Nat) : Bool :=
  0xDC00 ≤ unit && unit ≤ 0xDFFF

/-- The character beyond the first plane that a surrogate pair denotes. -/
def pairedCharacter (high low : Nat) : Char :=
  Char.ofNat (0x10000 + (high - 0xD800) * 0x400 + (low - 0xDC00))

/-- The characters of a string, unless a surrogate stands without its partner. -/
def characters? : List TextUnit → Option (List Char)
  | [] => some []
  | .plain c :: rest => (characters? rest).map (c :: ·)
  | .escaped unit :: rest =>
    if isHighSurrogate unit then
      match rest with
      | .escaped low :: others =>
        if isLowSurrogate low then (characters? others).map (pairedCharacter unit low :: ·)
        else none
      | _ => none
    else if isLowSurrogate unit then none
    else (characters? rest).map (Char.ofNat unit :: ·)

/-! ### Lexemes -/

/-- A lexeme. -/
inductive Lexeme
  | openBrace
  | closeBrace
  | openBracket
  | closeBracket
  | colon
  | comma
  /-- A string; without content when a surrogate stands alone in it. -/
  | text (content : Option String)
  /-- A number, a truth value or null. -/
  | scalar (value : Json)

/-- The four characters that may stand between lexemes. -/
def isBlank (c : Char) : Bool :=
  c == ' ' || c == '\t' || c == '\n' || c == '\r'

/-- The lexeme at the front of a text, and what follows it. -/
def scanLexeme? : List Char → Option (Lexeme × List Char)
  | '\x7b' :: rest => some (.openBrace, rest)
  | '\x7d' :: rest => some (.closeBrace, rest)
  | '[' :: rest => some (.openBracket, rest)
  | ']' :: rest => some (.closeBracket, rest)
  | ':' :: rest => some (.colon, rest)
  | ',' :: rest => some (.comma, rest)
  | '"' :: rest =>
    (scanText? rest).map fun (units, after) ↦
      (.text ((characters? units).map String.ofList), after)
  | 't' :: 'r' :: 'u' :: 'e' :: rest => some (.scalar (.boolean true), rest)
  | 'f' :: 'a' :: 'l' :: 's' :: 'e' :: rest => some (.scalar (.boolean false), rest)
  | 'n' :: 'u' :: 'l' :: 'l' :: rest => some (.scalar .null, rest)
  | text => (scanNumeral? text).map fun (numeral, after) ↦ (.scalar numeral.value, after)

/-! ### Progress

Every lexeme takes at least one character off the text, which is why taking lexemes one after the
other comes to an end. -/

theorem scanText?_length_lt {text : List Char} {units : List TextUnit} {after : List Char}
    (hscan : scanText? text = some (units, after)) : after.length < text.length := by
  fun_induction scanText? text generalizing units after with
  | case1 => simp at hscan
  | case2 rest => simp_all
  | case3 first second third fourth rest ih =>
    simp only [Option.bind_eq_bind, Option.bind_eq_some_iff, Option.pure_def, Option.some.injEq,
      Prod.mk.injEq] at hscan
    obtain ⟨_, _, ⟨inner, rest'⟩, hrest, _, rfl⟩ := hscan
    have := ih hrest
    simp only [List.length_cons]
    omega
  | case4 letter rest _ ih =>
    simp only [Option.bind_eq_bind, Option.bind_eq_some_iff, Option.pure_def, Option.some.injEq,
      Prod.mk.injEq] at hscan
    obtain ⟨_, _, ⟨inner, rest'⟩, hrest, _, rfl⟩ := hscan
    have := ih hrest
    simp only [List.length_cons]
    omega
  | case5 => simp at hscan
  | case6 c rest _ _ _ _ ih =>
    simp only [Option.bind_eq_bind, Option.bind_eq_some_iff, Option.pure_def, Option.some.injEq,
      Prod.mk.injEq] at hscan
    obtain ⟨⟨inner, rest'⟩, hrest, _, rfl⟩ := hscan
    have := ih hrest
    simp only [List.length_cons]
    omega

theorem scanExponent?_length_le {text after : List Char} {exponent : Int}
    (hscan : scanExponent? text = some (exponent, after)) : after.length ≤ text.length := by
  have hsign := Text.length_splitSign_le text
  have hdigits := Text.length_spanDigits (Text.splitSign text).2
  simp only [scanExponent?] at hscan
  by_cases hempty : (Text.spanDigits (Text.splitSign text).2).1.isEmpty
  · simp [hempty] at hscan
  · simp only [hempty, Bool.false_eq_true, if_false, Option.some.injEq, Prod.mk.injEq] at hscan
    rw [← hscan.2]
    omega

theorem scanScaled?_length_le {numeral result : Numeral} {text after : List Char}
    (hscan : scanScaled? numeral text = some (result, after)) : after.length ≤ text.length := by
  unfold scanScaled? at hscan
  split at hscan
  all_goals
    first
    | (simp only [Option.map_eq_some_iff, Prod.mk.injEq] at hscan
       obtain ⟨⟨exponent, rest⟩, hexponent, _, rfl⟩ := hscan
       have := scanExponent?_length_le hexponent
       simp only [List.length_cons]
       omega)
    | (simp only [Option.some.injEq, Prod.mk.injEq] at hscan
       simp [hscan.2])

theorem scanDecimals?_length_le {numeral result : Numeral} {text after : List Char}
    (hscan : scanDecimals? numeral text = some (result, after)) : after.length ≤ text.length := by
  by_cases hpoint : ∃ rest, text = '.' :: rest
  · obtain ⟨rest, rfl⟩ := hpoint
    have hdigits := Text.length_spanDigits rest
    simp only [scanDecimals?] at hscan
    by_cases hempty : (Text.spanDigits rest).1.isEmpty
    · simp [hempty] at hscan
    · simp only [hempty, Bool.false_eq_true, if_false] at hscan
      have hscaled := scanScaled?_length_le hscan
      simp only [List.length_cons]
      omega
  · rw [scanDecimals?] at hscan
    · exact scanScaled?_length_le hscan
    · exact fun rest heq ↦ hpoint ⟨rest, heq⟩

theorem scanUnsigned?_length_lt {negative : Bool} {result : Numeral} {text after : List Char}
    (hscan : scanUnsigned? negative text = some (result, after)) : after.length < text.length := by
  have hdigits := Text.length_spanDigits text
  simp only [scanUnsigned?] at hscan
  by_cases hempty : (Text.spanDigits text).1.isEmpty
  · simp [hempty] at hscan
  · have hpositive : 0 < (Text.spanDigits text).1.length := by
      rw [List.length_pos_iff]
      intro hnil
      simp [hnil] at hempty
    by_cases hzero : ((Text.spanDigits text).1.head? == some '0' &&
        (Text.spanDigits text).1.length != 1) = true
    · simp [hzero] at hscan
    · simp only [hempty, hzero, Bool.or_false, Bool.false_eq_true, if_false] at hscan
      have := scanDecimals?_length_le hscan
      omega

theorem scanNumeral?_length_lt {result : Numeral} {text after : List Char}
    (hscan : scanNumeral? text = some (result, after)) : after.length < text.length := by
  unfold scanNumeral? at hscan
  split at hscan
  · have := scanUnsigned?_length_lt hscan
    simp only [List.length_cons]
    omega
  · exact scanUnsigned?_length_lt hscan

theorem scanLexeme?_length_lt {text after : List Char} {lexeme : Lexeme}
    (hscan : scanLexeme? text = some (lexeme, after)) : after.length < text.length := by
  unfold scanLexeme? at hscan
  split at hscan
  all_goals
    first
    | (simp only [Option.some.injEq, Prod.mk.injEq] at hscan
       simp only [← hscan.2, List.length_cons]
       omega)
    | (simp only [Option.map_eq_some_iff, Prod.mk.injEq] at hscan
       obtain ⟨⟨units, rest⟩, htext, _, rfl⟩ := hscan
       have := scanText?_length_lt htext
       simp only [List.length_cons]
       omega)
    | (simp only [Option.map_eq_some_iff, Prod.mk.injEq] at hscan
       obtain ⟨⟨numeral, rest⟩, hnumeral, _, rfl⟩ := hscan
       exact scanNumeral?_length_lt hnumeral)

/-- The lexemes of a text. -/
def lexemes? (text : List Char) : Option (List Lexeme) :=
  match text with
  | [] => some []
  | c :: rest =>
    if isBlank c then lexemes? rest
    else
      match _hscan : scanLexeme? (c :: rest) with
      | none => none
      | some (lexeme, after) => (lexemes? after).map (lexeme :: ·)
termination_by text.length
decreasing_by
  · simp
  · exact scanLexeme?_length_lt _hscan

end SqlCompose.Json
