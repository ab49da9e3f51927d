import SqlCompose.Dialect
import SqlCompose.Proofs.Lexeme
import SqlCompose.Proofs.Numeral

/-!
What the spelling of a single token is to a lexer. `Token.lexemes` says which lexemes a token stands
for: a name or a text is one quoted lexeme with exactly its content, bytes are one quoted text of
hexadecimal digits, a typed literal is its keyword and a quoted text, a negative number is a minus
sign and a numeral. `lexemes_spell_append` shows that the PostgreSQL spelling of a lexical token is
read as these lexemes whenever the character after it is not one that its last lexeme would take
in.
-/

set_option autoImplicit false
set_option relaxedAutoImplicit false

namespace SqlCompose

/-! ### Words and symbols -/

namespace Lexeme

/-- A text that is a word. -/
def isWord : List Char → Bool
  | [] => false
  | c :: rest => startsWord c && rest.all continuesWord

/-- A text that is an operator as a whole. -/
def isSymbol (text : List Char) : Bool :=
  !text.isEmpty && (scanOperator text).2.isEmpty

/-- The lexeme of a text that is written as it stands: a word or an operator. -/
def ofVerbatim (text : List Char) : Lexeme :=
  if isWord text then .word text else .operator text

/-- A character that would belong to a number before it. -/
def continuesNumber (c : Char) : Bool :=
  c.isDigit || c == '.' || c == 'e' || c == 'E'

/-- The lexemes of a number: its minus sign, if it has one, and the numeral. -/
def ofNumber : List Char → List Lexeme
  | '-' :: numeral => [.operator ['-'], .number numeral]
  | numeral => [.number numeral]

end Lexeme

/-- A name that can stand in a statement without quotation marks. -/
def IsPlainName (name : String) : Prop :=
  Lexeme.isWord name.toList = true

/-- The lexemes of a keyword; some keywords consist of two words. -/
def Keyword.lexemes : Keyword → List Lexeme
  | groupBy => [.word "GROUP".toList, .word "BY".toList]
  | orderBy => [.word "ORDER".toList, .word "BY".toList]
  | forUpdate => [.word "FOR".toList, .word "UPDATE".toList]
  | word => [.word word.text.toList]

/-- The lexemes of a type name. -/
def ValueType.lexemes : ValueType → List Lexeme
  | .array element => element.lexemes ++ [.mark ['['], .mark [']']]
  | type => [.word (Dialect.postgresTypeName type).toList]

/-- The lexemes that a token stands for. -/
def Token.lexemes : Token → List Lexeme
  | .keyword word => word.lexemes
  | .comma => [.mark [',']]
  | .dot => [.mark ['.']]
  | .star => [.operator ['*']]
  | .openParen => [.mark ['(']]
  | .closeParen => [.mark [')']]
  | .openBracket => [.mark ['[']]
  | .closeBracket => [.mark [']']]
  | .cast => [.mark [':', ':']]
  | .equal => [.operator ['=']]
  | .notEqual => [.operator ['!', '=']]
  | .divide => [.operator ['/']]
  | .operator symbol => [.ofVerbatim symbol.toList]
  | .space => []
  | .newline => []
  | .identifier name => [.quotedName name.toList]
  | .integer value => Lexeme.ofNumber (Text.signedDecimal value.toInt)
  | .count value => [.number (Text.decimal value.toNat)]
  | .float value => Lexeme.ofNumber (FloatLayout.statement.write value).toList
  | .decimal value => Lexeme.ofNumber (Dialect.decimalText value).toList
  | .text value => [.quotedText value.toList]
  | .boolean value => [.word (booleanWord value).toList]
  | .null => [.word "NULL".toList]
  | .bytes value => [.quotedText ('\\' :: 'x' :: Text.hexBytes value)]
  | .typed heading content => [.word heading.toList, .quotedText content.toList]
  | .typeName type => type.lexemes
  | .functionName name => [.ofVerbatim name.toList]
  | .verbatim content => SqlCompose.lexemes content.toList

/-- A token whose spelling is fixed by the rules of lexemes: symbols and function names are words or
operators, doubles are finite, and no text is taken over as it stands. -/
def Token.IsLexical : Token → Prop
  | .operator symbol => Lexeme.isWord symbol.toList ∨ Lexeme.isSymbol symbol.toList
  | .functionName name => Lexeme.isWord name.toList ∨ Lexeme.isSymbol name.toList
  | .typed heading _ => Lexeme.isWord heading.toList
  | .float value => value.isFinite = true
  | .verbatim _ => False
  | _ => True

/-- Whether the last lexeme of a token would take in a character that follows it directly. -/
def Token.takesIn (token : Token) (c : Char) : Bool :=
  match token with
  | .comma | .openParen | .closeParen | .openBracket | .closeBracket | .cast | .space | .newline =>
    false
  | .dot => c.isDigit
  | .star | .equal | .notEqual | .divide => Lexeme.isOperatorChar c
  | .identifier _ => c == '"'
  | .text _ | .bytes _ | .typed _ _ => c == '\''
  | .integer _ | .count _ | .float _ | .decimal _ => Lexeme.continuesNumber c
  | .operator written | .functionName written =>
    if Lexeme.isWord written.toList then Lexeme.continuesWord c else Lexeme.isOperatorChar c
  | .keyword _ | .boolean _ | .null | .typeName _ | .verbatim _ => Lexeme.continuesWord c

/-! ### Reading one lexeme off the front of a text -/

namespace Lexeme

theorem lexemes_of_isBlank {c : Char} (hblank : isBlank c = true) (rest : List Char) :
    lexemes (c :: rest) = lexemes rest := by
  rw [lexemes, if_pos hblank]

theorem lexemes_of_scan {c : Char} {rest after : List Char} {lexeme : Lexeme}
    (hblank : isBlank c = false) (hscan : scan c rest = (lexeme, after)) :
    lexemes (c :: rest) = lexeme :: lexemes after := by
  rw [lexemes, if_neg (by simp [hblank]), hscan]

theorem startsWord_not_blank {c : Char} (hstarts : startsWord c = true) :
    isBlank c = false ∧ c ≠ '"' ∧ c ≠ '\'' := by
  refine ⟨?_, ?_, ?_⟩
  · cases hblank : isBlank c with
    | false => rfl
    | true =>
      simp only [isBlank, Bool.or_eq_true, beq_iff_eq] at hblank
      rcases hblank with (((rfl | rfl) | rfl) | rfl) | rfl <;> revert hstarts <;> decide
  · rintro rfl
    revert hstarts
    decide
  · rintro rfl
    revert hstarts
    decide

theorem lexemes_word_append {text rest : List Char} (hword : isWord text = true)
    (hrest : Stops continuesWord rest) : lexemes (text ++ rest) = .word text :: lexemes rest := by
  cases text with
  | nil => cases hword
  | cons c text =>
    simp only [isWord, Bool.and_eq_true, List.all_eq_true] at hword
    obtain ⟨hblank, hname, htext⟩ := startsWord_not_blank hword.1
    rw [List.cons_append]
    refine lexemes_of_scan hblank ?_
    rw [scan, if_neg hname, if_neg htext, if_pos hword.1, hrest.takeWhile_append hword.2,
      hrest.dropWhile_append hword.2]

theorem scanQuoted_doubled_append {mark : Char} {rest : List Char} (hrest : Stops (· == mark) rest)
    (content : List Char) :
    scanQuoted mark (Text.doubled mark content ++ mark :: rest) = some (content, rest) := by
  induction content with
  | nil =>
    cases rest with
    | nil => simp [Text.doubled, scanQuoted]
    | cons d rest =>
      have hd := hrest d rfl
      simp only [beq_eq_false_iff_ne] at hd
      simp [Text.doubled, scanQuoted, hd]
  | cons c content ih =>
    rw [Text.doubled]
    split_ifs with hc
    · simp only [List.cons_append, scanQuoted, ne_eq, not_true_eq_false, ↓reduceIte, ih, hc,
        Option.map_some]
    · obtain ⟨d, tail, htail⟩ : ∃ d tail,
          Text.doubled mark content ++ mark :: rest = d :: tail := by
        cases Text.doubled mark content <;> simp
      rw [List.cons_append, htail, scanQuoted, if_pos hc, ← htail, ih, Option.map_some]

theorem scanQuotation_doubled_append {mark : Char} {rest : List Char}
    (hrest : Stops (· == mark) rest) (lexeme : List Char → Lexeme) (content : List Char) :
    scanQuotation mark lexeme (Text.doubled mark content ++ mark :: rest) =
      (lexeme content, rest) := by
  rw [scanQuotation, scanQuoted_doubled_append hrest]

theorem lexemes_quotedName_append {content rest : List Char} (hrest : Stops (· == '"') rest) :
    lexemes ('"' :: (Text.doubled '"' content ++ '"' :: rest)) =
      .quotedName content :: lexemes rest :=
  lexemes_of_scan (by decide) (by rw [scan, if_pos rfl, scanQuotation_doubled_append hrest])

theorem lexemes_quotedText_append {content rest : List Char} (hrest : Stops (· == '\'') rest) :
    lexemes ('\'' :: (Text.doubled '\'' content ++ '\'' :: rest)) =
      .quotedText content :: lexemes rest :=
  lexemes_of_scan (by decide)
    (by rw [scan, if_neg (by decide), if_pos rfl, scanQuotation_doubled_append hrest])

/-! ### Numbers -/

theorem isDigit_not_startsWord {c : Char} (hdigit : c.isDigit = true) :
    isBlank c = false ∧ c ≠ '"' ∧ c ≠ '\'' ∧ c ≠ '.' ∧ startsWord c = false := by
  have hbounds : 48 ≤ c.toNat ∧ c.toNat ≤ 57 := by
    simp only [Char.isDigit, Bool.and_eq_true, decide_eq_true_eq] at hdigit
    exact hdigit
  have hne (d : Char) (hd : d.toNat < 48 ∨ 57 < d.toNat) : c ≠ d := by
    rintro rfl
    omega
  have halpha : c.isAlpha = false := by
    refine Bool.or_eq_false_iff.mpr ⟨?_, ?_⟩
    · have hupper : ¬ (65 ≤ c.toNat ∧ c.toNat ≤ 90) := by omega
      exact decide_eq_false hupper
    · have hlower : ¬ 97 ≤ c.toNat := by omega
      exact Bool.and_eq_false_iff.mpr (Or.inl (decide_eq_false hlower))
  refine ⟨?_, hne _ (by decide), hne _ (by decide), hne _ (by decide), ?_⟩
  · simp only [isBlank, Bool.or_eq_false_iff, beq_eq_false_iff_ne]
    exact ⟨⟨⟨⟨hne _ (by decide), hne _ (by decide)⟩, hne _ (by decide)⟩, hne _ (by decide)⟩,
      hne _ (by decide)⟩
  · simp only [startsWord, halpha, Bool.false_or, Bool.or_eq_false_iff, beq_eq_false_iff_ne,
      decide_eq_false_iff_not, Nat.not_le]
    exact ⟨hne _ (by decide), by omega⟩

theorem scanExponent_append {exponent rest : List Char} (hrest : Stops continuesNumber rest)
    (hexponent : exponent = [] ∨ ∃ sign digits, (sign = [] ∨ sign = ['-']) ∧ IsDigits digits ∧
      exponent = 'e' :: (sign ++ digits)) :
    scanExponent (exponent ++ rest) = (exponent, rest) := by
  rcases hexponent with rfl | ⟨sign, digits, hsign, hdigits, rfl⟩
  · cases rest with
    | nil => rfl
    | cons c rest =>
      have hc := hrest c rfl
      simp only [continuesNumber, Bool.or_eq_false_iff] at hc
      simp [scanExponent, hc.1.2, hc.2]
  · have hspan : Text.spanDigits (digits ++ rest) = (digits, rest) :=
      (hrest.mono fun c hc ↦ by simp [continuesNumber, hc]).spanDigits_append hdigits.2
    have hscan : scanSign (sign ++ (digits ++ rest)) = (sign, digits ++ rest) := by
      rcases hsign with rfl | rfl
      · obtain ⟨digit, others, rfl, hdigit⟩ := hdigits.exists_cons
        have hminus : digit ≠ '-' := ne_of_isDigit hdigit (by decide)
        have hplus : digit ≠ '+' := ne_of_isDigit hdigit (by decide)
        simp [scanSign, hminus, hplus]
      · rfl
    simp [scanExponent, hscan, hspan, hdigits.1]

theorem scanFraction_append {fraction rest : List Char} (hpoint : Stops (· == '.') rest)
    (hrest : Stops Char.isDigit rest)
    (hfraction : fraction = [] ∨ ∃ digits, IsDigits digits ∧ fraction = '.' :: digits) :
    scanFraction (fraction ++ rest) = (fraction, rest) := by
  rcases hfraction with rfl | ⟨digits, hdigits, rfl⟩
  · rw [List.nil_append, scanFraction]
    rintro behind rfl
    exact absurd (hpoint '.' rfl) (by decide)
  · simp only [List.cons_append, scanFraction, hrest.spanDigits_append hdigits.2]

theorem scanNumber_append {text rest : List Char} (hnumeral : IsNumeral text)
    (hrest : Stops continuesNumber rest) : scanNumber (text ++ rest) = (text, rest) := by
  obtain ⟨whole, fraction, exponent, rfl, hwhole, hfraction, hexponent⟩ := hnumeral
  have hafter (inClass : Char → Bool) (he : inClass 'e' = false)
      (himp : ∀ c, inClass c = true → continuesNumber c = true) :
      Stops inClass (exponent ++ rest) := by
    rcases hexponent with rfl | ⟨sign, digits, -, -, rfl⟩
    · exact hrest.mono himp
    · intro c hc
      cases hc
      exact he
  have hpoint : Stops (· == '.') (exponent ++ rest) :=
    hafter _ rfl fun c hc ↦ by simp [continuesNumber, beq_iff_eq.mp hc]
  have hdigit : Stops Char.isDigit (exponent ++ rest) :=
    hafter _ rfl fun c hc ↦ by simp [continuesNumber, hc]
  have hwholeStops : Stops Char.isDigit (fraction ++ (exponent ++ rest)) := by
    rcases hfraction with rfl | ⟨digits, -, rfl⟩
    · exact hdigit
    · intro c hc
      cases hc
      rfl
  simp only [scanNumber, List.append_assoc, hwholeStops.spanDigits_append hwhole.2,
    scanFraction_append hpoint hdigit hfraction, scanExponent_append hrest hexponent]

theorem lexemes_numeral_append {text rest : List Char} (hnumeral : IsNumeral text)
    (hrest : Stops continuesNumber rest) :
    lexemes (text ++ rest) = .number text :: lexemes rest := by
  have hscan := scanNumber_append hnumeral hrest
  obtain ⟨whole, fraction, exponent, htext, hwhole, -, -⟩ := hnumeral
  obtain ⟨c, tail, rfl, hdigit⟩ := hwhole.exists_cons
  rw [List.cons_append] at htext
  subst htext
  obtain ⟨hblank, hname, hquote, hpoint, hword⟩ := isDigit_not_startsWord hdigit
  rw [List.cons_append] at hscan ⊢
  have hstarts : startsNumber (c :: (tail ++ (fraction ++ exponent) ++ rest)) = true := by
    rw [startsNumber_cons hpoint, hdigit]
  refine lexemes_of_scan hblank ?_
  rw [scan, if_neg hname, if_neg hquote, if_neg (by simp [hword]), if_pos hstarts, hscan]

/-! ### Operators and marks -/

theorem isOperatorChar_not_startsWord {c : Char} (hoperator : isOperatorChar c = true) :
    isBlank c = false ∧ c ≠ '"' ∧ c ≠ '\'' ∧ startsWord c = false ∧ c.isDigit = false ∧
      c ≠ '.' := by
  have hall : (operatorChars.all fun c ↦ decide (isBlank c = false ∧ c ≠ '"' ∧ c ≠ '\'' ∧
      startsWord c = false ∧ c.isDigit = false ∧ c ≠ '.')) = true := by decide
  exact of_decide_eq_true (List.all_eq_true.mp hall c (List.contains_iff_mem.mp hoperator))

theorem opensComment_cons_cons (c d : Char) (rest : List Char) :
    opensComment (c :: d :: rest) = (c == '-' && d == '-' || c == '/' && d == '*') := by
  by_cases hline : c = '-' ∧ d = '-'
  · simp [hline, opensComment]
  · by_cases hblock : c = '/' ∧ d = '*'
    · simp [hblock, opensComment]
    · rw [opensComment]
      · simpa using ⟨not_and.mp hline, not_and.mp hblock⟩
      · simpa using hline
      · simpa using hblock

/-- Only two operator characters together can open a comment. -/
theorem opensComment_append {c : Char} {text rest : List Char}
    (hopens : opensComment (c :: text) = false) (hrest : Stops isOperatorChar rest) :
    opensComment (c :: (text ++ rest)) = false := by
  cases text with
  | nil =>
    cases rest with
    | nil => exact hopens
    | cons d rest =>
      have hother (mark : Char) (hmark : isOperatorChar mark = true) : d ≠ mark := by
        rintro rfl
        rw [hrest d rfl] at hmark
        cases hmark
      have hminus : d ≠ '-' := hother '-' (by decide)
      have hstar : d ≠ '*' := hother '*' (by decide)
      simp [opensComment_cons_cons, hminus, hstar]
  | cons d text =>
    rw [opensComment_cons_cons] at hopens
    rw [List.cons_append, opensComment_cons_cons, hopens]

theorem scanOperator_append {text rest : List Char} (htext : (scanOperator text).2 = [])
    (hrest : Stops isOperatorChar rest) : scanOperator (text ++ rest) = (text, rest) := by
  induction text with
  | nil =>
    cases rest with
    | nil => rfl
    | cons c rest =>
      have hc := hrest c rfl
      simp [scanOperator, hc]
  | cons c text ih =>
    rw [scanOperator] at htext
    split_ifs at htext with hc
    rw [Bool.and_eq_true, Bool.not_eq_true'] at hc
    have hopens := opensComment_append hc.2 hrest
    rw [List.cons_append, scanOperator, if_pos (by simp [hc.1, hopens]), ih htext]

theorem exists_cons_of_isSymbol {text : List Char} (hsymbol : isSymbol text = true) :
    ∃ c rest, text = c :: rest ∧ isOperatorChar c = true ∧ opensComment text = false ∧
      (scanOperator text).2 = [] := by
  simp only [isSymbol, Bool.and_eq_true, Bool.not_eq_true', List.isEmpty_eq_false_iff,
    List.isEmpty_iff] at hsymbol
  obtain ⟨c, rest, rfl⟩ := List.exists_cons_of_ne_nil hsymbol.1
  have hscan := hsymbol.2
  rw [scanOperator] at hscan
  split_ifs at hscan with hc
  rw [Bool.and_eq_true, Bool.not_eq_true'] at hc
  exact ⟨c, rest, rfl, hc.1, hc.2, hsymbol.2⟩

theorem isWord_of_isSymbol {text : List Char} (hsymbol : isSymbol text = true) :
    isWord text = false := by
  obtain ⟨c, rest, rfl, hc, -, -⟩ := exists_cons_of_isSymbol hsymbol
  rw [isWord, (isOperatorChar_not_startsWord hc).2.2.2.1, Bool.false_and]

theorem lexemes_symbol_append {text rest : List Char} (hsymbol : isSymbol text = true)
    (hrest : Stops isOperatorChar rest) :
    lexemes (text ++ rest) = .operator text :: lexemes rest := by
  obtain ⟨c, tail, rfl, hoperator, hcomment, hscanned⟩ := exists_cons_of_isSymbol hsymbol
  obtain ⟨hblank, hname, hquote, hword, hdigit, hpoint⟩ := isOperatorChar_not_startsWord hoperator
  have hscan := scanOperator_append hscanned hrest
  have hopens := opensComment_append hcomment hrest
  have hnumber : startsNumber (c :: (tail ++ rest)) = false := by
    rw [startsNumber_cons hpoint, hdigit]
  rw [List.cons_append] at hscan ⊢
  refine lexemes_of_scan hblank ?_
  rw [scan, if_neg hname, if_neg hquote, if_neg (by simp [hword]), if_neg (by simp [hnumber]),
    if_neg (by simp [hopens]), if_pos hoperator, hscan]

theorem lexemes_mark_append {c : Char} (hmark : c ∈ [',', '(', ')', '[', ']'])
    (rest : List Char) : lexemes (c :: rest) = .mark [c] :: lexemes rest := by
  simp only [List.mem_cons, List.not_mem_nil, or_false] at hmark
  rcases hmark with rfl | rfl | rfl | rfl | rfl <;> exact lexemes_of_scan rfl rfl

theorem lexemes_cast_append (rest : List Char) :
    lexemes (':' :: ':' :: rest) = .mark [':', ':'] :: lexemes rest :=
  lexemes_of_scan rfl rfl

/-- A point is a mark of its own unless a digit follows. -/
theorem lexemes_dot_append {rest : List Char} (hrest : Stops Char.isDigit rest) :
    lexemes ('.' :: rest) = .mark ['.'] :: lexemes rest := by
  refine lexemes_of_scan rfl ?_
  cases rest with
  | nil => rfl
  | cons d rest =>
    have hnumber : startsNumber ('.' :: d :: rest) = false := hrest d rfl
    rw [scan, if_neg (by decide), if_neg (by decide), if_neg (by decide),
      if_neg (by simp [hnumber])]
    rfl

/-! ### Numbers with their sign and texts written as they stand -/

theorem IsNumeral.exists_digit_cons {text : List Char} (hnumeral : IsNumeral text) :
    ∃ c rest, text = c :: rest ∧ c.isDigit = true := by
  obtain ⟨whole, fraction, exponent, rfl, hwhole, -, -⟩ := hnumeral
  obtain ⟨digit, others, rfl, hdigit⟩ := hwhole.exists_cons
  exact ⟨digit, others ++ (fraction ++ exponent), rfl, hdigit⟩

theorem ofNumber_of_isNumeral {text : List Char} (hnumeral : IsNumeral text) :
    ofNumber text = [.number text] := by
  obtain ⟨c, rest, rfl, hdigit⟩ := IsNumeral.exists_digit_cons hnumeral
  have hminus : c ≠ '-' := ne_of_isDigit hdigit (by decide)
  simp [ofNumber, hminus]

theorem lexemes_number_append {negative : Bool} {text rest : List Char}
    (hnumber : IsSignedNumeral negative text) (hrest : Stops continuesNumber rest) :
    lexemes (text ++ rest) = ofNumber text ++ lexemes rest := by
  obtain ⟨numeral, hnumeral, rfl⟩ := hnumber
  have hlexemes := lexemes_numeral_append hnumeral hrest
  cases negative with
  | false =>
    rw [if_neg (by decide), hlexemes, ofNumber_of_isNumeral hnumeral]
    rfl
  | true =>
    obtain ⟨c, tail, rfl, hdigit⟩ := IsNumeral.exists_digit_cons hnumeral
    have hstops : Stops isOperatorChar (c :: tail ++ rest) := by
      intro d hd
      cases hd
      cases hoperator : isOperatorChar c with
      | false => rfl
      | true =>
        rw [(isOperatorChar_not_startsWord hoperator).2.2.2.2.1] at hdigit
        cases hdigit
    have hsign : lexemes (['-'] ++ (c :: tail ++ rest)) = _ := lexemes_symbol_append rfl hstops
    rw [hlexemes] at hsign
    exact hsign

theorem lexemes_verbatim_append {text rest : List Char}
    (htext : isWord text = true ∨ isSymbol text = true)
    (hrest : Stops (fun c ↦ if isWord text then continuesWord c else isOperatorChar c) rest) :
    lexemes (text ++ rest) = ofVerbatim text :: lexemes rest := by
  unfold ofVerbatim
  by_cases hword : isWord text = true
  · simp only [hword, ↓reduceIte] at hrest ⊢
    exact lexemes_word_append hword hrest
  · simp only [hword, Bool.false_eq_true, ↓reduceIte] at hrest ⊢
    exact lexemes_symbol_append (htext.resolve_left hword) hrest

end Lexeme

/-! ### The spelling of a token -/

theorem doubled_of_not_mem {mark : Char} {content : List Char} (hmark : mark ∉ content) :
    Text.doubled mark content = content := by
  induction content with
  | nil => rfl
  | cons c content ih =>
    rw [List.mem_cons, not_or] at hmark
    rw [Text.doubled, if_neg (Ne.symm hmark.1), ih hmark.2]

theorem quote_not_mem_hexBytes (bytes : List UInt8) : '\'' ∉ Text.hexBytes bytes := by
  have hdigit : ∀ digit < 16, Nat.digitChar digit ≠ '\'' := by decide
  intro hmem
  obtain ⟨byte, -, hbyte⟩ := List.mem_flatMap.mp hmem
  have hlow : byte.toNat < 256 := byte.toNat_lt
  simp only [Text.hexByte, List.mem_cons, List.not_mem_nil, or_false] at hbyte
  rcases hbyte with hhigh | hlast
  · exact hdigit _ (by omega) hhigh.symm
  · exact hdigit _ (by omega) hlast.symm

theorem Keyword.lexemes_text_append (heading : Keyword) {rest : List Char}
    (hrest : Stops Lexeme.continuesWord rest) :
    SqlCompose.lexemes (heading.text.toList ++ rest) =
      heading.lexemes ++ SqlCompose.lexemes rest := by
  have htwo (first second : String) (hfirst : Lexeme.isWord first.toList = true)
      (hsecond : Lexeme.isWord second.toList = true) :
      SqlCompose.lexemes (first.toList ++ ' ' :: (second.toList ++ rest)) =
        [.word first.toList, .word second.toList] ++ SqlCompose.lexemes rest := by
    rw [Lexeme.lexemes_word_append hfirst (.cons rfl _),
      Lexeme.lexemes_of_isBlank rfl, Lexeme.lexemes_word_append hsecond hrest]
    rfl
  cases heading with
  | groupBy => exact htwo "GROUP" "BY" (by decide) (by decide)
  | orderBy => exact htwo "ORDER" "BY" (by decide) (by decide)
  | forUpdate => exact htwo "FOR" "UPDATE" (by decide) (by decide)
  | _ => exact Lexeme.lexemes_word_append (by decide) hrest

theorem ValueType.lexemes_typeName_append (type : ValueType) {rest : List Char}
    (hrest : Stops Lexeme.continuesWord rest) :
    SqlCompose.lexemes ((Dialect.postgresTypeName type).toList ++ rest) =
      type.lexemes ++ SqlCompose.lexemes rest := by
  induction type generalizing rest with
  | array element ih =>
    have hbrackets : (Dialect.postgresTypeName (.array element)).toList ++ rest =
        (Dialect.postgresTypeName element).toList ++ '[' :: ']' :: rest := by
      rw [Dialect.postgresTypeName, String.toList_append, List.append_assoc]
      rfl
    rw [hbrackets, ih (.cons rfl _), Lexeme.lexemes_mark_append (by decide),
      Lexeme.lexemes_mark_append (by decide), ValueType.lexemes, List.append_assoc]
    rfl
  | _ => exact Lexeme.lexemes_word_append (by decide) hrest

/-- The PostgreSQL spelling of a lexical token is read as the lexemes of the token, whatever follows
it, as long as that does not begin with a character that would be taken in. -/
theorem lexemes_spell_append {token : Token} (hlexical : token.IsLexical) {rest : List Char}
    (hrest : Stops token.takesIn rest) :
    lexemes ((Dialect.postgres.spell token).toList ++ rest) = token.lexemes ++ lexemes rest := by
  cases token with
  | keyword heading => exact heading.lexemes_text_append hrest
  | comma => exact Lexeme.lexemes_mark_append (by decide) rest
  | dot => exact Lexeme.lexemes_dot_append hrest
  | star => exact Lexeme.lexemes_symbol_append rfl hrest
  | openParen => exact Lexeme.lexemes_mark_append (by decide) rest
  | closeParen => exact Lexeme.lexemes_mark_append (by decide) rest
  | openBracket => exact Lexeme.lexemes_mark_append (by decide) rest
  | closeBracket => exact Lexeme.lexemes_mark_append (by decide) rest
  | cast => exact Lexeme.lexemes_cast_append rest
  | equal => exact Lexeme.lexemes_symbol_append rfl hrest
  | notEqual => exact Lexeme.lexemes_symbol_append rfl hrest
  | divide => exact Lexeme.lexemes_symbol_append rfl hrest
  | operator symbol => exact Lexeme.lexemes_verbatim_append hlexical hrest
  | space => exact Lexeme.lexemes_of_isBlank rfl rest
  | newline => exact Lexeme.lexemes_of_isBlank rfl rest
  | identifier name =>
    have hquoted : (Dialect.postgres.spell (.identifier name)).toList ++ rest =
        '"' :: (Text.doubled '"' name.toList ++ '"' :: rest) := by
      simp [Dialect.spell, Dialect.postgres, Text.quoted]
    rw [hquoted, Lexeme.lexemes_quotedName_append hrest]
    rfl
  | integer value =>
    rw [Dialect.spell, String.toList_ofList]
    exact Lexeme.lexemes_number_append (isSignedNumeral_signedDecimal _) hrest
  | count value =>
    rw [Dialect.spell, String.toList_ofList]
    exact Lexeme.lexemes_numeral_append (isDigits_decimal _).isNumeral hrest
  | float value =>
    exact Lexeme.lexemes_number_append (FloatLayout.isSignedNumeral_write hlexical) hrest
  | decimal value => exact Lexeme.lexemes_number_append (isSignedNumeral_decimalText value) hrest
  | text value =>
    have hquoted : (Dialect.postgres.spell (.text value)).toList ++ rest =
        '\'' :: (Text.doubled '\'' value.toList ++ '\'' :: rest) := by
      simp [Dialect.spell, Dialect.postgres, Text.quoted]
    rw [hquoted, Lexeme.lexemes_quotedText_append hrest]
    rfl
  | boolean value =>
    refine Lexeme.lexemes_word_append ?_ hrest
    cases value <;> decide
  | null => exact Lexeme.lexemes_word_append (by decide) hrest
  | bytes value =>
    have hplain : '\'' ∉ '\\' :: 'x' :: Text.hexBytes value := by
      simp [quote_not_mem_hexBytes]
    have hquoted : (Dialect.postgres.spell (.bytes value)).toList ++ rest =
        '\'' :: (Text.doubled '\'' ('\\' :: 'x' :: Text.hexBytes value) ++ '\'' :: rest) := by
      rw [doubled_of_not_mem hplain]
      simp [Dialect.spell, Dialect.postgres, quotedBytes]
    rw [hquoted, Lexeme.lexemes_quotedText_append hrest]
    rfl
  | typed heading content =>
    have hquoted : (Dialect.postgres.spell (.typed heading content)).toList ++ rest =
        heading.toList ++
          ' ' :: '\'' :: (Text.doubled '\'' content.toList ++ '\'' :: rest) := by
      simp [Dialect.spell, Dialect.postgres, Text.quoted]
    rw [hquoted, Lexeme.lexemes_word_append hlexical (.cons rfl _),
      Lexeme.lexemes_of_isBlank rfl, Lexeme.lexemes_quotedText_append hrest]
    rfl
  | typeName type => exact type.lexemes_typeName_append hrest
  | functionName name => exact Lexeme.lexemes_verbatim_append hlexical hrest
  | verbatim content => exact absurd hlexical id

end SqlCompose
