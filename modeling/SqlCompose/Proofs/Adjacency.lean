import Mathlib.Data.List.Chain
import SqlCompose.Proofs.Spelling

/-!
Tokens side by side. The text of a statement is the spellings of its tokens without anything between
them, so a lexer recovers the tokens only if no spelling takes in the beginning of the next one. Two
tokens are `Apart` when that is so, and every token is apart from the separators: punctuation and
white space.

Composed statements have one kind of neighbours that are not apart, a sign directly before a
function whose name is a symbol (`Collides`). `Legible` is therefore stated for a parameter that
says whether such neighbours are admitted, and `lexemes_render_iff` shows what they do: a list of
lexical tokens that are apart or collide is read as the lexemes of its tokens exactly when no two of
them collide.
-/

set_option autoImplicit false
set_option relaxedAutoImplicit false

namespace SqlCompose

namespace Token

/-- The spelling of the second token begins with a character that the first does not take in. -/
def Apart (first second : Token) : Prop :=
  ∃ c rest, (Dialect.postgres.spell second).toList = c :: rest ∧ first.takesIn c = false

/-- A sign before a function whose name is a symbol. -/
def Collides : Token → Token → Prop
  | .operator sign, .functionName name =>
    (sign = "-" ∨ sign = "+") ∧ Lexeme.isSymbol name.toList = true
  | _, _ => False

theorem Collides.exists_eq {first second : Token} (hcollides : first.Collides second) :
    ∃ symbol name, first = .operator symbol ∧ second = .functionName name ∧
      (symbol = "-" ∨ symbol = "+") ∧ Lexeme.isSymbol name.toList = true := by
  cases first with
  | operator symbol =>
    cases second with
    | functionName name => exact ⟨symbol, name, rfl, rfl, hcollides⟩
    | _ => cases hcollides
  | _ => cases hcollides

theorem not_collides_of_collides {first second third : Token} (hcollides : first.Collides second) :
    ¬ second.Collides third := by
  obtain ⟨symbol, name, -, rfl, -, -⟩ := hcollides.exists_eq
  exact id

/-- Two tokens that may follow each other; collisions are admitted if asked for. -/
def Meets (tolerant : Prop) (first second : Token) : Prop :=
  first.Apart second ∨ (tolerant ∧ first.Collides second)

/-- Punctuation and white space. -/
@[reducible]
def isSeparator : Token → Bool
  | .comma | .openParen | .closeParen | .openBracket | .closeBracket | .cast | .space
  | .newline => true
  | _ => false

theorem takesIn_separator_char (token : Token) {c : Char}
    (hc : c ∈ [',', '(', ')', '[', ']', ':', ' ', '\n']) : token.takesIn c = false := by
  have hall : ([',', '(', ')', '[', ']', ':', ' ', '\n'].all fun c ↦ decide (c.isDigit = false ∧
      Lexeme.isOperatorChar c = false ∧ (c == '"') = false ∧ (c == '\'') = false ∧
      Lexeme.continuesNumber c = false ∧ Lexeme.continuesWord c = false)) = true := by decide
  obtain ⟨hdigit, hoperator, hname, htext, hnumber, hword⟩ :=
    of_decide_eq_true (List.all_eq_true.mp hall c hc)
  cases token <;>
    simp only [takesIn, hdigit, hoperator, hname, htext, hnumber, hword, ite_self]

theorem apart_of_isSeparator (first : Token) {second : Token}
    (hsecond : second.isSeparator = true) : first.Apart second := by
  cases second with
  | comma => exact ⟨_, _, rfl, first.takesIn_separator_char (by decide)⟩
  | openParen => exact ⟨_, _, rfl, first.takesIn_separator_char (by decide)⟩
  | closeParen => exact ⟨_, _, rfl, first.takesIn_separator_char (by decide)⟩
  | openBracket => exact ⟨_, _, rfl, first.takesIn_separator_char (by decide)⟩
  | closeBracket => exact ⟨_, _, rfl, first.takesIn_separator_char (by decide)⟩
  | cast => exact ⟨_, _, rfl, first.takesIn_separator_char (by decide)⟩
  | space => exact ⟨_, _, rfl, first.takesIn_separator_char (by decide)⟩
  | newline => exact ⟨_, _, rfl, first.takesIn_separator_char (by decide)⟩
  | _ => cases hsecond

theorem spell_ne_nil {token : Token} (hlexical : token.IsLexical) :
    (Dialect.postgres.spell token).toList ≠ [] := by
  have hsigned {negative : Bool} {text : List Char} (hnumber : IsSignedNumeral negative text) :
      text ≠ [] := by
    obtain ⟨numeral, hnumeral, rfl⟩ := hnumber
    obtain ⟨c, rest, rfl, -⟩ := Lexeme.IsNumeral.exists_digit_cons hnumeral
    cases negative <;> simp
  have hverbatim {text : List Char}
      (htext : Lexeme.isWord text = true ∨ Lexeme.isSymbol text = true) : text ≠ [] := by
    rintro rfl
    rcases htext with hword | hsymbol
    · cases hword
    · cases hsymbol
  cases token with
  | keyword heading => cases heading <;> decide
  | operator symbol => exact hverbatim hlexical
  | functionName name => exact hverbatim hlexical
  | integer value =>
    rw [Dialect.spell, String.toList_ofList]
    exact hsigned (isSignedNumeral_signedDecimal _)
  | count value =>
    rw [Dialect.spell, String.toList_ofList]
    exact (isDigits_decimal _).1
  | float value => exact hsigned (FloatLayout.isSignedNumeral_write hlexical)
  | decimal value => exact hsigned (isSignedNumeral_decimalText value)
  | boolean value => cases value <;> decide
  | typeName type =>
    cases type <;> simp [Dialect.spell, Dialect.postgres, Dialect.postgresTypeName]
  | verbatim content => simp [IsLexical] at hlexical
  | _ => simp [Dialect.spell, Dialect.postgres, Text.quoted, quotedBytes]

theorem isSeparator_apart {first second : Token} (hfirst : first.isSeparator = true)
    (hlexical : second.IsLexical) : first.Apart second := by
  obtain ⟨c, rest, hspell⟩ := List.exists_cons_of_ne_nil (spell_ne_nil hlexical)
  refine ⟨c, rest, hspell, ?_⟩
  cases first with
  | comma | openParen | closeParen | openBracket | closeBracket | cast | space | newline => rfl
  | _ => cases hfirst

theorem IsLexical.of_isSeparator {token : Token} (htoken : token.isSeparator = true) :
    token.IsLexical := by
  cases token with
  | comma | openParen | closeParen | openBracket | closeBracket | cast | space | newline =>
    exact trivial
  | _ => cases htoken

/-! ### Legible lists of tokens -/

/-- Lexical tokens, each of which may stand before the next one. -/
def Legible (tolerant : Prop) (tokens : List Token) : Prop :=
  (∀ token ∈ tokens, token.IsLexical) ∧ tokens.IsChain (Meets tolerant)

variable {tolerant : Prop}

@[simp]
theorem legible_nil : Legible tolerant [] := by
  simp [Legible]

@[simp]
theorem legible_singleton {token : Token} : Legible tolerant [token] ↔ token.IsLexical := by
  simp [Legible]

theorem legible_cons {token : Token} {rest : List Token} :
    Legible tolerant (token :: rest) ↔
      token.IsLexical ∧ (∀ next ∈ rest.head?, token.Meets tolerant next) ∧
        Legible tolerant rest := by
  simp only [Legible, List.forall_mem_cons, List.isChain_cons]
  tauto

/-- A separator splits a list into parts that are legible independently of each other. -/
theorem legible_append_separator {separator : Token} (hseparator : separator.isSeparator = true)
    {before after : List Token} :
    Legible tolerant (before ++ separator :: after) ↔
      Legible tolerant before ∧ Legible tolerant after := by
  constructor
  · rintro ⟨hlexical, hchain⟩
    rw [List.isChain_append, List.isChain_cons] at hchain
    exact ⟨⟨fun token hmem ↦ hlexical token (by simp [hmem]), hchain.1⟩,
      fun token hmem ↦ hlexical token (by simp [hmem]), hchain.2.1.2⟩
  · rintro ⟨⟨hbefore, hchainBefore⟩, hafter, hchainAfter⟩
    refine ⟨fun token hmem ↦ ?_, ?_⟩
    · rcases List.mem_append.mp hmem with hmem | hmem
      · exact hbefore token hmem
      · rcases List.mem_cons.mp hmem with rfl | hmem
        · exact .of_isSeparator hseparator
        · exact hafter token hmem
    · rw [List.isChain_append, List.isChain_cons]
      refine ⟨hchainBefore, ⟨fun next hnext ↦ ?_, hchainAfter⟩, fun last _ next hnext ↦ ?_⟩
      · exact Or.inl (isSeparator_apart hseparator (hafter next (List.mem_of_mem_head? hnext)))
      · cases hnext
        exact Or.inl (last.apart_of_isSeparator hseparator)

theorem legible_separator_cons {separator : Token} (hseparator : separator.isSeparator = true)
    {after : List Token} :
    Legible tolerant (separator :: after) ↔ Legible tolerant after := by
  rw [← List.nil_append (separator :: after), legible_append_separator hseparator]
  exact and_iff_right legible_nil

theorem legible_parenthesized {tokens : List Token} :
    Legible tolerant (parenthesized tokens) ↔ Legible tolerant tokens := by
  rw [parenthesized, legible_separator_cons rfl, legible_append_separator rfl]
  simp

/-- What stands between the items of a list begins and ends with a separator. -/
theorem legible_append_separators {first last : Token} {between : List Token}
    (hfirst : first.isSeparator = true) (hlast : last.isSeparator = true)
    (hbetween : Legible tolerant between) {before after : List Token} :
    Legible tolerant (before ++ (first :: (between ++ [last]) ++ after)) ↔
      Legible tolerant before ∧ Legible tolerant after := by
  rw [List.cons_append, legible_append_separator hfirst, List.append_assoc, List.singleton_append,
    legible_append_separator hlast]
  exact and_congr_right fun _ ↦ and_iff_right hbetween

theorem legible_separatedBy {separator : List Token}
    (hseparator : ∀ before after, Legible tolerant (before ++ (separator ++ after)) ↔
      Legible tolerant before ∧ Legible tolerant after) {items : List (List Token)} :
    Legible tolerant (separatedBy separator items) ↔ ∀ item ∈ items, Legible tolerant item := by
  induction items with
  | nil => simp [separatedBy]
  | cons item rest ih =>
    cases rest with
    | nil => simp [separatedBy]
    | cons next rest =>
      rw [separatedBy, List.append_assoc, hseparator, ih]
      simp only [List.forall_mem_cons]

theorem legible_commaSeparated {items : List (List Token)} :
    Legible tolerant (commaSeparated items) ↔ ∀ item ∈ items, Legible tolerant item :=
  legible_separatedBy fun _ _ ↦ legible_append_separators rfl rfl legible_nil

/-! ### Legible lists are read as their tokens -/

end Token

theorem Dialect.toList_render_cons (dialect : Dialect) (token : Token) (rest : List Token) :
    (dialect.render (token :: rest)).toList =
      (dialect.spell token).toList ++ (dialect.render rest).toList := by
  rw [render, List.map_cons, String.join_cons, String.toList_append]
  rfl

theorem Token.stops_render {token : Token} {rest : List Token}
    (hnext : ∀ next ∈ rest.head?, token.Apart next) :
    Stops token.takesIn (Dialect.postgres.render rest).toList := by
  cases rest with
  | nil =>
    intro c hc
    cases hc
  | cons next rest =>
    obtain ⟨c, tail, hspell, htakes⟩ := hnext next rfl
    rw [Dialect.toList_render_cons, hspell]
    intro d hd
    cases hd
    exact htakes

/-- No operator character follows a function whose name is a symbol and that is apart from what
comes next. -/
theorem Token.stops_render_symbol {name : String} (hname : Lexeme.isSymbol name.toList = true)
    {rest : List Token} (hnext : ∀ next ∈ rest.head?, (Token.functionName name).Apart next) :
    Stops Lexeme.isOperatorChar (Dialect.postgres.render rest).toList := by
  have hrest := Token.stops_render hnext
  unfold Token.takesIn at hrest
  simpa only [Lexeme.isWord_of_isSymbol hname, Bool.false_eq_true, ↓reduceIte] using hrest

/-- A token that is apart from the next one is read by itself. -/
theorem lexemes_render_cons {token : Token} {rest : List Token} (hlexical : token.IsLexical)
    (hnext : ∀ next ∈ rest.head?, token.Apart next) :
    lexemes (Dialect.postgres.render (token :: rest)).toList =
      token.lexemes ++ lexemes (Dialect.postgres.render rest).toList := by
  rw [Dialect.toList_render_cons, lexemes_spell_append hlexical (Token.stops_render hnext)]

/-- A sign with a symbol directly behind it is not read as the sign: the two become one operator, or
they open a comment. -/
theorem head?_lexemes_sign_symbol {sign : Char} (hsign : sign = '-' ∨ sign = '+')
    {symbol rest : List Char} (hsymbol : Lexeme.isSymbol symbol = true)
    (hrest : Stops Lexeme.isOperatorChar rest) :
    (lexemes (sign :: (symbol ++ rest))).head? ≠ some (.operator [sign]) := by
  have hoperator : Lexeme.isOperatorChar sign = true := by
    rcases hsign with rfl | rfl <;> decide
  obtain ⟨hblank, hname, hquote, hword, hdigit, hpoint⟩ :=
    Lexeme.isOperatorChar_not_startsWord hoperator
  have hnumber : Lexeme.startsNumber (sign :: (symbol ++ rest)) = false := by
    rcases hsign with rfl | rfl <;> rfl
  obtain ⟨c, tail, hcons, -, -, hscanned⟩ := Lexeme.exists_cons_of_isSymbol hsymbol
  rw [lexemes, if_neg (by simp [hblank]), List.head?_cons, Lexeme.scan, if_neg hname, if_neg hquote,
    if_neg (by simp [hword]), if_neg (by simp [hnumber])]
  by_cases hopens : Lexeme.opensComment (sign :: (symbol ++ rest)) = true
  · rw [if_pos hopens]
    rcases hsign with rfl | rfl
    · simp [Lexeme.scanComment]
    · cases hopens
  · rw [if_neg hopens, if_pos hoperator, Lexeme.scanOperator,
      if_pos (by simp [hoperator, hopens]), Lexeme.scanOperator_append hscanned hrest, hcons]
    simp

theorem lexemes_render_ne_of_collides {first second : Token} {rest : List Token}
    (hcollides : first.Collides second) (hnext : ∀ next ∈ rest.head?, second.Apart next) :
    lexemes (Dialect.postgres.render (first :: second :: rest)).toList ≠
      (first :: second :: rest).flatMap Token.lexemes := by
  obtain ⟨symbol, name, rfl, rfl, hsign, hname⟩ := hcollides.exists_eq
  obtain ⟨sign, hsymbol, hchar⟩ : ∃ sign, symbol.toList = [sign] ∧ (sign = '-' ∨ sign = '+') := by
    rcases hsign with rfl | rfl
    · exact ⟨'-', rfl, Or.inl rfl⟩
    · exact ⟨'+', rfl, Or.inr rfl⟩
  have hverbatim : Lexeme.ofVerbatim [sign] = .operator [sign] := by
    rcases hchar with rfl | rfl <;> rfl
  intro heq
  refine head?_lexemes_sign_symbol hchar hname (Token.stops_render_symbol hname hnext) ?_
  rw [Dialect.toList_render_cons, Dialect.toList_render_cons] at heq
  simp only [Dialect.spell, hsymbol, List.singleton_append] at heq
  rw [heq, List.flatMap_cons, Token.lexemes, hsymbol, hverbatim]
  rfl

/-- A token that is not apart from the next one collides with it, and the next one is then apart
from what follows. -/
theorem Token.Legible.exists_collides {token : Token} {rest : List Token}
    (hlegible : Token.Legible True (token :: rest))
    (hapart : ¬ ∀ next ∈ rest.head?, token.Apart next) :
    ∃ second after, rest = second :: after ∧ token.Collides second ∧
      ∀ next ∈ after.head?, second.Apart next := by
  obtain ⟨-, hnext, hrest⟩ := Token.legible_cons.mp hlegible
  cases rest with
  | nil => exact absurd (fun next hmem ↦ by cases hmem) hapart
  | cons second after =>
    have hcollides : token.Collides second := by
      rcases hnext second rfl with hnear | ⟨-, hcollides⟩
      · refine absurd (fun next hmem ↦ ?_) hapart
        cases hmem
        exact hnear
      · exact hcollides
    refine ⟨second, after, rfl, hcollides, fun next hmem ↦ ?_⟩
    rcases (Token.legible_cons.mp hrest).2.1 next hmem with hnear | ⟨-, hagain⟩
    · exact hnear
    · exact absurd hagain (Token.not_collides_of_collides hcollides)

/-- A list of lexical tokens that are apart or collide is read as the lexemes of its tokens exactly
when no two of them collide. -/
theorem lexemes_render_iff {tokens : List Token} (hlegible : Token.Legible True tokens) :
    lexemes (Dialect.postgres.render tokens).toList = tokens.flatMap Token.lexemes ↔
      Token.Legible False tokens := by
  induction tokens with
  | nil => simp [Dialect.render, lexemes]
  | cons token rest ih =>
    obtain ⟨hlexical, hnext, hrest⟩ := Token.legible_cons.mp hlegible
    by_cases hapart : ∀ next ∈ rest.head?, token.Apart next
    · rw [lexemes_render_cons hlexical hapart, List.flatMap_cons, List.append_cancel_left_eq,
        ih hrest, Token.legible_cons]
      exact ⟨fun hother ↦ ⟨hlexical, fun next hmem ↦ Or.inl (hapart next hmem), hother⟩,
        fun hall ↦ hall.2.2⟩
    · have hnot : ¬ Token.Legible False (token :: rest) := by
        intro hall
        refine hapart fun next hmem ↦ ?_
        rcases (Token.legible_cons.mp hall).2.1 next hmem with hnear | ⟨hfalse, -⟩
        · exact hnear
        · exact hfalse.elim
      obtain ⟨second, after, rfl, hcollides, hafter⟩ := hlegible.exists_collides hapart
      exact iff_of_false (lexemes_render_ne_of_collides hcollides hafter) hnot

end SqlCompose
