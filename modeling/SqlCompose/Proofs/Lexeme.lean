import SqlCompose.Text.Digits
import Mathlib.Tactic.SplitIfs

/-!
Statement text as a database reads it. The lexer knows nothing of tokens: it takes a text apart by
the rules of standard SQL alone. Names stand between double and texts between single quotation
marks, with the mark doubled inside and no other escape; words are runs of letters, digits,
underscores and dollar signs, where every character beyond ASCII counts as a letter; operators are
the longest runs of operator characters; two dashes open a comment up to the end of the line, and a
slash with a star opens one that may contain others. Where no rule applies a character is `stray`,
and so is a quotation or a comment that never ends, so that every text has lexemes.
-/

set_option autoImplicit false
set_option relaxedAutoImplicit false

namespace SqlCompose

/-- A unit of statement text. Quoted units carry their content, with doubled marks undone. -/
inductive Lexeme
  | word (text : List Char)
  | number (text : List Char)
  | quotedName (content : List Char)
  | quotedText (content : List Char)
  | operator (symbol : List Char)
  | mark (symbol : List Char)
  | comment (text : List Char)
  | stray (text : List Char)
deriving DecidableEq, Repr

namespace Lexeme

/-! ### Characters -/

/-- White space between lexemes. -/
def isBlank (c : Char) : Bool :=
  c == ' ' || c == '\n' || c == '\t' || c == '\r' || c == '\x0c'

/-- A character with which a word may begin. -/
def startsWord (c : Char) : Bool :=
  c.isAlpha || c == '_' || decide (128 ≤ c.toNat)

/-- A character with which a word may go on. -/
def continuesWord (c : Char) : Bool :=
  startsWord c || c.isDigit || c == '$'

/-- The characters of which operators are made. -/
def operatorChars : List Char :=
  ['+', '-', '*', '/', '<', '>', '=', '~', '!', '@', '#', '%', '^', '&', '|', '`', '?']

/-- A character of which operators are made. -/
def isOperatorChar (c : Char) : Bool :=
  operatorChars.contains c

/-- A mark that is a lexeme by itself. -/
def isMark (c : Char) : Bool :=
  [',', '.', '(', ')', '[', ']', ':', ';'].contains c

/-! ### Lexemes at the front of a text -/

/-- The content of a quotation after its opening mark, and what follows the closing one. -/
def scanQuoted (mark : Char) : List Char → Option (List Char × List Char)
  | [] => none
  | [c] => if c = mark then some ([], []) else none
  | c :: d :: rest =>
    if c ≠ mark then (scanQuoted mark (d :: rest)).map fun (content, after) ↦ (c :: content, after)
    else if d = mark then
      (scanQuoted mark rest).map fun (content, after) ↦ (mark :: content, after)
    else some ([], d :: rest)

/-- A point and the digits after it, if there is a point. -/
def scanFraction : List Char → List Char × List Char
  | '.' :: rest => ('.' :: (Text.spanDigits rest).1, (Text.spanDigits rest).2)
  | text => ([], text)

/-- The sign of an exponent, if there is one. -/
def scanSign : List Char → List Char × List Char
  | '-' :: rest => (['-'], rest)
  | '+' :: rest => (['+'], rest)
  | text => ([], text)

/-- An exponent, if there is one with at least one digit. -/
def scanExponent : List Char → List Char × List Char
  | [] => ([], [])
  | c :: rest =>
    let (sign, unsigned) := scanSign rest
    let (digits, after) := Text.spanDigits unsigned
    if (c == 'e' || c == 'E') && !digits.isEmpty then (c :: (sign ++ digits), after)
    else ([], c :: rest)

/-- Digits, a fraction and an exponent. -/
def scanNumber (text : List Char) : List Char × List Char :=
  let (whole, text) := Text.spanDigits text
  let (fraction, text) := scanFraction text
  let (exponent, text) := scanExponent text
  (whole ++ fraction ++ exponent, text)

/-- A comment begins here. -/
def opensComment : List Char → Bool
  | '-' :: '-' :: _ => true
  | '/' :: '*' :: _ => true
  | _ => false

/-- The longest run of operator characters in which no comment begins. -/
def scanOperator : List Char → List Char × List Char
  | [] => ([], [])
  | c :: rest =>
    if isOperatorChar c && !opensComment (c :: rest) then
      (c :: (scanOperator rest).1, (scanOperator rest).2)
    else ([], c :: rest)

/-- What is left after the end of a comment inside the given number of others. -/
def afterComment : Nat → List Char → Option (List Char)
  | 0, '*' :: '/' :: rest => some rest
  | depth + 1, '*' :: '/' :: rest => afterComment depth rest
  | depth, '/' :: '*' :: rest => afterComment (depth + 1) rest
  | depth, _ :: rest => afterComment depth rest
  | _, [] => none

/-- A comment, without its last line break or after its closing mark. -/
def scanComment (text : List Char) : Lexeme × List Char :=
  match text with
  | '-' :: _ => (.comment (text.takeWhile (· != '\n')), text.dropWhile (· != '\n'))
  | _ =>
    match afterComment 0 (text.drop 2) with
    | some after => (.comment (text.take (text.length - after.length)), after)
    | none => (.stray text, [])

/-- A quotation after its opening mark. -/
def scanQuotation (mark : Char) (lexeme : List Char → Lexeme) (rest : List Char) :
    Lexeme × List Char :=
  match scanQuoted mark rest with
  | some (content, after) => (lexeme content, after)
  | none => (.stray (mark :: rest), [])

/-- A mark; two colons together are one. -/
def scanMark (c : Char) (rest : List Char) : Lexeme × List Char :=
  match c, rest with
  | ':', ':' :: after => (.mark [':', ':'], after)
  | _, _ => (.mark [c], rest)

/-- A number begins here. -/
def startsNumber : List Char → Bool
  | '.' :: c :: _ => c.isDigit
  | c :: _ => c.isDigit
  | [] => false

/-- The lexeme that begins with a character other than white space, and what follows it. -/
def scan (c : Char) (rest : List Char) : Lexeme × List Char :=
  if c = '"' then scanQuotation '"' .quotedName rest
  else if c = '\'' then scanQuotation '\'' .quotedText rest
  else if startsWord c then
    (.word (c :: rest.takeWhile continuesWord), rest.dropWhile continuesWord)
  else if startsNumber (c :: rest) then
    (.number (scanNumber (c :: rest)).1, (scanNumber (c :: rest)).2)
  else if opensComment (c :: rest) then scanComment (c :: rest)
  else if isOperatorChar c then
    (.operator (scanOperator (c :: rest)).1, (scanOperator (c :: rest)).2)
  else if isMark c then scanMark c rest
  else (.stray [c], rest)

/-! ### Every lexeme takes at least one character -/

theorem length_of_scanQuoted {mark : Char} {text content after : List Char}
    (hscan : scanQuoted mark text = some (content, after)) : after.length < text.length := by
  fun_induction scanQuoted mark text generalizing content after with
  | case1 => cases hscan
  | case2 =>
    cases hscan
    simp
  | case3 => cases hscan
  | case4 c d rest hc ih =>
    obtain ⟨⟨inner, last⟩, hinner, heq⟩ := Option.map_eq_some_iff.mp hscan
    cases heq
    exact Nat.lt_succ_of_lt (ih hinner)
  | case5 c rest hc ih =>
    obtain ⟨⟨inner, last⟩, hinner, heq⟩ := Option.map_eq_some_iff.mp hscan
    cases heq
    have := ih hinner
    simp only [List.length_cons]
    omega
  | case6 c d rest hc hd =>
    cases hscan
    simp

theorem length_scanQuotation_le (mark : Char) (lexeme : List Char → Lexeme) (rest : List Char) :
    (scanQuotation mark lexeme rest).2.length ≤ rest.length := by
  unfold scanQuotation
  cases hscan : scanQuoted mark rest with
  | none => exact Nat.zero_le _
  | some scanned => exact Nat.le_of_lt (length_of_scanQuoted hscan)

theorem length_spanDigits_le (text : List Char) :
    (Text.spanDigits text).2.length ≤ text.length := by
  have := Text.length_spanDigits text
  omega

theorem length_scanFraction_le (text : List Char) :
    (scanFraction text).2.length ≤ text.length := by
  unfold scanFraction
  split
  · exact Nat.le_succ_of_le (length_spanDigits_le _)
  · exact Nat.le_refl _

theorem length_scanExponent_le (text : List Char) :
    (scanExponent text).2.length ≤ text.length := by
  have hsign (rest : List Char) : (scanSign rest).2.length ≤ rest.length := by
    unfold scanSign
    split <;> simp
  cases text with
  | nil => exact Nat.le_refl _
  | cons c rest =>
    simp only [scanExponent]
    split
    · exact Nat.le_succ_of_le (Nat.le_trans (length_spanDigits_le _) (hsign rest))
    · exact Nat.le_refl _

theorem startsNumber_cons {c : Char} (hpoint : c ≠ '.') (rest : List Char) :
    startsNumber (c :: rest) = c.isDigit := by
  rw [startsNumber]
  simp [hpoint]

theorem length_scanNumber_le {c : Char} {rest : List Char} (hstarts : startsNumber (c :: rest)) :
    (scanNumber (c :: rest)).2.length ≤ rest.length := by
  simp only [scanNumber]
  refine Nat.le_trans (length_scanExponent_le _) ?_
  by_cases hdigit : c.isDigit = true
  · refine Nat.le_trans (length_scanFraction_le _) ?_
    simp only [Text.spanDigits, List.dropWhile_cons, hdigit, ↓reduceIte]
    exact length_spanDigits_le rest
  · have hpoint : c = '.' := by
      refine Decidable.byContradiction fun hother ↦ hdigit ?_
      rw [← startsNumber_cons hother rest]
      exact hstarts
    subst hpoint
    exact length_spanDigits_le rest

theorem length_of_afterComment {depth : Nat} {text after : List Char}
    (hafter : afterComment depth text = some after) : after.length ≤ text.length := by
  fun_induction afterComment depth text <;> grind

theorem length_scanComment_le (c : Char) (rest : List Char) :
    (scanComment (c :: rest)).2.length ≤ rest.length := by
  by_cases hline : c = '-'
  · rw [hline, scanComment, List.dropWhile_cons_of_pos (by decide)]
    exact (List.dropWhile_sublist _).length_le
  · cases hafter : afterComment 0 rest.tail with
    | none => simp [scanComment, hline, hafter]
    | some after =>
      have hscan : (scanComment (c :: rest)).2 = after := by simp [scanComment, hline, hafter]
      rw [hscan]
      exact Nat.le_trans (length_of_afterComment hafter) (List.tail_sublist rest).length_le

theorem length_scanOperator_le {c : Char} {rest : List Char} (hopens : ¬ opensComment (c :: rest))
    (hoperator : isOperatorChar c = true) :
    (scanOperator (c :: rest)).2.length ≤ rest.length := by
  have hle (text : List Char) : (scanOperator text).2.length ≤ text.length := by
    fun_induction scanOperator text with
    | case1 => exact Nat.le_refl _
    | case2 c rest hc ih => exact Nat.le_succ_of_le ih
    | case3 => exact Nat.le_refl _
  rw [scanOperator, if_pos (by simp [hoperator, hopens])]
  exact hle rest

theorem length_scan_le (c : Char) (rest : List Char) : (scan c rest).2.length ≤ rest.length := by
  unfold scan
  split_ifs with hname htext hword hnumber hcomment hoperator hmark
  · exact length_scanQuotation_le _ _ _
  · exact length_scanQuotation_le _ _ _
  · exact (List.dropWhile_sublist _).length_le
  · exact length_scanNumber_le hnumber
  · exact length_scanComment_le c rest
  · exact length_scanOperator_le hcomment hoperator
  · unfold scanMark
    split <;> simp
  · exact Nat.le_refl _

end Lexeme

/-- The lexemes of a text. -/
def lexemes : List Char → List Lexeme
  | [] => []
  | c :: rest =>
    if Lexeme.isBlank c then lexemes rest
    else (Lexeme.scan c rest).1 :: lexemes (Lexeme.scan c rest).2
termination_by text => text.length
decreasing_by
  · exact Nat.lt_succ_self _
  · exact Nat.lt_succ_of_le (Lexeme.length_scan_le c rest)

end SqlCompose
