import SqlCompose.Text.Digits

/-!
Quoted strings of TOML. Strings between double quotation marks know escapes, strings between single
ones do not; three marks in a row begin a string that may contain line breaks. Control characters
are not allowed anywhere except for the tab and, in the longer form, line breaks. Scanning takes as
much fuel as there are characters, since each step takes at least one.
-/

set_option autoImplicit false
set_option relaxedAutoImplicit false

namespace SqlCompose.Toml

/-- Space and tab. -/
def isBlank (c : Char) : Bool :=
  c == ' ' || c == '\t'

/-- A character that may stand in comments and strings. -/
def isPrintable (c : Char) : Bool :=
  c == '\t' || (0x20 ≤ c.toNat && c.toNat != 0x7F)

/-- What follows a line break. -/
def newline? : List Char → Option (List Char)
  | '\n' :: rest => some rest
  | '\r' :: '\n' :: rest => some rest
  | _ => none

/-- The text without a line break in front. -/
def withoutNewline (text : List Char) : List Char :=
  (newline? text).getD text

/-- The character with a code given in hexadecimal digits. -/
def codePoint? (digits : List Char) : Option Char := do
  let values ← digits.mapM Text.hexDigit?
  let code := Text.valueOf 16 values
  if code.isValidChar then some (Char.ofNat code) else none

/-- The character of an escape of several digits, and what follows it. -/
def longEscape? (width : Nat) (text : List Char) : Option (Char × List Char) :=
  if text.length < width then none
  else (codePoint? (text.take width)).map fun c ↦ (c, text.drop width)

/-- The character of an escape, after the backslash, and what follows it. -/
def escape? : List Char → Option (Char × List Char)
  | '"' :: rest => some ('"', rest)
  | '\\' :: rest => some ('\\', rest)
  | 'b' :: rest => some (Char.ofNat 8, rest)
  | 't' :: rest => some ('\t', rest)
  | 'n' :: rest => some ('\n', rest)
  | 'f' :: rest => some (Char.ofNat 12, rest)
  | 'r' :: rest => some ('\r', rest)
  | 'e' :: rest => some (Char.ofNat 27, rest)
  | 'x' :: rest => longEscape? 2 rest
  | 'u' :: rest => longEscape? 4 rest
  | 'U' :: rest => longEscape? 8 rest
  | _ => none

/-- The content of a string on one line and what follows its closing mark. -/
def lineText? (mark : Char) (escapes : Bool) (fuel : Nat) (text : List Char) :
    Option (List Char × List Char) :=
  match fuel, text with
  | fuel + 1, c :: rest =>
    if c = mark then some ([], rest)
    else if escapes && c == '\\' then do
      let (character, after) ← escape? rest
      let (content, after) ← lineText? mark escapes fuel after
      pure (character :: content, after)
    else if isPrintable c then do
      let (content, after) ← lineText? mark escapes fuel rest
      pure (c :: content, after)
    else none
  | _, _ => none

/-- The text without blanks and line breaks in front. -/
def skipSpace : List Char → List Char
  | [] => []
  | '\r' :: '\n' :: rest => skipSpace rest
  | c :: rest => if isBlank c || c == '\n' then skipSpace rest else c :: rest

/-- What follows a backslash at the end of a line: the next character that is neither blank nor
part of a line break. -/
def afterLineEnd? (text : List Char) : Option (List Char) :=
  (newline? (text.dropWhile isBlank)).map skipSpace

/-- The content of a string over several lines and what follows its closing marks. Of up to five
marks in a row the last three close the string. -/
def blockText? (mark : Char) (escapes : Bool) (fuel : Nat) (text : List Char) :
    Option (List Char × List Char) :=
  match fuel, text with
  | fuel + 1, c :: rest =>
    if c = mark then
      let marks := ((c :: rest).take 5).takeWhile (· == mark)
      if 3 ≤ marks.length then some (marks.drop 3, (c :: rest).drop marks.length)
      else do
        let (content, after) ← blockText? mark escapes fuel rest
        pure (c :: content, after)
    else if escapes && c == '\\' then
      match afterLineEnd? rest with
      | some after => blockText? mark escapes fuel after
      | none => do
        let (character, after) ← escape? rest
        let (content, after) ← blockText? mark escapes fuel after
        pure (character :: content, after)
    else
      match newline? (c :: rest) with
      | some after => do
        let (content, after) ← blockText? mark escapes fuel after
        pure ('\n' :: content, after)
      | none =>
        if isPrintable c then do
          let (content, after) ← blockText? mark escapes fuel rest
          pure (c :: content, after)
        else none
  | _, _ => none

/-- The string that a text begins with, unless it begins with no quotation mark. A string over
several lines is recognized only on demand, since keys are on one line. -/
def quoted? (several : Bool) (text : List Char) : Option (String × List Char) :=
  let line := fun mark escapes rest ↦
    (lineText? mark escapes text.length rest).map fun (content, after) ↦
      (String.ofList content, after)
  let block := fun mark escapes rest ↦
    (blockText? mark escapes text.length (withoutNewline rest)).map fun (content, after) ↦
      (String.ofList content, after)
  match several, text with
  | true, '"' :: '"' :: '"' :: rest => block '"' true rest
  | true, '\'' :: '\'' :: '\'' :: rest => block '\'' false rest
  | _, '"' :: rest => line '"' true rest
  | _, '\'' :: rest => line '\'' false rest
  | _, _ => none

end SqlCompose.Toml
