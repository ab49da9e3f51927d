import SqlCompose.Toml.Scalar
import SqlCompose.Toml.Text

/-!
TOML documents. A document is a sequence of lines: blank lines and comments, key and value, headers
of tables. Arrays and inline tables may extend over several lines, contain comments and end in a
comma; at most eighty of them may be open at a time, and a key has at most eighty parts. Reading
takes fuel from the length of the text, since each step takes at least one character.
-/

set_option autoImplicit false
set_option relaxedAutoImplicit false

namespace SqlCompose.Toml

/-- How many arrays and inline tables may be open one inside the other, and how many parts a key
may have. -/
def nestingLimit : Nat := 80

/-- The text without blanks in front. -/
def skipBlanks (text : List Char) : List Char :=
  text.dropWhile isBlank

/-- The text after a comment, if there is one; a comment ends where its line does. -/
def skipComment (text : List Char) : List Char :=
  match text with
  | '#' :: rest => rest.dropWhile isPrintable
  | _ => text

/-- The text after blanks and a comment, at a line break or at the end, and after that line
break. -/
def lineEnd? (text : List Char) : Option (List Char) :=
  match skipComment (skipBlanks text) with
  | [] => some []
  | rest => newline? rest

/-- The text after any blanks, line breaks and comments. -/
def skipLines (fuel : Nat) (text : List Char) : List Char :=
  match fuel with
  | 0 => text
  | fuel + 1 =>
    let start := skipBlanks text
    match start with
    | '#' :: _ =>
      match newline? (skipComment start) with
      | some rest => skipLines fuel rest
      | none => start
    | _ =>
      match newline? start with
      | some rest => skipLines fuel rest
      | none => start

/-! ### Keys -/

/-- A character of a key without quotation marks. -/
def isKeyCharacter (c : Char) : Bool :=
  c.isAlphanum || c == '_' || c == '-'

/-- One part of a key. -/
def keyPart? (text : List Char) : Option (String × List Char) :=
  match quoted? false text with
  | some result => some result
  | none =>
    let name := text.takeWhile isKeyCharacter
    if name.isEmpty then none else some (String.ofList name, text.drop name.length)

/-- The parts of a key with dots between them, and the text after them and after blanks. -/
def keyParts? (fuel : Nat) (text : List Char) : Option (List String × List Char) :=
  match fuel with
  | 0 => none
  | fuel + 1 => do
    let (part, after) ← keyPart? (skipBlanks text)
    match skipBlanks after with
    | '.' :: rest =>
      let (parts, after) ← keyParts? fuel rest
      pure (part :: parts, after)
    | rest => pure ([part], rest)

/-- A key of one or more parts, not too many, and the text after it and after blanks. -/
def key? (text : List Char) : Option (List String × List Char) := do
  let (parts, after) ← keyParts? text.length text
  if parts.length ≤ nestingLimit then some (parts, after) else none

/-! ### Values -/

/-- A quotation mark. -/
def isQuote (c : Char) : Bool :=
  c == '"' || c == '\''

/-- A character that ends a word; quotation marks inside a word are part of it. -/
def endsWord (c : Char) : Bool :=
  isBlank c || c == '\n' || c == '\r' || c == '#' || c == '.' || c == ',' || c == '=' ||
    c == '[' || c == ']' || c == '\x7b' || c == '\x7d'

/-- Whether a text begins with a word. -/
def startsWord (text : List Char) : Bool :=
  text.head?.any fun c ↦ !endsWord c && !isQuote c

/-- The unquoted scalar at the start of a text: words, points, and blanks that have a word after
them. `start` says that a word may begin here. -/
def scalarText (start : Bool) : List Char → List Char
  | [] => []
  | c :: rest =>
    if c == '.' then c :: scalarText true rest
    else if isBlank c then
      if startsWord (skipBlanks rest) then c :: scalarText true rest else []
    else if endsWord c || start && isQuote c then []
    else c :: scalarText false rest

/-- The value of an unquoted scalar, and what follows it. -/
def unquoted? (text : List Char) : Option (Toml × List Char) :=
  let word := scalarText true text
  (scalar? word).map fun value ↦ (value, text.drop word.length)

mutual

/-- A value, and what follows it. -/
def value? (fuel depth : Nat) (text : List Char) : Option (Toml × List Char) :=
  match fuel with
  | 0 => none
  | fuel + 1 =>
    match text with
    | '[' :: rest =>
      if nestingLimit ≤ depth then none
      else do
        let (items, after) ← items? fuel (depth + 1) rest
        pure (array items, after)
    | '\x7b' :: rest =>
      if nestingLimit ≤ depth then none
      else do
        let (entries, after) ← entries? fuel (depth + 1) [] rest
        pure (table .inline entries, after)
    | c :: _ =>
      if isQuote c then (quoted? true text).map fun (content, after) ↦
        (Toml.string content, after)
      else unquoted? text
    | [] => none

/-- The items of an array up to its closing bracket, and what follows that. -/
def items? (fuel depth : Nat) (text : List Char) : Option (List Toml × List Char) :=
  match fuel with
  | 0 => none
  | fuel + 1 =>
    match skipLines text.length text with
    | ']' :: rest => some ([], rest)
    | start => do
      let (item, after) ← value? fuel depth start
      match skipLines after.length after with
      | ']' :: rest => some ([item], rest)
      | ',' :: rest =>
        let (items, after) ← items? fuel depth rest
        pure (item :: items, after)
      | _ => none

/-- The entries of an inline table up to its closing brace, and what follows that. Line breaks are
allowed everywhere but inside a key. -/
def entries? (fuel depth : Nat) (before : List (String × Toml)) (text : List Char) :
    Option (List (String × Toml) × List Char) :=
  match fuel with
  | 0 => none
  | fuel + 1 =>
    match skipLines text.length text with
    | '\x7d' :: rest => some (before, rest)
    | start => do
      let (key, after) ← key? start
      let after ← mark? '=' (skipLines after.length after)
      let (value, after) ← value? fuel depth (skipLines after.length after)
      let (_, entries) ← assign key value .inline before
      match skipLines after.length after with
      | '\x7d' :: rest => some (entries, rest)
      | ',' :: rest => entries? fuel depth entries rest
      | _ => none

end

/-! ### Documents -/

/-- What has been read of a document: all of it as one table, and the path of the latest header. -/
structure Progress where
  entries : List (String × Toml) := []
  header : List String := []

/-- The document after a change to the table at a path. -/
def Progress.changed (progress : Progress) (change : TableChange) (header : List String) :
    Option Progress := do
  let (_, entries) ← change .header progress.entries
  pure { entries, header }

/-- Takes a header in single brackets, after the opening one. -/
def tableHeader? (progress : Progress) (text : List Char) : Option (Progress × List Char) := do
  let (key, after) ← key? text
  let after ← mark? ']' after
  match key.reverse with
  | [] => none
  | last :: before =>
    let progress ← progress.changed (changeAt false (openTable last) before.reverse) key
    pure (progress, after)

/-- Takes a header in double brackets, after the opening ones. -/
def elementHeader? (progress : Progress) (text : List Char) : Option (Progress × List Char) := do
  let (key, after) ← key? text
  let after ← mark? ']' (← mark? ']' after)
  match key.reverse with
  | [] => none
  | last :: before =>
    let progress ← progress.changed (changeAt false (openElement last) before.reverse) key
    pure (progress, after)

/-- Takes a key with its value. -/
def keyValue? (progress : Progress) (text : List Char) : Option (Progress × List Char) := do
  let (key, after) ← key? text
  let after ← mark? '=' after
  let (value, after) ← value? (text.length + 1) 0 (skipBlanks after)
  let progress ← progress.changed (changeWithin (assign key value) progress.header) progress.header
  pure (progress, after)

/-- Takes the remaining lines of a document. -/
def lines? (fuel : Nat) (progress : Progress) (text : List Char) :
    Option (List (String × Toml)) :=
  match fuel with
  | 0 => none
  | fuel + 1 => do
    match skipLines text.length text with
    | [] => some progress.entries
    | '[' :: '[' :: rest =>
      let (progress, after) ← elementHeader? progress rest
      lines? fuel progress (← lineEnd? after)
    | '[' :: rest =>
      let (progress, after) ← tableHeader? progress rest
      lines? fuel progress (← lineEnd? after)
    | start =>
      if skipComment start = [] then some progress.entries
      else
        let (progress, after) ← keyValue? progress start
        lines? fuel progress (← lineEnd? after)

/-- The entries of a document. A byte order mark in front is ignored. -/
def read? (text : String) : Option (List (String × Toml)) :=
  let characters := match text.toList with
    | c :: rest => if c.toNat = 0xFEFF then rest else c :: rest
    | [] => []
  lines? (characters.length + 1) {} characters

end SqlCompose.Toml
