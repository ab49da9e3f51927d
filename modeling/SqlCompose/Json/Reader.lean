import SqlCompose.Json.Lexeme

/-!
JSON texts as values. The lexemes are taken one at a time; the arrays and objects that are still
open are kept on a stack, innermost first, together with what they contain so far. A text is a value
when its lexemes end with exactly one finished value and nothing open.
-/

set_option autoImplicit false
set_option relaxedAutoImplicit false

namespace SqlCompose.Json

/-- An array or object that is still open, with its finished contents in reverse. -/
inductive Frame
  | items (before : List Json)
  /-- An object in which the value of the given key comes next. -/
  | member (before : List (Option String × Json)) (key : Option String)

/-- What may come next. -/
inductive Expecting
  | value
  /-- The first item of an array, or its end. -/
  | firstItem
  /-- The first key of an object, or its end. -/
  | firstKey
  /-- A further key of an object with the given contents. -/
  | nextKey (before : List (Option String × Json))
  /-- The colon after a key of an object with the given contents. -/
  | colon (before : List (Option String × Json)) (key : Option String)
  /-- Whatever follows a finished value. -/
  | afterValue (value : Json)

/-- Takes a lexeme where a value may begin. -/
def beginValue (unfinished : List Frame) : Lexeme → Option (Expecting × List Frame)
  | .scalar value => some (.afterValue value, unfinished)
  | .text content => some (.afterValue (ofText? content), unfinished)
  | .openBracket => some (.firstItem, .items [] :: unfinished)
  | .openBrace => some (.firstKey, unfinished)
  | _ => none

/-- Takes a lexeme after a finished value: a comma goes on and a closing bracket or brace finishes
the innermost open value. -/
def continueAfter (value : Json) : List Frame → Lexeme → Option (Expecting × List Frame)
  | .items before :: outer, .comma => some (.value, .items (value :: before) :: outer)
  | .items before :: outer, .closeBracket =>
    some (.afterValue (array (value :: before).reverse), outer)
  | .member before key :: outer, .comma => some (.nextKey ((key, value) :: before), outer)
  | .member before key :: outer, .closeBrace =>
    some (.afterValue (ofMembers? ((key, value) :: before).reverse), outer)
  | _, _ => none

/-- Takes one lexeme. -/
def step (expecting : Expecting) (unfinished : List Frame) (lexeme : Lexeme) :
    Option (Expecting × List Frame) :=
  match expecting, lexeme, unfinished with
  | .value, lexeme, unfinished => beginValue unfinished lexeme
  | .firstItem, .closeBracket, .items _ :: outer => some (.afterValue (array []), outer)
  | .firstItem, lexeme, unfinished => beginValue unfinished lexeme
  | .firstKey, .closeBrace, unfinished => some (.afterValue (object []), unfinished)
  | .firstKey, .text key, unfinished => some (.colon [] key, unfinished)
  | .nextKey before, .text key, unfinished => some (.colon before key, unfinished)
  | .colon before key, .colon, unfinished => some (.value, .member before key :: unfinished)
  | .afterValue value, lexeme, unfinished => continueAfter value unfinished lexeme
  | _, _, _ => none

/-- Takes all lexemes. -/
def assemble (expecting : Expecting) (unfinished : List Frame) : List Lexeme → Option Json
  | [] =>
    match expecting, unfinished with
    | .afterValue value, [] => some value
    | _, _ => none
  | lexeme :: rest =>
    match step expecting unfinished lexeme with
    | some (expecting, unfinished) => assemble expecting unfinished rest
    | none => none

/-- The value of a text. -/
def read? (text : String) : Option Json := do
  let lexemes ← lexemes? text.toList
  assemble .value [] lexemes

end SqlCompose.Json
