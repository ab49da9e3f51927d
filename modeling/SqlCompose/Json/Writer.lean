import SqlCompose.Json.Value
import SqlCompose.Text.Quoting

/-!
JSON values as compact texts, without any white space. Strings escape the quotation mark, the
backslash and control characters and nothing else; a double without finite value is written as null.
-/

set_option autoImplicit false
set_option relaxedAutoImplicit false

namespace SqlCompose.Json

/-- A character of a string as it is written. -/
def escaped (c : Char) : List Char :=
  if c = '"' then ['\\', '"']
  else if c = '\\' then ['\\', '\\']
  else if c = Char.ofNat 8 then ['\\', 'b']
  else if c = Char.ofNat 12 then ['\\', 'f']
  else if c = '\n' then ['\\', 'n']
  else if c = '\r' then ['\\', 'r']
  else if c = '\t' then ['\\', 't']
  else if c.toNat < 0x20 then ['\\', 'u', '0', '0'] ++ Text.hexByte (UInt8.ofNat c.toNat)
  else [c]

/-- A string as it is written. -/
def textChars (text : String) : List Char :=
  '"' :: (text.toList.flatMap escaped ++ ['"'])

mutual

/-- The characters of a value's text. -/
def chars : Json → List Char
  | null => "null".toList
  | boolean value => if value then "true".toList else "false".toList
  | integer value => Text.signedDecimal value
  | float value => if value.isFinite then (FloatLayout.json.write value).toList else "null".toList
  | string value => textChars value
  | array items => '[' :: (itemChars items ++ [']'])
  | object members => '\x7b' :: (memberChars members ++ ['\x7d'])
  | unreadable => "null".toList

/-- The characters of items separated by commas. -/
def itemChars : List Json → List Char
  | [] => []
  | [item] => chars item
  | item :: next :: rest => chars item ++ ',' :: itemChars (next :: rest)

/-- The characters of members separated by commas. -/
def memberChars : List (String × Json) → List Char
  | [] => []
  | [(key, value)] => textChars key ++ ':' :: chars value
  | (key, value) :: next :: rest =>
    textChars key ++ ':' :: (chars value ++ ',' :: memberChars (next :: rest))

end

/-- The compact text of a value. -/
def write (value : Json) : String :=
  String.ofList value.chars

end SqlCompose.Json
