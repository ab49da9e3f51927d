import SqlCompose.Text.Quoting
import SqlCompose.Token

/-!
Dialects: how tokens are spelled. Structure is the same for all dialects; a dialect decides how
names are quoted, how texts, truth values, nulls and bytes are written, what types are called and
which operator casts. The dialect in use is that of PostgreSQL.
-/

set_option autoImplicit false
set_option relaxedAutoImplicit false

namespace SqlCompose

/-- The spellings that vary between databases. -/
structure Dialect where
  name : String
  /-- A table, column or alias name. -/
  identifier : String → String
  /-- A text constant; single quotation marks unless a dialect says otherwise. -/
  text : String → String := Text.quoted '\''
  boolean : Bool → String
  null : String := "NULL"
  /-- A constant byte sequence, before its cast. -/
  bytes : List UInt8 → String
  typeName : ValueType → String
  castOperator : String := "::"

/-- Truth values as upper-case words. -/
def booleanWord (value : Bool) : String :=
  if value then "TRUE" else "FALSE"

/-- Bytes as a quoted text of hexadecimal digits behind `\x`. -/
def quotedBytes (bytes : List UInt8) : String :=
  String.ofList ('\'' :: '\\' :: 'x' :: (Text.hexBytes bytes ++ ['\'']))

namespace Dialect

/-- The PostgreSQL name of a type; an array type has brackets after its element type. -/
def postgresTypeName : ValueType → String
  | .boolean => "boolean"
  | .text => "text"
  | .integer => "integer"
  | .float => "float"
  | .decimal => "numeric"
  | .binary => "bytea"
  | .date => "date"
  | .time => "time"
  | .timestamp => "timestamp"
  | .interval => "interval"
  | .array element => postgresTypeName element ++ "[]"

/-- The dialect of PostgreSQL. -/
def postgres : Dialect where
  name := "postgres"
  identifier := Text.quoted '"'
  boolean := booleanWord
  bytes := quotedBytes
  typeName := postgresTypeName

/-- A decimal constant always shows a point, so that it is not taken for an integer. -/
def decimalText (value : Decimal) : String :=
  String.ofList (if value.text.contains '.' then value.text else value.text ++ ['.', '0'])

/-- The spelling of one token. -/
def spell (dialect : Dialect) : Token → String
  | .keyword word => word.text
  | .comma => ","
  | .dot => "."
  | .star => "*"
  | .openParen => "("
  | .closeParen => ")"
  | .openBracket => "["
  | .closeBracket => "]"
  | .cast => dialect.castOperator
  | .equal => "="
  | .notEqual => "!="
  | .divide => "/"
  | .operator symbol => symbol
  | .space => " "
  | .newline => "\n"
  | .identifier name => dialect.identifier name
  | .integer value => String.ofList (Text.signedDecimal value.toInt)
  | .count value => String.ofList (Text.decimal value.toNat)
  | .float value => FloatLayout.statement.write value
  | .decimal value => decimalText value
  | .text value => dialect.text value
  | .boolean value => dialect.boolean value
  | .null => dialect.null
  | .bytes value => dialect.bytes value
  | .typed keyword text => keyword ++ " " ++ dialect.text text
  | .typeName type => dialect.typeName type
  | .functionName name => name
  | .verbatim text => text

/-- The text of a token list: the spellings one after the other. -/
def render (dialect : Dialect) (tokens : List Token) : String :=
  String.join (tokens.map dialect.spell)

end Dialect

end SqlCompose
