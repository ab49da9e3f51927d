import SqlCompose.Number.Decimal
import SqlCompose.ValueType

/-!
Tokens, the units of which statements are made. A statement is first composed as a list of tokens
that fixes its structure, and only afterwards spelled out in a dialect. Names, constants and types
are single tokens however long their text becomes, so nothing inside them can be taken for
structure.
-/

set_option autoImplicit false
set_option relaxedAutoImplicit false

namespace SqlCompose

/-- The reserved words of the statements composed here. -/
inductive Keyword
  | select
  | distinct
  | on
  | from
  | as
  | join
  | inner
  | left
  | right
  | full
  | outer
  | where
  | and
  | groupBy
  | having
  | orderBy
  | desc
  | limit
  | offset
  | forUpdate
  | not
  | is
  | null
  | between
  | any
  | array
  | insert
  | into
  | values
  | default
  | returning
  | update
  | set
  | delete
deriving DecidableEq, Repr

/-- The spelling of a reserved word, which is the same in every dialect. -/
def Keyword.text : Keyword → String
  | select => "SELECT"
  | distinct => "DISTINCT"
  | on => "ON"
  | «from» => "FROM"
  | as => "AS"
  | join => "JOIN"
  | inner => "INNER"
  | left => "LEFT"
  | right => "RIGHT"
  | full => "FULL"
  | outer => "OUTER"
  | «where» => "WHERE"
  | and => "AND"
  | groupBy => "GROUP BY"
  | having => "HAVING"
  | orderBy => "ORDER BY"
  | desc => "DESC"
  | limit => "LIMIT"
  | offset => "OFFSET"
  | forUpdate => "FOR UPDATE"
  | not => "NOT"
  | is => "IS"
  | null => "NULL"
  | between => "BETWEEN"
  | any => "ANY"
  | array => "ARRAY"
  | insert => "INSERT"
  | into => "INTO"
  | values => "VALUES"
  | default => "DEFAULT"
  | returning => "RETURNING"
  | update => "UPDATE"
  | set => "SET"
  | delete => "DELETE"

/-- A unit of a statement. -/
inductive Token
  | keyword (word : Keyword)
  | comma
  | dot
  | star
  | openParen
  | closeParen
  | openBracket
  | closeBracket
  /-- The operator between a value and the type it is cast to. -/
  | cast
  | equal
  | notEqual
  | divide
  /-- An operator of the catalog, spelled as given. -/
  | operator (symbol : String)
  | space
  | newline
  /-- The name of a table, a column or an alias. -/
  | identifier (name : String)
  | integer (value : Int64)
  /-- A number of rows. -/
  | count (value : UInt64)
  | float (value : Binary64)
  | decimal (value : Decimal)
  | text (value : String)
  | boolean (value : Bool)
  /-- The null constant, as opposed to the word in a null test. -/
  | null
  | bytes (value : List UInt8)
  /-- A quoted text after the name of its type, such as `date '2024-01-31'`. -/
  | typed (keyword text : String)
  | typeName (type : ValueType)
  /-- A function name, spelled as given. -/
  | functionName (name : String)
  /-- Text that is part of the statement as it stands. -/
  | verbatim (text : String)
deriving DecidableEq, Repr

namespace Token

/-- The tokens between parentheses. -/
def parenthesized (tokens : List Token) : List Token :=
  .openParen :: (tokens ++ [.closeParen])

/-- Token lists one after the other, with a separator between any two. -/
def separatedBy (separator : List Token) : List (List Token) → List Token
  | [] => []
  | [item] => item
  | item :: next :: rest => item ++ separator ++ separatedBy separator (next :: rest)

/-- Token lists separated by a comma and a space. -/
def commaSeparated : List (List Token) → List Token :=
  separatedBy [.comma, .space]

end Token

end SqlCompose
