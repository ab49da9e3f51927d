import SqlCompose.CompileError
import SqlCompose.Literal
import SqlCompose.Token

/-!
Literals as tokens. Doubles and bytes carry a cast that fixes their type, dates and times are typed
texts, and arrays list their elements between brackets, with a cast only when there is no element to
tell the type. A literal occupies the nesting level at which it stands; the elements of an array
stand one level deeper, and that level is claimed even by an array without elements. A double that
is not finite has no written form.
-/

set_option autoImplicit false
set_option relaxedAutoImplicit false

namespace SqlCompose

/-- Written elements between brackets; without any, the type is named. -/
def arrayTokens (elements : List (List Token)) (elementType : ValueType) : List Token :=
  let listed :=
    .keyword .array :: .openBracket :: (Token.commaSeparated elements ++ [.closeBracket])
  if elements.isEmpty then listed ++ [.cast, .typeName (.array elementType)] else listed

namespace Literal

/-- The failure for a double without finite value. -/
def notRepresentable (value : Binary64) : CompileError :=
  .unsupportedLiteral
    ("float value " ++ FloatLayout.statement.write value ++ " has no SQL representation")

mutual

/-- The tokens of a literal that stands at the given nesting level. -/
def tokensAt (limit depth : Nat) : Literal → Except CompileError (List Token)
  | null => .ok [.null]
  | boolean value => .ok [.boolean value]
  | text value => .ok [.text value]
  | integer value => .ok [.integer value]
  | float value =>
    if value.isFinite then .ok [.float value, .cast, .typeName .float]
    else .error (notRepresentable value)
  | decimal value => .ok [.decimal value]
  | binary bytes => .ok [.bytes bytes, .cast, .typeName .binary]
  | date value => .ok [.typed "date" (String.ofList value.text)]
  | time value => .ok [.typed "time" (String.ofList value.text)]
  | timestamp value => .ok [.typed "timestamp" (String.ofList (value.text ' '))]
  | interval value => .ok [.typed "interval" (String.ofList value.text)]
  | array elements elementType => do
    checkDepth limit (depth + 1)
    let written ← tokensOfEach limit (depth + 1) elements
    pure (arrayTokens written elementType)

/-- The tokens of each of several literals at one nesting level. -/
def tokensOfEach (limit depth : Nat) : List Literal → Except CompileError (List (List Token))
  | [] => .ok []
  | literal :: rest => do
    let first ← tokensAt limit depth literal
    let others ← tokensOfEach limit depth rest
    pure (first :: others)

end

/-- The tokens of a literal on its own. -/
def tokens (limit : Nat) (literal : Literal) : Except CompileError (List Token) := do
  checkDepth limit 1
  literal.tokensAt limit 1

end Literal

end SqlCompose
