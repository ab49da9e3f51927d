import SqlCompose.Catalog
import SqlCompose.Expr
import SqlCompose.Literal.Tokens
import SqlCompose.Scope

/-!
Expressions as tokens. Every expression claims a nesting level, and composing stops with an error at
the first one beyond the limit. Operands of operators that are themselves operators between two
operands go between parentheses; an operand after a sign or before a cast does so also when it is a
sign before an operand or a negative number. A call outside the catalog is not grouped, whatever its
name begins with. Comparing with null becomes a null test, and membership in a range becomes a test
between its bounds, which then count as operands of the membership test.
-/

set_option autoImplicit false
set_option relaxedAutoImplicit false

namespace SqlCompose

/-- A qualified column: alias, dot and field. -/
def columnTokens (shortName field : String) : List Token :=
  [.identifier shortName, .dot, .identifier field]

/-- All columns of a source, or a star when its fields are not known. -/
def sourceTokens (source : Source) (shortName : String) : List Token :=
  if source.schema.fields.isEmpty then [.identifier shortName, .dot, .star]
  else Token.commaSeparated (source.schema.fields.map (columnTokens shortName))

namespace Expr

/-- The null constant. -/
def isNullLiteral : Expr → Bool
  | literal value => value.isNull
  | _ => false

/-- Written with an operator between two operands. -/
def isBinary : Expr → Bool
  | equals .. | isIn .. | div .. => true
  | call name arguments => (callRule name arguments.length).isBetween
  | _ => false

/-- Written with a sign in front. -/
def isSigned : Expr → Bool
  | call name arguments => (callRule name arguments.length).isBefore
  | literal value => value.isNegative
  | _ => false

/-- The tokens, between parentheses if asked for. -/
def grouped (group : Bool) (tokens : List Token) : List Token :=
  if group then Token.parenthesized tokens else tokens

/-- An operand of an operator between two operands. -/
def asOperand (operand : Expr) (tokens : List Token) : List Token :=
  grouped operand.isBinary tokens

/-- An operand after a sign or before a cast. -/
def asUnaryOperand (operand : Expr) (tokens : List Token) : List Token :=
  grouped (operand.isBinary || operand.isSigned) tokens

/-- The tokens of a null test. -/
def nullTest (operand : List Token) (negated : Bool) : List Token :=
  operand ++ [.space, .keyword .is, .space] ++
    (if negated then [.keyword .not, .space] else []) ++ [.keyword .null]

/-- The tokens of an equality test. -/
def equalityTest (left right : List Token) (negated : Bool) : List Token :=
  left ++ [.space, if negated then .notEqual else .equal, .space] ++ right

/-- The tokens of a test between two bounds. -/
def betweenTest (value first last : List Token) : List Token :=
  value ++ [.space, .keyword .between, .space] ++ first ++ [.space, .keyword .and, .space] ++ last

/-- The tokens of a test for membership in an array. -/
def anyTest (value array : List Token) : List Token :=
  value ++ [.space, .equal, .space, .keyword .any, .space] ++ Token.parenthesized array

/-- The tokens of a division, whose result is cast to a decimal through its divisor. -/
def quotient (left right : List Token) : List Token :=
  left ++ [.space, .divide, .space] ++ right ++ [.cast, .typeName .decimal]

/-- The tokens of a function call. -/
def functionCall (name : String) (arguments : List (List Token)) : List Token :=
  .functionName name :: Token.parenthesized (Token.commaSeparated arguments)

/-- The tokens of a call, from its arguments and their tokens. The number of arguments is part of
what the catalog looks up, so a rule always meets the operands it is made for. -/
def callTokens (name : String) (arguments : List Expr) (written : List (List Token)) :
    Except CompileError (List Token) :=
  match callRule name arguments.length, arguments, written with
  | .between symbol, [left, right], [leftTokens, rightTokens] =>
    .ok (left.asOperand leftTokens ++ [.space, .operator symbol, .space] ++
      right.asOperand rightTokens)
  | .before symbol, [operand], [operandTokens] =>
    .ok (.operator symbol :: operand.asUnaryOperand operandTokens)
  | .word word, [], _ => .ok [.functionName word]
  | .function function, _, _ => .ok (functionCall function written)
  | .fallback function, _, _ => .ok (functionCall function written)
  | rule, _, _ => .error (.callMismatch name arguments.length rule)

mutual

/-- The tokens of an expression below the given number of enclosing levels. -/
def tokensBelow (scope : Scope) (depth : Nat) : Expr → Except CompileError (List Token)
  | field position name => do
    checkDepth scope.limit (depth + 1)
    let shortName ← Alias.at? scope.aliases position.toNat
    pure (columnTokens shortName name)
  | source position => do
    checkDepth scope.limit (depth + 1)
    let (table, shortName) ← scope.source? position.toNat
    pure (sourceTokens table shortName)
  | not operand => do
    checkDepth scope.limit (depth + 1)
    let inner ← tokensBelow scope (depth + 1) operand
    pure (.keyword .not :: .space :: Token.parenthesized inner)
  | equals left right negated => do
    checkDepth scope.limit (depth + 1)
    if right.isNullLiteral then
      let operand ← tokensBelow scope (depth + 1) left
      pure (nullTest (left.asOperand operand) negated)
    else if left.isNullLiteral then
      let operand ← tokensBelow scope (depth + 1) right
      pure (nullTest (right.asOperand operand) negated)
    else
      let leftTokens ← tokensBelow scope (depth + 1) left
      let rightTokens ← tokensBelow scope (depth + 1) right
      pure (equalityTest (left.asOperand leftTokens) (right.asOperand rightTokens) negated)
  | isIn left (range first last) => do
    checkDepth scope.limit (depth + 1)
    let value ← tokensBelow scope (depth + 1) left
    let firstTokens ← tokensBelow scope (depth + 1) first
    let lastTokens ← tokensBelow scope (depth + 1) last
    pure (betweenTest (left.asOperand value) (first.asOperand firstTokens)
      (last.asOperand lastTokens))
  | isIn left right => do
    checkDepth scope.limit (depth + 1)
    let value ← tokensBelow scope (depth + 1) left
    let collection ← tokensBelow scope (depth + 1) right
    pure (anyTest (left.asOperand value) collection)
  | range _ _ => do
    checkDepth scope.limit (depth + 1)
    .error .bareRange
  | div left right => do
    checkDepth scope.limit (depth + 1)
    let leftTokens ← tokensBelow scope (depth + 1) left
    let rightTokens ← tokensBelow scope (depth + 1) right
    pure (quotient (left.asOperand leftTokens) (right.asUnaryOperand rightTokens))
  | truncate unit operand => do
    checkDepth scope.limit (depth + 1)
    let inner ← tokensBelow scope (depth + 1) operand
    pure (operand.asUnaryOperand inner ++ [.cast, .typeName unit.valueType])
  | call name arguments => do
    checkDepth scope.limit (depth + 1)
    let written ← tokensOfEach scope (depth + 1) arguments
    callTokens name arguments written
  | literal value => do
    checkDepth scope.limit (depth + 1)
    value.tokensAt scope.limit (depth + 1)
  | array elements elementType => do
    checkDepth scope.limit (depth + 1)
    let written ← tokensOfEach scope (depth + 1) elements
    pure (arrayTokens written elementType)

/-- The tokens of each of several expressions below the same number of levels. -/
def tokensOfEach (scope : Scope) (depth : Nat) :
    List Expr → Except CompileError (List (List Token))
  | [] => .ok []
  | expr :: rest => do
    let first ← tokensBelow scope depth expr
    let others ← tokensOfEach scope depth rest
    pure (first :: others)

end

/-- The tokens of an expression in a scope. -/
def tokens (scope : Scope) (expr : Expr) : Except CompileError (List Token) :=
  expr.tokensBelow scope 0

end Expr

end SqlCompose
