import SqlCompose.Token

/-!
How a database reads the tokens of an expression. Operators bind with different strength, and where
parentheses do not say otherwise an operand belongs to the operator beside it that binds most
tightly. From the tightest on these are casts, signs, powers, products, sums, concatenation, range
and pattern tests, comparisons, null tests, negation, conjunction and disjunction.

A reader goes through the tokens once, from left to right, with a stack of what is still open:
brackets, and operators that wait for an operand. A new operator first completes the open ones that
bind at least as tightly as itself; a closing bracket completes everything inside it. What comes out
is a phrase, in which every operator has its operands.

The level of negation is a parameter, and so is whether numbers are taken apart into a sign and a
magnitude; `Reader.postgres` has the values of PostgreSQL. A second reader, which takes a negation
to bind more tightly than everything else, reads back what was meant rather than what is understood.
-/

set_option autoImplicit false
set_option relaxedAutoImplicit false

namespace SqlCompose

/-! ### Phrases -/

/-- What stands before a bracketed list of phrases. -/
inductive Listing
  | call (name : String)
  | array
deriving DecidableEq, Repr

/-- An expression as it is understood. -/
inductive Phrase
  | constant (token : Token)
  | column (qualifier name : String)
  | word (name : String)
  | list (head : Listing) (items : List Phrase)
  | sign (symbol : String) (operand : Phrase)
  | negation (operand : Phrase)
  | infixed (symbol : Token) (left right : Phrase)
  | nullTest (operand : Phrase) (negated : Bool)
  | between (value first last : Phrase)
  | membership (value collection : Phrase)
  | cast (operand : Phrase) (type : ValueType)

/-- The token that ends a bracketed list. -/
def Listing.closing : Listing → Token
  | call _ => .closeParen
  | array => .closeBracket

/-! ### Levels -/

/-- The levels of the operators of the catalog, from the loosest on. -/
def symbolLevels : List (String × Nat) :=
  [("OR", 1), ("AND", 2), ("<", 5), ("<=", 5), (">", 5), (">=", 5), ("LIKE", 6), ("ILIKE", 6),
   ("||", 7), ("+", 8), ("-", 8), ("*", 9), ("%", 9), ("^", 10)]

/-- The level of an operator between two operands. -/
def Token.level? : Token → Option Nat
  | .equal | .notEqual => some 5
  | .divide => some 9
  | .operator symbol => symbolLevels.lookup symbol
  | _ => none

/-- The word that joins conditions and the bounds of a range. -/
def Token.isAnd : Token → Bool
  | .keyword .and => true
  | .operator symbol => symbol == "AND"
  | _ => false

/-- A constant. -/
def Token.isConstant : Token → Bool
  | .integer _ | .count _ | .float _ | .decimal _ | .text _ | .boolean _ | .null | .bytes _
  | .typed _ _ => true
  | _ => false

/-- A way of reading: how tightly a negation binds, and whether the sign of a number is an operator
of its own. -/
structure Reader where
  negationLevel : Nat
  takesSignsApart : Bool

/-- Expressions as PostgreSQL reads them. -/
def Reader.postgres : Reader := ⟨3, true⟩

/-- Something that is still open. -/
inductive Frame
  | group
  | items (head : Listing) (before : List Phrase)
  | any (value : Phrase)
  /-- A range test before the word between its bounds. -/
  | between (value : Phrase)
  | betweenAnd (value first : Phrase)
  | sign (symbol : String)
  | negation
  | infixed (symbol : Token) (level : Nat) (left : Phrase)

namespace Reader

/-- How tightly an open operator binds; brackets count as the loosest. -/
def level (reader : Reader) : Frame → Nat
  | .betweenAnd _ _ => 6
  | .sign _ => 11
  | .negation => reader.negationLevel
  | .infixed _ level _ => level
  | _ => 0

end Reader

/-- The phrase that an open operator makes with its last operand. -/
def Frame.complete : Frame → Phrase → Phrase
  | betweenAnd value first, operand => .between value first operand
  | sign symbol, operand => .sign symbol operand
  | negation, operand => .negation operand
  | infixed symbol _ left, operand => .infixed symbol left operand
  | _, operand => operand

namespace Reader

/-- Completes the open operators that bind at least as tightly as the given level. -/
def reduce (reader : Reader) (bound : Nat) : List Frame → Phrase → List Frame × Phrase
  | [], value => ([], value)
  | frame :: stack, value =>
    if bound ≤ reader.level frame then reduce reader bound stack (frame.complete value)
    else (frame :: stack, value)

end Reader

/-! ### Reading -/

/-- What a reader expects next. -/
inductive Expecting
  | operand (stack : List Frame)
  | operator (stack : List Frame) (value : Phrase)
  /-- A dot after the first name of a column. -/
  | point (stack : List Frame) (qualifier : String)
  | columnName (stack : List Frame) (qualifier : String)
  /-- Arguments, or anything else if the name is a word of its own. -/
  | arguments (stack : List Frame) (name : String)
  | elements (stack : List Frame)
  /-- The array after `= ANY`. -/
  | collection (stack : List Frame) (value : Phrase)
  | nullOrNot (stack : List Frame) (value : Phrase)
  | null (stack : List Frame) (value : Phrase)
  | type (stack : List Frame) (value : Phrase)

namespace Reader

variable (reader : Reader)

/-- The end of a bracket. -/
def closeBracket (token : Token) : List Frame → Phrase → Option Expecting
  | .group :: stack, value => if token = .closeParen then some (.operator stack value) else none
  | .any left :: stack, value =>
    if token = .closeParen then some (.operator stack (.membership left value)) else none
  | .items head before :: stack, value =>
    if token = head.closing then some (.operator stack (.list head (before ++ [value]))) else none
  | _, _ => none

/-- The end of an item of a list. -/
def nextItem : List Frame → Phrase → Option Expecting
  | .items head before :: stack, value =>
    some (.operand (.items head (before ++ [value]) :: stack))
  | _, _ => none

/-- The word between two conditions, or between the bounds of a range. -/
def joinConditions : List Frame → Phrase → Expecting
  | .between value :: stack, first => .operand (.betweenAnd value first :: stack)
  | stack, left => .operand (.infixed (.operator "AND") 2 left :: stack)

/-- A token where an operand is expected. -/
def stepOperand (stack : List Frame) : Token → Option Expecting
  | .openParen => some (.operand (.group :: stack))
  | .identifier qualifier => some (.point stack qualifier)
  | .functionName name => some (.arguments stack name)
  | .operator symbol =>
    if symbol = "-" ∨ symbol = "+" then some (.operand (.sign symbol :: stack)) else none
  | .keyword .not => some (.operand (.negation :: stack))
  | .keyword .array => some (.elements stack)
  | .keyword .any =>
    match stack with
    | .infixed .equal _ left :: stack => some (.collection stack left)
    | _ => none
  | .closeParen =>
    match stack with
    | .items (.call name) [] :: stack => some (.operator stack (.list (.call name) []))
    | _ => none
  | .closeBracket =>
    match stack with
    | .items .array [] :: stack => some (.operator stack (.list .array []))
    | _ => none
  | token => if token.isConstant then some (.operator stack (.constant token)) else none

/-- A token after an operand. -/
def stepOperator (stack : List Frame) (value : Phrase) (token : Token) : Option Expecting :=
  let completed (bound : Nat) := reader.reduce bound stack value
  if token.isAnd then some (joinConditions (completed 2).1 (completed 2).2)
  else
    match token with
    | .cast => some (.type (completed 12).1 (completed 12).2)
    | .keyword .is => some (.nullOrNot (completed 4).1 (completed 4).2)
    | .keyword .between => some (.operand (.between (completed 6).2 :: (completed 6).1))
    | .comma => nextItem (completed 1).1 (completed 1).2
    | .closeParen | .closeBracket => closeBracket token (completed 1).1 (completed 1).2
    | _ => token.level?.map fun level ↦
      .operand (.infixed token level (completed level).2 :: (completed level).1)

/-- One token. -/
def step : Expecting → Token → Option Expecting
  | .operand stack, token => stepOperand stack token
  | .operator stack value, token => reader.stepOperator stack value token
  | .point stack qualifier, .dot => some (.columnName stack qualifier)
  | .columnName stack qualifier, .identifier name =>
    some (.operator stack (.column qualifier name))
  | .arguments stack name, .openParen => some (.operand (.items (.call name) [] :: stack))
  | .arguments stack name, token => reader.stepOperator stack (.word name) token
  | .elements stack, .openBracket => some (.operand (.items .array [] :: stack))
  | .collection stack value, .openParen => some (.operand (.any value :: stack))
  | .nullOrNot stack value, .keyword .null => some (.operator stack (.nullTest value false))
  | .nullOrNot stack value, .keyword .not => some (.null stack value)
  | .null stack value, .keyword .null => some (.operator stack (.nullTest value true))
  | .type stack value, .typeName type => some (.operator stack (.cast value type))
  | _, _ => none

/-- The phrase at the end, if nothing but operators with all their operands is open. -/
def finish : Expecting → Option Phrase
  | .operator stack value =>
    match reader.reduce 1 stack value with
    | ([], value) => some value
    | _ => none
  | .arguments stack name =>
    match reader.reduce 1 stack (.word name) with
    | ([], value) => some value
    | _ => none
  | _ => none

/-- Reads the given words, one by one. -/
def run (state : Expecting) : List Token → Option Phrase
  | [] => reader.finish state
  | token :: rest => (reader.step state token).bind fun next ↦ run next rest

end Reader

/-! ### Words -/

/-- A number that is written with a minus sign. -/
def Token.isNegative : Token → Bool
  | .integer value => decide (value < 0)
  | .float value => value.isNegative
  | .decimal value => value.negative
  | _ => false

/-- A number without its sign. -/
def Token.magnitude : Token → Token
  | .integer value => .count (.ofNat value.toInt.natAbs)
  | .float value => .float (value.withSign false)
  | .decimal value => .decimal { value with negative := false }
  | token => token

namespace Reader

/-- What a token is to a reader: nothing if it is white space, and two words if it is a number whose
sign is taken apart. -/
def word (reader : Reader) : Token → List Token
  | .space | .newline => []
  | token =>
    if reader.takesSignsApart then
      (if token.isNegative then [.operator "-"] else []) ++ [token.magnitude]
    else [token]

/-- The words of a list of tokens. -/
def words (reader : Reader) (tokens : List Token) : List Token :=
  tokens.flatMap reader.word

/-- The phrase that tokens are understood as. -/
def read (reader : Reader) (tokens : List Token) : Option Phrase :=
  reader.run (.operand []) (reader.words tokens)

end Reader

end SqlCompose
