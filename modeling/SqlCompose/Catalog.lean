/-!
The catalog of operators and functions. A call is identified by its name together with the number of
its arguments, and the catalog says how it is written: between two operands, before one operand, as
a function under another name or as a bare word. A call without entry is a function under its own
name, so every function of the database can be called without being listed.
-/

set_option autoImplicit false
set_option relaxedAutoImplicit false

namespace SqlCompose

/-- How a call is written. -/
inductive CallRule
  /-- The symbol before its only operand. -/
  | before (symbol : String)
  /-- The symbol between its two operands. -/
  | between (symbol : String)
  /-- A function of the catalog with its arguments between parentheses. -/
  | function (name : String)
  /-- A word without parentheses. -/
  | word (name : String)
  /-- A function outside the catalog, called by its own name. -/
  | fallback (name : String)
deriving DecidableEq, Repr

namespace CallRule

/-- The text that the rule contributes to the statement. -/
def spelling : CallRule → String
  | before symbol => symbol
  | between symbol => symbol
  | function name => name
  | word name => name
  | fallback name => name

/-- The rule as messages name it. -/
def description : CallRule → String
  | before symbol => "Catalog(Prefix(\"" ++ symbol ++ "\"))"
  | between symbol => "Catalog(Infix(\"" ++ symbol ++ "\"))"
  | function name => "Catalog(Function(\"" ++ name ++ "\"))"
  | word name => "Catalog(Keyword(\"" ++ name ++ "\"))"
  | fallback name => "Fallback(\"" ++ name ++ "\")"

/-- Calls under this rule stand between two operands. -/
def isBetween : CallRule → Bool
  | between _ => true
  | _ => false

/-- Calls under this rule begin with a symbol before an operand. -/
def isBefore : CallRule → Bool
  | before _ => true
  | _ => false

end CallRule

/-- A catalog entry: name, number of arguments and rule. -/
structure CatalogEntry where
  name : String
  arity : Nat
  rule : CallRule

/-- All entries. No two have the same name and number of arguments. -/
def catalog : List CatalogEntry :=
  [⟨"and", 2, .between "AND"⟩, ⟨"or", 2, .between "OR"⟩,
   ⟨"<", 2, .between "<"⟩, ⟨"<=", 2, .between "<="⟩,
   ⟨">", 2, .between ">"⟩, ⟨">=", 2, .between ">="⟩,
   ⟨"+", 2, .between "+"⟩, ⟨"-", 2, .between "-"⟩, ⟨"*", 2, .between "*"⟩,
   ⟨"rem", 2, .between "%"⟩, ⟨"pow", 2, .between "^"⟩,
   ⟨"-", 1, .before "-"⟩, ⟨"+", 1, .before "+"⟩,
   ⟨"<>", 2, .between "||"⟩, ⟨"++", 2, .between "||"⟩, ⟨"concat", 2, .between "||"⟩,
   ⟨"like", 2, .between "LIKE"⟩, ⟨"ilike", 2, .between "ILIKE"⟩,
   ⟨"downcase", 1, .function "lower"⟩, ⟨"upcase", 1, .function "upper"⟩,
   ⟨"date_add", 2, .between "+"⟩, ⟨"date_sub", 2, .between "-"⟩,
   ⟨"random", 0, .function "random"⟩,
   ⟨"now", 0, .word "localtimestamp"⟩, ⟨"localtimestamp", 0, .word "localtimestamp"⟩,
   ⟨"current_date", 0, .word "current_date"⟩]

/-- The rule for a call with the given name and number of arguments. -/
def callRule (name : String) (arity : Nat) : CallRule :=
  match catalog.find? fun entry ↦ entry.name == name && entry.arity == arity with
  | some entry => entry.rule
  | none => .fallback name

end SqlCompose
