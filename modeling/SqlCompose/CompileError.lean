import SqlCompose.Catalog

/-!
Why a statement could not be composed. Each cause carries what its message names; `message` is the
one place where the wording stands.
-/

set_option autoImplicit false
set_option relaxedAutoImplicit false

namespace SqlCompose

/-- The cause of a failed composition. -/
inductive CompileError
  /-- An expression has no meaning where it stands. -/
  | unsupportedExpression (reason : String)
  /-- A literal has no written form. -/
  | unsupportedLiteral (reason : String)
  /-- A position refers to no source. -/
  | sourceOutOfRange (index bound : Nat)
  /-- An expression nests deeper than the limit. -/
  | depthExceeded (limit : Nat)
  /-- An update assigns nothing. -/
  | noAssignments (table : String)
  /-- A record has no usable key value. -/
  | missingPrimaryKey (table : String)
deriving DecidableEq, Repr

namespace CompileError

/-- The wording of a cause. -/
def message : CompileError → String
  | unsupportedExpression reason => "Unsupported expression: " ++ reason
  | unsupportedLiteral reason => "Unsupported literal: " ++ reason
  | sourceOutOfRange index bound =>
    "Source reference " ++ toString index ++ " is out of range (" ++ toString bound ++
      " sources bound)"
  | depthExceeded limit => "Expression nesting exceeds the limit of " ++ toString limit
  | noAssignments table => "No assignments given for update of \"" ++ table ++ "\""
  | missingPrimaryKey table => "Entity \"" ++ table ++ "\" has no primary key value"

/-- A range that is not the right side of a membership test. -/
def bareRange : CompileError :=
  unsupportedExpression "range used outside of a membership test"

/-- A bulk statement over a query with joins. -/
def bulkJoin : CompileError :=
  unsupportedExpression "joins are not supported in bulk update or delete"

/-- A call whose arguments do not fit the way in which it is written. -/
def callMismatch (name : String) (arity : Nat) (rule : CallRule) : CompileError :=
  unsupportedExpression
    ("call " ++ name ++ "/" ++ toString arity ++ " does not match " ++ rule.description)

end CompileError

/-- Succeeds when a nesting level is within the limit. -/
def checkDepth (limit depth : Nat) : Except CompileError Unit :=
  if depth ≤ limit then .ok () else .error (.depthExceeded limit)

end SqlCompose
