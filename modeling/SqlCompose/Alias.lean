import SqlCompose.CompileError
import SqlCompose.Text.Digits

/-!
Short names for the tables of a statement. Each table is called by the first character of its name
and the least number that keeps the alias apart from all earlier ones, so that `users`, `users`,
`posts` become `u0`, `u1`, `p0`. Among one more candidates than there are earlier aliases one is
always free, which bounds the search.
-/

set_option autoImplicit false
set_option relaxedAutoImplicit false

namespace SqlCompose

namespace Alias

/-- The first character of a table name, or nothing for the empty name. -/
def seed (table : String) : List Char :=
  table.toList.take 1

/-- The alias with the given seed and number. -/
def candidate (seed : List Char) (suffix : Nat) : String :=
  String.ofList (seed ++ Text.decimal suffix)

/-- The least number whose alias differs from all earlier ones. -/
def freeSuffix (earlier : List String) (seed : List Char) : Nat :=
  ((List.range (earlier.length + 1)).find? fun suffix ↦
    !earlier.contains (candidate seed suffix)).getD earlier.length

/-- Aliases for the given tables, apart from each other and from the earlier ones. -/
def allocateAfter (earlier : List String) : List String → List String
  | [] => []
  | table :: rest =>
    let shortName := candidate (seed table) (freeSuffix earlier (seed table))
    shortName :: allocateAfter (earlier ++ [shortName]) rest

/-- One alias for each table, in order. -/
def allocate (tables : List String) : List String :=
  allocateAfter [] tables

/-- The alias at a position. -/
def at? (aliases : List String) (index : Nat) : Except CompileError String :=
  match aliases[index]? with
  | some shortName => .ok shortName
  | none => .error (.sourceOutOfRange index aliases.length)

end Alias

end SqlCompose
