import SqlCompose.Alias
import SqlCompose.Schema

/-!
The surroundings in which expressions are composed: the sources of the statement, the aliases bound
to them by position and the nesting limit. Sources and aliases are looked up separately, so each
lookup can fail on its own.
-/

set_option autoImplicit false
set_option relaxedAutoImplicit false

namespace SqlCompose

/-- What an expression may refer to, and how deep it may nest. -/
structure Scope where
  sources : List Source
  aliases : List String
  limit : Nat

namespace Scope

/-- The scope of a statement over the given sources, with freshly allocated aliases. -/
def ofSources (sources : List Source) (limit : Nat) : Scope :=
  ⟨sources, Alias.allocate (sources.map Source.table), limit⟩

/-- The source at a position together with its alias; a missing alias is noticed first. -/
def source? (scope : Scope) (index : Nat) : Except CompileError (Source × String) := do
  let shortName ← Alias.at? scope.aliases index
  match scope.sources[index]? with
  | some source => pure (source, shortName)
  | none => .error (.sourceOutOfRange index scope.sources.length)

end Scope

end SqlCompose
