import SqlCompose.Settings
import SqlCompose.Toml.Reader

/-!
Settings texts. They are TOML documents in which only the table `compiler` matters. That table may
also be given as an array of its two values in order; a date or time in its place sets nothing. What
is not known is ignored, but it has to be well formed like the rest.
-/

set_option autoImplicit false
set_option relaxedAutoImplicit false

namespace SqlCompose.Settings

/-- The nesting limit: an integer of sixty-four bits without sign. -/
def maxDepthOf? : Toml → Option UInt64
  | .integer value =>
    if 0 ≤ value ∧ value.toNat < UInt64.size then some (UInt64.ofNat value.toNat) else none
  | _ => none

/-- Whether finished statements are reported. -/
def logStatementsOf? : Toml → Option Bool
  | .boolean value => some value
  | _ => none

/-- A value, unless it is absent and the fallback takes its place. -/
def orDefault? {α : Type} (fallback : α) (read : Toml → Option α) : Option Toml → Option α
  | none => some fallback
  | some value => read value

/-- The settings with the given values in place of defaults. -/
def ofValues? (maxDepth logStatements : Option Toml) : Option Settings := do
  some
    { maxDepth := ← orDefault? defaultMaxDepth maxDepthOf? maxDepth
      logStatements := ← orDefault? false logStatementsOf? logStatements }

/-- The settings in the `compiler` part of a document. -/
def ofCompilerToml? : Toml → Option Settings
  | .table _ entries =>
    let unknown := entries.filter fun (key, _) ↦
      key != "max_expression_depth" && key != "log_statements"
    if Toml.entriesReadable unknown then
      ofValues? (entries.lookup "max_expression_depth") (entries.lookup "log_statements")
    else none
  | .array items => ofValues? items[0]? items[1]?
  | .dateTime _ => some {}
  | _ => none

/-- The settings in a document. -/
def ofDocument? (entries : List (String × Toml)) : Option Settings :=
  if Toml.entriesReadable (entries.filter fun (key, _) ↦ key != "compiler") then
    orDefault? {} ofCompilerToml? (entries.lookup "compiler")
  else none

/-- The settings that a text describes, if they are valid. -/
def ofText (text : String) : Except SettingsError Settings :=
  match (Toml.read? text).bind ofDocument? with
  | some settings => settings.validated
  | none => .error .malformed

end SqlCompose.Settings
