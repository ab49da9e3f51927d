import SqlCompose.Compiler
import SqlCompose.Json.Shape

/-!
Settings: the nesting limit and whether finished statements are reported. A limit of zero would
refuse every expression and is not valid. Settings can be read from and written to JSON; settings
files have a format of their own.
-/

set_option autoImplicit false
set_option relaxedAutoImplicit false

namespace SqlCompose

/-- The settings of a compiler. -/
structure Settings where
  maxDepth : UInt64 := defaultMaxDepth
  logStatements : Bool := false
deriving DecidableEq, Repr

/-- Why settings could not be obtained. -/
inductive SettingsError
  /-- There is no file at the path. -/
  | fileNotFound (path : String)
  /-- The file cannot be read, with the system's reason. -/
  | unreadable (reason : String)
  /-- The text is no settings text. -/
  | malformed
  /-- The settings make no sense. -/
  | invalid (reason : String)
deriving DecidableEq, Repr

namespace SettingsError

/-- The wording of a failure. -/
def message : SettingsError → String
  | fileNotFound path => "Config file not found: " ++ path
  | unreadable reason => "Failed to read config file: " ++ reason
  | malformed => "Failed to parse config file"
  | invalid reason => "Invalid configuration: " ++ reason

end SettingsError

namespace Settings

/-- The settings themselves, if they are valid. -/
def validated (settings : Settings) : Except SettingsError Settings :=
  if settings.maxDepth = 0 then
    .error (.invalid "compiler.max_expression_depth must be at least 1")
  else .ok settings

/-- The compiler with these settings. -/
def compiler (settings : Settings) : Compiler :=
  { maxDepth := settings.maxDepth, logStatements := settings.logStatements }

/-- Reads the part of the settings that concerns the compiler. -/
def ofCompilerJson? (value : Json) : Option Settings := do
  match ← value.fields? ["max_expression_depth", "log_statements"] with
  | [maxDepth, logStatements] =>
    some
      { maxDepth := ← Json.withDefault? defaultMaxDepth Json.uint64? maxDepth
        logStatements := ← Json.withDefault? false Json.boolean? logStatements }
  | _ => none

/-- Reads settings, without asking whether they are valid. -/
def ofJson? (levels : Nat) (value : Json) : Option Settings :=
  match levels with
  | 0 => none
  | inner + 1 => do
    match ← value.fields? ["compiler"] with
    | [compiler] =>
      Json.withDefault? {} (fun part ↦ if inner = 0 then none else ofCompilerJson? part) compiler
    | _ => none

/-- Writes settings. -/
def toJson (settings : Settings) : Json :=
  .object [("compiler", .object
    [("max_expression_depth", .integer settings.maxDepth.toNat),
      ("log_statements", .boolean settings.logStatements)])]

end Settings

end SqlCompose
