/-!
What is reported while statements are composed and settings are loaded. An event has a level, a
message and the data that belong to the message; events are values, collected in the order in which
they occur.
-/

set_option autoImplicit false
set_option relaxedAutoImplicit false

namespace SqlCompose

/-- A reported event. -/
inductive LogEvent
  /-- A statement is about to be composed. -/
  | compiling (statement : String) (sources : Nat) (dialect : String)
  /-- A statement was composed; reported only on demand. -/
  | generated (statement sql : String)
  /-- A statement could not be composed. -/
  | failed (statement error : String)
  /-- Settings were read from a file. -/
  | loadedSettings (path : String)
  /-- There was no settings file. -/
  | defaultSettings
deriving DecidableEq, Repr

namespace LogEvent

/-- The name of an event's level. -/
def level : LogEvent → String
  | generated .. => "TRACE"
  | _ => "DEBUG"

/-- The wording of an event. -/
def message : LogEvent → String
  | compiling .. => "compiling statement"
  | generated .. => "generated SQL"
  | failed .. => "compilation failed"
  | loadedSettings .. => "loaded settings"
  | defaultSettings => "no config file found, using defaults"

end LogEvent

end SqlCompose
