import SqlCompose.Files
import SqlCompose.Settings.Text

/-!
Where settings come from. A path that is named is used, whatever it leads to. Otherwise the path in
the environment is used if one is set there, else the file in the working directory, else the file
in the user's configuration directory, of these two only one that exists. Without any file the
defaults hold.
-/

set_option autoImplicit false
set_option relaxedAutoImplicit false

namespace SqlCompose.Settings

/-- The outcome of loading settings, with the events reported on the way. -/
structure Loading where
  result : Except SettingsError Settings
  events : List LogEvent := []

/-- The surroundings in which settings are looked up. -/
structure Surroundings where
  /-- The path that the environment names. -/
  configPath : Option String := none
  /-- The user's configuration directory. -/
  configDirectory : Option String := none

/-- The settings file in the working directory. -/
def localFile : String := "pgquery.toml"

/-- The settings file in a configuration directory. -/
def userFile (directory : String) : String := directory ++ "/pgquery/config.toml"

/-- The outcome for a file at a path with the given text. -/
def ofFileText (path text : String) : Loading :=
  match ofText text with
  | .ok settings => ⟨.ok settings, [.loadedSettings path]⟩
  | .error cause => ⟨.error cause, []⟩

/-- The settings in the file at a path. -/
def fromFile {m : Type → Type} [Monad m] (files : FileAccess m) (path : String) : m Loading := do
  if ← files.isPresent path then
    match ← files.readText path with
    | .ok text => pure (ofFileText path text)
    | .error reason => pure ⟨.error (.unreadable reason), []⟩
  else pure ⟨.error (.fileNotFound path), []⟩

/-- The settings in the first of several files that exists, or else the defaults. -/
def fromFirstOf {m : Type → Type} [Monad m] (files : FileAccess m) : List String → m Loading
  | [] => pure ⟨.ok {}, [.defaultSettings]⟩
  | path :: others => do
    if ← files.isPresent path then fromFile files path else fromFirstOf files others

/-- The settings that hold in the given surroundings, unless a path is named. -/
def load {m : Type → Type} [Monad m] (files : FileAccess m) (surroundings : Surroundings)
    (named : Option String := none) : m Loading :=
  match named, surroundings.configPath with
  | some path, _ => fromFile files path
  | none, some path => fromFile files path
  | none, none =>
    fromFirstOf files (localFile :: (surroundings.configDirectory.map userFile).toList)

end SqlCompose.Settings
