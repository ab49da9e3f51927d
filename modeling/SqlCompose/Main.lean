import SqlCompose.CommandLine.Run

/-!
The program: it looks at the environment, hands its arguments to the command line and prints what
comes of it.
-/

set_option autoImplicit false
set_option relaxedAutoImplicit false

namespace SqlCompose.CommandLine

/-- The number of a failure; some interfaces of the system report it with a minus sign. -/
def failureNumber (code : UInt32) : Nat :=
  if code < 0x80000000 then code.toNat else (0 - code).toNat

/-- The wording of the failure with a given number. -/
def numberedReason (number : Nat) (details : String) : String :=
  match number with
  | 2 => FileFailure.notFound.message
  | 20 => FileFailure.notADirectory.message
  | 21 => FileFailure.isADirectory.message
  | _ => details ++ " (os error " ++ toString number ++ ")"

/-- The system's reason for a failed operation on a file. -/
def failureReason : IO.Error → String
  | .noFileOrDirectory _ code details | .inappropriateType _ code details
  | .permissionDenied _ code details | .invalidArgument _ code details
  | .resourceExhausted _ code details | .noSuchThing _ code details =>
    numberedReason (failureNumber code) details
  | cause => toString cause

/-- The content of the file at a path, or the reason why there is none. -/
def readBytes (path : String) : IO (Except String ByteArray) :=
  try
    let bytes ← IO.FS.readBinFile path
    pure (.ok bytes)
  catch cause => pure (.error (failureReason cause))

/-- Access to the files of the system. Directories exist, but hold no text. -/
def systemFiles : FileAccess IO where
  isPresent path := do
    match ← readBytes path with
    | .ok _ => pure true
    | .error reason =>
      pure (reason != FileFailure.notFound.message && reason != FileFailure.notADirectory.message)
  readText path := do
    match ← readBytes path with
    | .error reason => pure (.error reason)
    | .ok bytes =>
      match String.fromUTF8? bytes with
      | some text => pure (.ok text)
      | none => pure (.error FileFailure.notText.message)

/-- The surroundings of the running program. -/
def systemSurroundings : IO Settings.Surroundings := do
  let configPath ← IO.getEnv "PGQUERY_CONFIG"
  let chosen ← IO.getEnv "XDG_CONFIG_HOME"
  let home ← IO.getEnv "HOME"
  let usual := home.map (· ++ "/.config")
  let configDirectory := (chosen.filter fun directory ↦ directory.startsWith "/").or usual
  pure { configPath, configDirectory }

end SqlCompose.CommandLine

/-- Runs the program. -/
def main (arguments : List String) : IO UInt32 := do
  let surroundings ← SqlCompose.CommandLine.systemSurroundings
  match ← SqlCompose.CommandLine.run SqlCompose.CommandLine.systemFiles surroundings arguments with
  | .ok output =>
    IO.print output
    pure 0
  | .error failure =>
    IO.eprintln failure.message
    pure failure.exitCode
