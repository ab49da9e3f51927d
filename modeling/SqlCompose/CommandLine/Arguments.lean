/-!
The arguments of the command line. There are two commands, one that composes a statement from a
document and one that checks settings; each takes a path, and the first also takes two options.
Options are recognized before and after the path and in all usual spellings, at most once each,
until two dashes end them. Words that no rule admits are wrong usage.
-/

set_option autoImplicit false
set_option relaxedAutoImplicit false

namespace SqlCompose.CommandLine

/-- The statements that a document can be turned into. -/
inductive StatementKind
  | select
  | updateAll
  | deleteAll
deriving DecidableEq, Repr

/-- The statement with a given name. -/
def StatementKind.ofName? : String → Option StatementKind
  | "select" => some select
  | "update-all" => some updateAll
  | "delete-all" => some deleteAll
  | _ => none

/-- A topic on which help is given. -/
inductive HelpTopic
  | overview
  | compile
  | checkConfig
  | help
deriving DecidableEq, Repr

/-- What the command line asks for. -/
inductive Command
  /-- Compose a statement from the document in a file. -/
  | compile (file : String) (statement : StatementKind) (config : Option String)
  /-- Check the settings in a file, or those that hold without one. -/
  | checkConfig (path : Option String)
  | version
  | help (topic : HelpTopic)
deriving DecidableEq, Repr

/-- The shape of a single argument. -/
inductive Shape
  /-- Two dashes alone. -/
  | terminator
  /-- Two dashes and a name, possibly with a value after an equals sign. -/
  | long (name : String) (value : Option String)
  /-- One dash and a letter, with the characters that follow it. -/
  | short (letter : Char) (attached : List Char)
  | word (text : String)
deriving DecidableEq, Repr

/-- The shape of an argument; a dash alone is an ordinary word. -/
def shapeOf (argument : String) : Shape :=
  match argument.toList with
  | ['-', '-'] => .terminator
  | '-' :: '-' :: text =>
    let name := text.takeWhile (· != '=')
    .long (String.ofList name)
      (if name.length = text.length then none
       else some (String.ofList (text.drop (name.length + 1))))
  | '-' :: letter :: attached => .short letter attached
  | _ => .word argument

/-- The value attached to a short option, without an equals sign in front. -/
def attachedValue : List Char → Option String
  | [] => none
  | '=' :: text => some (String.ofList text)
  | text => some (String.ofList text)

/-- A path that has at least one character, where none was given before. -/
def newPath? (earlier : Option String) (path : String) : Option String :=
  if earlier.isSome || path.isEmpty then none else some path

/-- The last of the paths, if there is at most one. -/
def onlyPath? (earlier : Option String) : List String → Option (Option String)
  | [] => some earlier
  | path :: rest => do onlyPath? (some (← newPath? earlier path)) rest

/-! ### Composing a statement -/

/-- The options and the path seen so far. -/
structure CompileArguments where
  file : Option String := none
  statement : Option StatementKind := none
  config : Option String := none

/-- The command, if the path was given. -/
def CompileArguments.command? (seen : CompileArguments) : Option Command :=
  seen.file.map fun file ↦ .compile file (seen.statement.getD .select) seen.config

/-- The options that take a value. -/
inductive CompileOption
  | statement
  | config
deriving DecidableEq, Repr

/-- Takes the value of an option that was not given before. -/
def CompileArguments.with? (seen : CompileArguments) (option : CompileOption) (value : String) :
    Option CompileArguments :=
  match option with
  | .statement =>
    if seen.statement.isSome then none
    else (StatementKind.ofName? value).map fun kind ↦ { seen with statement := some kind }
  | .config => (newPath? seen.config value).map fun path ↦ { seen with config := some path }

/-- What an argument with dashes stands for: a request for help, or an option with the value
attached to it. -/
def compileOption? : Shape → Option (Option (CompileOption × Option String))
  | .long "statement" value => some (some (.statement, value))
  | .long "config" value => some (some (.config, value))
  | .long "help" none => some none
  | .short 's' attached => some (some (.statement, attachedValue attached))
  | .short 'c' attached => some (some (.config, attachedValue attached))
  | .short 'h' _ => some none
  | _ => none

/-- Takes the arguments after `compile`. While an option awaits its value, only an ordinary word may
come next. -/
def compileCommand? (awaiting : Option CompileOption) (seen : CompileArguments) :
    List String → Option Command
  | [] => if awaiting.isSome then none else seen.command?
  | argument :: rest =>
    match awaiting, shapeOf argument with
    | some option, .word value => do compileCommand? none (← seen.with? option value) rest
    | some _, _ => none
    | none, .word path => do
      compileCommand? none { seen with file := some (← newPath? seen.file path) } rest
    | none, .terminator => do
      CompileArguments.command? { seen with file := ← onlyPath? seen.file rest }
    | none, shape => do
      match ← compileOption? shape with
      | none => some (.help .compile)
      | some (option, none) => compileCommand? (some option) seen rest
      | some (option, some value) => compileCommand? none (← seen.with? option value) rest

/-! ### Checking settings -/

/-- Takes the arguments after `check-config`. -/
def checkConfigCommand? (path : Option String) : List String → Option Command
  | [] => some (.checkConfig path)
  | argument :: rest =>
    match shapeOf argument with
    | .word text => do checkConfigCommand? (some (← newPath? path text)) rest
    | .terminator => (onlyPath? path rest).map .checkConfig
    | .long "help" none | .short 'h' _ => some (.help .checkConfig)
    | _ => none

/-! ### All arguments -/

/-- Takes the arguments after `help`. -/
def helpCommand? : List String → Option Command
  | [] => some (.help .overview)
  | ["compile"] => some (.help .compile)
  | ["check-config"] => some (.help .checkConfig)
  | ["help"] => some (.help .help)
  | _ => none

/-- What the arguments ask for, or nothing if they are wrong usage. -/
def command? : List String → Option Command
  | [] => none
  | argument :: rest =>
    match shapeOf argument with
    | .long "version" none | .short 'V' _ => some .version
    | .long "help" none | .short 'h' _ => some (.help .overview)
    | .word "compile" => compileCommand? none {} rest
    | .word "check-config" => checkConfigCommand? none rest
    | .word "help" => helpCommand? rest
    | _ => none

end SqlCompose.CommandLine
