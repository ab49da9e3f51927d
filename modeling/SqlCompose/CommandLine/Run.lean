import SqlCompose.CommandLine.Arguments
import SqlCompose.CommandLine.Document
import SqlCompose.Settings.Lookup

/-!
What the command line does. A run ends with a text for standard output or with a failure, whose
message goes to the error output; wrong usage has an exit code of its own.
-/

set_option autoImplicit false
set_option relaxedAutoImplicit false

namespace SqlCompose.CommandLine

/-- Why a run failed. -/
inductive Failure
  | usage
  | settings (cause : SettingsError)
  /-- The document's file cannot be read, with the system's reason. -/
  | unreadableFile (file reason : String)
  | invalidDocument (file : String)
  | compilation (cause : CompileError)
deriving DecidableEq, Repr

namespace Failure

/-- How the program is called. -/
def usageText : String :=
  "Usage: pgquery compile <FILE> [-s <STATEMENT>] [-c <CONFIG>] | pgquery check-config [PATH]"

/-- The wording of a failure. -/
def message : Failure → String
  | usage => usageText
  | settings cause => "Configuration error: " ++ cause.message
  | unreadableFile file reason => "Error reading file '" ++ file ++ "': " ++ reason
  | invalidDocument file => "Invalid query document '" ++ file ++ "'"
  | compilation cause => "Compilation error: " ++ cause.message

/-- The exit code after a failure. -/
def exitCode : Failure → UInt32
  | usage => 2
  | _ => 1

end Failure

/-- The statement of the given kind for a document. -/
def statementText (compiler : Compiler) (document : Document) : StatementKind → Compilation
  | .select => compiler.select document.query
  | .updateAll => compiler.updateAll ⟨document.query, document.values⟩
  | .deleteAll => compiler.deleteAll ⟨document.query⟩

/-- The output for a document's text under some settings. -/
def compileText (settings : Settings) (file text : String) (statement : StatementKind) :
    Except Failure String :=
  match Document.ofText? text with
  | none => .error (.invalidDocument file)
  | some document =>
    match (statementText settings.compiler document statement).result with
    | .ok sql => .ok (sql ++ "\n")
    | .error cause => .error (.compilation cause)

/-- The output for settings that were found to be valid. -/
def settingsReport (settings : Settings) : String :=
  "Configuration OK\n  compiler.max_expression_depth = " ++ toString settings.maxDepth.toNat ++
    "\n  compiler.log_statements = " ++ (if settings.logStatements then "true" else "false") ++ "\n"

/-- What is printed about a topic. -/
def helpText : HelpTopic → String
  | .overview =>
    "pgquery - Compile structured queries to PostgreSQL\n\n" ++
    "Usage: pgquery <COMMAND>\n\n" ++
    "Commands:\n" ++
    "  compile       Compile a JSON query document to SQL\n" ++
    "  check-config  Validate a settings file\n" ++
    "  help          Print this message or the help of the given subcommand(s)\n\n" ++
    "Options:\n" ++
    "  -h, --help     Print help\n" ++
    "  -V, --version  Print version\n"
  | .compile =>
    "Compile a JSON query document to SQL\n\n" ++
    "Usage: pgquery compile [OPTIONS] <FILE>\n\n" ++
    "Arguments:\n" ++
    "  <FILE>  Path to the query document\n\n" ++
    "Options:\n" ++
    "  -s, --statement <STATEMENT>  Statement to generate from the query [default: select] " ++
    "[possible values: select, update-all, delete-all]\n" ++
    "  -c, --config <CONFIG>        Settings file (defaults to the standard lookup)\n" ++
    "  -h, --help                   Print help\n"
  | .checkConfig =>
    "Validate a settings file\n\n" ++
    "Usage: pgquery check-config [PATH]\n\n" ++
    "Arguments:\n" ++
    "  [PATH]  Path to the settings file (defaults to the standard lookup)\n\n" ++
    "Options:\n" ++
    "  -h, --help  Print help\n"
  | .help =>
    "Print this message or the help of the given subcommand(s)\n\n" ++
    "Usage: pgquery help [COMMAND]...\n\n" ++
    "Arguments:\n" ++
    "  [COMMAND]...  Print help for the subcommand(s)\n"

/-- Carries out a command. Settings are loaded before the document is read. -/
def perform {m : Type → Type} [Monad m] (files : FileAccess m)
    (surroundings : Settings.Surroundings) : Command → m (Except Failure String)
  | .version => pure (.ok "pgquery 0.1.0\n")
  | .help topic => pure (.ok (helpText topic))
  | .checkConfig path => do
    match (← Settings.load files surroundings path).result with
    | .ok settings => pure (.ok (settingsReport settings))
    | .error cause => pure (.error (.settings cause))
  | .compile file statement config => do
    match (← Settings.load files surroundings config).result with
    | .error cause => pure (.error (.settings cause))
    | .ok settings =>
      match ← files.readText file with
      | .error reason => pure (.error (.unreadableFile file reason))
      | .ok text => pure (compileText settings file text statement)

/-- A run with the given arguments. -/
def run {m : Type → Type} [Monad m] (files : FileAccess m) (surroundings : Settings.Surroundings)
    (arguments : List String) : m (Except Failure String) :=
  match command? arguments with
  | none => pure (.error .usage)
  | some command => perform files surroundings command

end SqlCompose.CommandLine
