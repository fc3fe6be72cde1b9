import DeclBundle.Command.Exit

/-!
# The command

Reads the manifest, makes the plan and writes the files. All decisions are made by the plan; here
the steps meet the disk.
-/

namespace DeclBundle.Main

/-- The help text, by lines. -/
def help : List String :=
  ["Bundle the declaration trees of a project into one declaration file per entry point.",
    "",
    "Usage: declbundle [OPTIONS] <MANIFEST>",
    "",
    "Options:",
    "  -o, --outDir <DIR>                where the bundles go; the manifest's directory by default",
    "  -e, --entry <MODULES>             only these entry modules, with commas between them",
    "      --sourceMap                   write a map next to each bundle",
    "      --starExportConflict <WHICH>  first or last",
    "      --noReserveGlobals            let declarations take the names of globals",
    "      --noModuleMarker              write no empty export clause",
    "      --stats                       write stats.json",
    "      --strict                      fail when there is an error diagnostic",
    "      --pretty <BOOL>               color the diagnostics",
    "  -h, --help                        print this help",
    "  -V, --version                     print the version"]

/-- The line for a command line that is refused; none where an answer was asked for. -/
def refusal : UsageError → String
  | .missingRequired => "error: no manifest was given"
  | .unknownArgument => "error: unexpected argument"
  | .invalidValue => "error: invalid value"
  | .repeated => "error: an argument cannot be used more than once"
  | .unneededValue => "error: an argument takes no value"
  | .help | .version => ""

/-- Answers a command line that cannot be run. -/
def answer (e : UsageError) : IO Unit := do
  match e with
  | .help => help.forM IO.println
  | .version => IO.println "declbundle 0.1.0"
  | e =>
    IO.eprintln (refusal e)
    IO.eprint "\nFor more information, try '--help'.\n"

/-- The text of a file, if it can be read. -/
def read? (path : String) : IO (Option String) := do
  try
    return some (← IO.FS.readFile path)
  catch _ => return none

/-- Does one step on the disk; tells whether it could be done. -/
def perform (step : Step) : IO Bool := do
  try
    match step with
    | .makeDirs path => if path ≠ "" then IO.FS.createDirAll path
    | .write path text => IO.FS.writeFile path text
    return true
  catch _ => return false

/-- Does the steps in order up to the first that cannot be done. -/
def performAll : List Step → IO (Except RunError Unit)
  | [] => return .ok ()
  | step :: rest => do
    if ← perform step then performAll rest else return .error step.error

/-- Runs a command line: reads the manifest and performs the steps of its plan. -/
def runArgs (args : Args) : IO (Except RunError Plan) := do
  match Plan.ofText args (← read? args.manifest) with
  | .error e => return .error e
  | .ok plan => return (← performAll plan.steps).map fun _ => plan

/-- What the surrounding says about colors. -/
def colorEnv : IO ColorEnv := do
  return {
    wanted := ← IO.getEnv "CLICOLOR"
    forced := ← IO.getEnv "CLICOLOR_FORCE"
    refused := ← IO.getEnv "NO_COLOR"
    isTerminal := ← (← IO.getStdout).isTty }

end DeclBundle.Main

open DeclBundle in
/-- The program: answers, or runs, reports and exits with the code of the run. -/
def main (words : List String) : IO UInt32 := do
  match Args.parse words with
  | .error e =>
    Main.answer e
    return (Exit.ofUsage e).code.toUInt32
  | .ok args =>
    let result ← Main.runArgs args
    let pretty := args.pretty.getD (← (← IO.getStderr).isTty)
    let exit := Exit.ofRun args (pretty && (← Main.colorEnv).allows) result
    IO.eprint exit.stderr
    return exit.code.toUInt32
