import DeclBundle.Command.Report
import DeclBundle.Command.Run

/-!
# How a command ends

The exit code of a command and what it says on the error channel. Errors in bundles count only for a
strict run; colors need both to be asked for and a surrounding that allows them.
-/

namespace DeclBundle

/-- What the surrounding says about colors. -/
structure ColorEnv where
  /-- The variable `CLICOLOR`. -/
  wanted : Option String := none
  /-- The variable `CLICOLOR_FORCE`. -/
  forced : Option String := none
  /-- The variable `NO_COLOR`. -/
  refused : Option String := none
  /-- Whether the output goes to a terminal. -/
  isTerminal : Bool := false

/-- Whether colors may be used: forcing wins over refusing, and without either a terminal is due. -/
def ColorEnv.allows (e : ColorEnv) : Bool :=
  if e.forced.any (· ≠ "0") then true
  else if e.refused.isSome then false
  else e.wanted.all (· ≠ "0") && e.isTerminal

/-- The end of a command. -/
structure Exit where
  code : Nat
  stderr : String := ""
deriving DecidableEq, Repr

namespace Exit

/-- The end of a command whose line cannot be run. -/
def ofUsage (e : UsageError) : Exit where
  code := if e.isRequested then 0 else 2

/-- The exit after a run: 1 if it failed, 2 if it is strict and there are errors, 0 otherwise, with
the report of what was found. -/
def ofRun (args : Args) (color : Bool) : Except RunError Plan → Exit
  | .error e => { code := 1, stderr := "Error: " ++ e.message ++ "\n" }
  | .ok plan =>
    { code := if args.strict && plan.hasErrors then 2 else 0
      stderr := Report.render color plan.diagnostics
        ++ Report.summary color plan.diagnostics plan.bundles.length ++ "\n" }

end Exit

/-- The files after a command, and how it ends. Nothing that is not asked for is colored unless the
error channel is a terminal. -/
def execute (words : List String) (env : ColorEnv) (stderrIsTerminal : Bool) (t : FileTree) :
    FileTree × Exit :=
  match Args.parse words with
  | .error e => (t, .ofUsage e)
  | .ok args =>
    let (t, result) := run args t
    (t, .ofRun args (args.pretty.getD stderrIsTerminal && env.allows) result)

end DeclBundle
