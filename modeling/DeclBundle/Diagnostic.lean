import DeclBundle.Text.Template

/-!
# Diagnostics

What bundling reports without giving up. Each report names the module it is about. A `Cause` is what
went wrong; its code, its category and its wording are functions of it.
-/

namespace DeclBundle

/-- How grave a diagnostic is. -/
inductive Category where
  | warning
  | error
  | suggestion
  | message
deriving DecidableEq, Repr

/-- The name of a category, as a report gives it. -/
def Category.label : Category → String
  | .warning => "warning"
  | .error => "error"
  | .suggestion => "suggestion"
  | .message => "message"

/-- A report about the module `file`. -/
structure Diagnostic where
  file : String
  text : String
  category : Category
  code : Nat
deriving DecidableEq, Repr

/-- What went wrong. -/
inductive Cause where
  /-- An import or import type names an export that `source` does not provide. -/
  | unresolvedImport (name source : String)
  /-- An export cannot be traced to a declaration. -/
  | unresolvedExport (name : String)
  /-- A chain of re-exports comes back to where it was, or grows too long. -/
  | reexportCycle (name : String)
  /-- Several star exports provide `name`; a loser is exported as `renamed`. -/
  | ambiguousStarExport (name renamed : String)
  /-- A node of the module at `path` is kept as text. -/
  | unsupportedNode (path : String)
  /-- An export that an entry requires is not on its surface. -/
  | unknownEntryExport (name : String)
deriving DecidableEq, Repr

namespace Cause

/-- The number of the diagnostic with this cause. -/
def code : Cause → Nat
  | .unresolvedImport .. => 9001
  | .unresolvedExport .. => 9002
  | .reexportCycle .. => 9003
  | .ambiguousStarExport .. => 9004
  | .unsupportedNode .. => 9005
  | .unknownEntryExport .. => 9006

/-- Whether a cause is an error or only a warning. -/
def category : Cause → Category
  | .ambiguousStarExport .. | .unsupportedNode .. => .warning
  | _ => .error

/-- The wording, with marks for the arguments. -/
def template : Cause → String
  | .unresolvedImport .. =>
    "Import '\x7b0\x7d' from '\x7b1\x7d' does not resolve to any declaration."
  | .unresolvedExport .. => "Export '\x7b0\x7d' could not be traced to a declaration."
  | .reexportCycle .. => "Re-export of '\x7b0\x7d' forms a cycle and never reaches a declaration."
  | .ambiguousStarExport .. =>
    "'\x7b0\x7d' is provided by more than one 'export *' source; "
      ++ "the losing one is exported as '\x7b1\x7d'."
  | .unsupportedNode .. =>
    "Node in '\x7b0\x7d' has no specific reference rule; all identifiers inside it are kept."
  | .unknownEntryExport .. => "Entry module does not export '\x7b0\x7d'."

/-- The arguments of the message of a cause. -/
def args : Cause → List String
  | .unresolvedImport name source => [name, source]
  | .unresolvedExport name => [name]
  | .reexportCycle name => [name]
  | .ambiguousStarExport name renamed => [name, renamed]
  | .unsupportedNode path => [path]
  | .unknownEntryExport name => [name]

/-- The report of a cause in the module `file`. -/
def report (c : Cause) (file : String) : Diagnostic where
  file := file
  text := Text.fill c.template c.args
  category := c.category
  code := c.code

end Cause

namespace Diagnostic

/-- The diagnostic is an error. -/
def isError (d : Diagnostic) : Bool := d.category = .error

/-- The code with the letters in front of it. -/
def label (d : Diagnostic) : String := "DTSZ" ++ toString d.code

/-- A diagnostic as one line without colors. -/
def display (d : Diagnostic) : String :=
  d.file ++ ": " ++ d.category.label ++ " " ++ d.label ++ ": " ++ d.text

/-- The first of each group of equal diagnostics, in order. -/
def dedupe (ds : List Diagnostic) : List Diagnostic := ds.eraseDups

end Diagnostic

end DeclBundle
