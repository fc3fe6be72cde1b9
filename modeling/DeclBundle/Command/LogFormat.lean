/-!
# Formats of logs
-/

namespace DeclBundle

/-- How log lines are laid out. -/
inductive LogFormat where
  | text
  | tree
  | json
deriving DecidableEq, Repr

namespace LogFormat

/-- The name of a format, as the environment gives it. -/
def label : LogFormat → String
  | .text => "text"
  | .tree => "tree"
  | .json => "json"

/-- The format with a name, in letters of either case; any other name gives plain text. No letter
outside ASCII has a lower-case form in one of the names, so ASCII is enough here. -/
def ofName (name : String) : LogFormat :=
  let lower := String.ofList (name.toList.map Char.toLower)
  if lower = "tree" then .tree else if lower = "json" then .json else .text

end LogFormat

end DeclBundle
