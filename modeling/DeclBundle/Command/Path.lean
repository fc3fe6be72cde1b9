import DeclBundle.Text.Split

/-!
# Paths

A path is a text with slashes between its segments. Empty segments and single dots say nothing,
except that a path that starts with a slash is absolute and one may start with a dot.
-/

namespace DeclBundle.Path

/-- The parts of a path between slashes. -/
def segments (path : String) : List String := Text.splitAt '/' path

/-- A path that starts at the root. -/
def isAbsolute (path : String) : Bool := path.toList.head? = some '/'

/-- The path `name` as seen from the directory `dir`. -/
def join (dir name : String) : String :=
  if isAbsolute name || dir = "" then name
  else if dir.toList.getLast? = some '/' then dir ++ name
  else dir ++ "/" ++ name

/-- Segments in reverse without the idle ones in front; the last segment always stays. -/
def dropIdle : List String → List String
  | seg :: next :: rest =>
    if seg = "" ∨ seg = "." then dropIdle (next :: rest) else seg :: next :: rest
  | segs => segs

/-- The path without its last segment; the root and the empty path have none. -/
def parent? (path : String) : Option String :=
  match dropIdle (segments path).reverse with
  | [] | [""] => none
  | _ :: outer =>
    match dropIdle outer with
    | [] => some ""
    | [""] => some "/"
    | outer => some (Text.joinWith "/" outer.reverse)

/-- The last part of a path. -/
def fileName (path : String) : String := (segments path).getLastD ""

/-- The file of the map that belongs to a bundle. -/
def ofMap (path : String) : String := path ++ ".map"

end DeclBundle.Path
