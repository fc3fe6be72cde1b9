import DeclBundle.Command.Path
import DeclBundle.Table

/-!
# Trees of files

A tree of files and directories as a run sees it, with the directory in which it works. A place is a
list of names from the root. Directories that hold something, and those above the working directory,
are always there; others are listed.

Reading and writing follow a path name by name: every name but the last has to be a directory.
-/

namespace DeclBundle

/-- Where something stands: the names on the way from the root. -/
abbrev Place := List String

/-- What a file holds. -/
inductive FileContent where
  | text (value : String)
  /-- Bytes that are no text. -/
  | binary
deriving DecidableEq, Repr

/-- The files and directories that a run finds. -/
structure FileTree where
  workDir : Place := []
  files : Table Place FileContent := {}
  dirs : List Place := []

namespace FileTree

/-- A place is a directory if a file stands below it, or if it is, or is above, the working
directory or a directory listed. -/
def isDir (t : FileTree) (p : Place) : Bool :=
  p.isPrefixOf t.workDir || t.dirs.any p.isPrefixOf
    || t.files.keys.any fun f => p.isPrefixOf f && p ≠ f

/-- Whether a path can be asked for at all. -/
def isUsable (path : String) : Bool :=
  path ≠ "" && path.utf8ByteSize < 4096 && !path.toList.contains '\x00'
    && (Path.segments path).all (·.utf8ByteSize < 256)

/-- Where a path starts: at the root or at the working directory. -/
def start (t : FileTree) (path : String) : Place :=
  if Path.isAbsolute path then [] else t.workDir

/-- The place to which segments lead from `p`. -/
def follow (t : FileTree) (p : Place) : List String → Option Place
  | [] => some p
  | seg :: rest =>
    if !t.isDir p then none
    else if seg = "" ∨ seg = "." then t.follow p rest
    else if seg = ".." then t.follow p.dropLast rest
    else t.follow (p ++ [seg]) rest

/-- The place that a path leads to, if there is one. -/
def locate (t : FileTree) (path : String) : Option Place :=
  if isUsable path then t.follow (t.start path) (Path.segments path) else none

/-- The text of the file at a path, if it is one that can be read. -/
def read? (t : FileTree) (path : String) : Option String := do
  match ← t.files.get? (← t.locate path) with
  | .text s => some s
  | .binary => none

/-- The tree with a text written to a file. -/
def write? (t : FileTree) (path text : String) : Option FileTree := do
  let p ← t.locate path
  if t.isDir p then none
  else some { t with files := t.files.insert p (.text text) }

/-- The tree with the directories that segments lead through from `p`. -/
def makeFrom (t : FileTree) (p : Place) : List String → Option FileTree
  | [] => some t
  | seg :: rest =>
    if seg = "" ∨ seg = "." then t.makeFrom p rest
    else if seg = ".." then t.makeFrom p.dropLast rest
    else
      let q := p ++ [seg]
      if t.files.contains q then none
      else if t.isDir q then t.makeFrom q rest
      else { t with dirs := t.dirs ++ [q] }.makeFrom q rest

/-- The tree with the directory of a path and all above it; the empty path asks for none. -/
def makeDirs? (t : FileTree) (path : String) : Option FileTree :=
  if path = "" then some t
  else if isUsable path then t.makeFrom (t.start path) (Path.segments path)
  else none

/-- The texts under the working directory of `t` that `old` does not have, by their paths. -/
def newTexts (old t : FileTree) : List (String × String) :=
  t.files.rows.filterMap fun (p, content) =>
    match content with
    | .binary => none
    | .text s =>
      if t.workDir.isPrefixOf p && old.files.get? p ≠ some content then
        some (Text.joinWith "/" (p.drop t.workDir.length), s)
      else none

end FileTree

end DeclBundle
