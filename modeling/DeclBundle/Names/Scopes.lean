import DeclBundle.Names.Suffix
import DeclBundle.Table
import DeclBundle.Tree.Type

/-!
# Scopes

The names taken in a bundle: those of its top level, each with the module that bound it or nothing
for a reserved name, and those of the scopes around the place that is being named, innermost first.
-/

namespace DeclBundle

/-- The top level and the scopes inside it, innermost first. -/
structure Scopes where
  root : Table String (Option ModuleId) := {}
  inner : List (List String) := []

namespace Scopes

/-- The scopes before any name is bound. -/
def empty : Scopes := {}

/-- All names taken in the chain of scopes. -/
def taken (s : Scopes) : List String := s.root.keys ++ s.inner.flatten

/-- Whether no scope of the chain has the name. -/
def isFree (s : Scopes) (name : String) : Bool := name ∉ s.taken

/-- Takes a top-level name for nobody; a name that is taken keeps its owner. -/
def reserve (s : Scopes) (name : String) : Scopes := { s with root := s.root.insertNew name none }

/-- Takes a name as it is in the innermost scope, hiding outer ones. -/
def reserveInScope (s : Scopes) (name : String) : Scopes :=
  match s.inner with
  | [] => s.reserve name
  | scope :: outer => { s with inner := pushNew scope name :: outer }

/-- Who has a name at the top level, if it is taken: a module, or none where the name is kept for
the whole file. -/
def owner? (s : Scopes) (name : String) : Option (Option ModuleId) := s.root.get? name

/-- The first free form of a name with a number after it. -/
def generate (s : Scopes) (name : String) : String := unusedName s.taken name

/-- The name that `preferred` gets: itself if it is free, else a free form of it. -/
def choose (s : Scopes) (preferred : String) : String :=
  if s.isFree preferred then preferred else s.generate preferred

/-- Takes `preferred` or a free form of it in the innermost scope. -/
def bind (s : Scopes) (preferred : String) (owner : Option ModuleId) : String × Scopes :=
  let name := s.choose preferred
  match s.inner with
  | [] => (name, { s with root := s.root.insert name owner })
  | scope :: outer => (name, { s with inner := pushNew scope name :: outer })

/-- Opens a scope. -/
def push (s : Scopes) : Scopes := { s with inner := [] :: s.inner }

/-- Closes the innermost scope. -/
def pop (s : Scopes) : Scopes := { s with inner := s.inner.tail }

/-- How many scopes are open. -/
def depth (s : Scopes) : Nat := s.inner.length

end Scopes

end DeclBundle
