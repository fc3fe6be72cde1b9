import DeclBundle.Names.Scopes
import DeclBundle.Reference.Basic

/-!
# The place of a name

Where a name stands decides what it becomes: the innermost local binding of that name in its space,
or else what the name stands for outside. A `Site` is what is known at a place: the names that are
taken there, the local bindings around it, and what names from outside become. Going into a scope
gives a new site, and the old one is still at hand when the scope is left.

New bindings keep away from every name that is taken, so that no reference comes to mean another
binding.
-/

namespace DeclBundle

/-- A local binding and its final name. -/
structure LocalName where
  given : String
  name : String
  space : Space
deriving DecidableEq, Repr

/-- What is known at a place. -/
structure Site where
  /-- The final name of a name that no local binding has. -/
  outer : String → Option String
  /-- The final name of the root of an import type, by module and first segment of the qualifier. -/
  importRoot : String → Option String → Option String
  scopes : Scopes
  /-- The local bindings, innermost first. -/
  locals : List LocalName := []

namespace Site

/-- The innermost local binding of a name in a space. -/
def local? (s : Site) (name : String) (space : Space) : Option LocalName :=
  s.locals.find? fun l => l.given == name && l.space.covers space

/-- The final name of a use, if it has one; otherwise it stays as it is. -/
def finalName? (s : Site) (name : String) (space : Space) : Option String :=
  match s.local? name space with
  | some l => some l.name
  | none => s.outer name

/-- The final name of a reference, if it has one. -/
def reference? (s : Site) : Reference → Option String
  | .name name => s.finalName? name .both
  | .importType specifier qualifier => s.importRoot specifier qualifier

/-- Binds names one after the other in the innermost scope. -/
def bindAll (scopes : Scopes) : List String → List String × Scopes
  | [] => ([], scopes)
  | given :: rest =>
    let (name, scopes) := scopes.bind given none
    let (names, scopes) := bindAll scopes rest
    (name :: names, scopes)

/-- Adds local bindings, of which the last is the innermost. -/
def addLocals (s : Site) (space : Space) (bindings : List (String × String)) : Site :=
  { s with locals := (bindings.map fun (given, name) => ⟨given, name, space⟩).reverse
      ++ s.locals }

/-- Goes into a scope that binds the names as types; gives their final names. -/
def enterTypes (s : Site) (givenNames : List String) : List String × Site :=
  let (names, scopes) := bindAll s.scopes.push givenNames
  (names, { s with scopes }.addLocals .type (givenNames.zip names))

/-- Adds parameters, which keep their names. -/
def enterParameters (s : Site) (names : List String) : Site :=
  s.addLocals .value (names.map fun n => (n, n))

/-- Binds those of the names that are `captured`, each once; gives their final names. -/
def bindCaptured (captured : List String) (scopes : Scopes) :
    List String → Table String String × Scopes
  | members => members.foldl (fun (renamed, scopes) given =>
      if given ∈ captured ∧ ¬ renamed.contains given then
        let (name, scopes) := scopes.bind given none
        (renamed.insert given name, scopes)
      else (renamed, scopes)) ({}, scopes)

/-- Goes into a namespace body with these members. A member whose name is `captured`, being the
final name of something outside that the body refers to, is renamed; the others are taken as they
are. -/
def enterBody (s : Site) (captured members : List String) : Table String String × Site :=
  let scopes := (members.filter (· ∉ captured)).foldl Scopes.reserveInScope s.scopes.push
  let (renamed, scopes) := bindCaptured captured scopes members
  (renamed, { s with scopes }.addLocals .both
    (members.map fun m => (m, (renamed.get? m).getD m)))

end Site

end DeclBundle
