import DeclBundle.Link.Basic
import DeclBundle.Names.Scopes

/-!
# Final names

The names that top-level bindings have in a bundle, by identity and by symbol: the declarations of
one symbol share a name. Some bindings have no declaration in any module: what is imported from a
library, the namespace of a module, and the alias of a default import.
-/

namespace DeclBundle

/-- The final name of a top-level binding. -/
structure FinalName where
  /-- The module it comes from, if it comes from one. -/
  module : Option ModuleId
  given : String
  name : String
deriving DecidableEq, Repr

/-- Whether the final name is another one. -/
def FinalName.isRenamed (b : FinalName) : Bool := b.given ≠ b.name

/-- The alias of a default import that the entry module exports under its local name. -/
structure ImportAlias where
  id : DeclId
  /-- The declaration that the import ends at. -/
  terminal : DeclId
deriving DecidableEq, Repr

/-- Final names and the scope that they were chosen in. -/
structure FinalNames where
  topLevel : Table DeclId FinalName := {}
  /-- The name of each symbol, by module and given name. -/
  symbols : Table (ModuleId × String) String := {}
  externals : Table LibraryBinding DeclId := {}
  namespaces : Table ModuleId DeclId := {}
  /-- By module and local name of the import. -/
  aliases : Table (ModuleId × String) ImportAlias := {}
  scopes : Scopes := {}
  /-- The first identity that is not given out. -/
  nextId : DeclId

namespace FinalNames

/-- The final name of a top-level identity. -/
def get? (n : FinalNames) (id : DeclId) : Option String := (n.topLevel.get? id).map (·.name)

/-- The final name of a symbol of a module. -/
def symbol? (n : FinalNames) (module : ModuleId) (given : String) : Option String :=
  n.symbols.get? (module, given)

/-- The number of top-level bindings with another name. -/
def renamedCount (n : FinalNames) : Nat := n.topLevel.values.countP FinalName.isRenamed

/-- The final name that stands for a resolution. -/
def resolved? (n : FinalNames) (l : Linker) : Resolution → Option String
  | .declaration id => do
    let info ← l.decl? id
    n.symbol? info.module info.name
  | .namespaceOf module => (n.namespaces.get? module).bind n.get?
  | .external ref => (n.externals.get? ref).bind n.get?
  | .unresolved => none

end FinalNames

end DeclBundle
