import DeclBundle.Names.Choice
import DeclBundle.Names.Rename

/-!
# Naming a bundle

First all top-level names are chosen, then they are put into every statement. A statement is treated
on its own: what it becomes depends on the chosen names, its module and itself.
-/

namespace DeclBundle

/-- The modules of a bundle under their final names. -/
structure NamedModules where
  trees : List ModuleTree
  names : FinalNames
  /-- The final names of nested bindings. -/
  nested : Table DeclId String

namespace Naming

/-- The place of the top-level statements of a module. -/
def site (l : Linker) (n : FinalNames) (module : ModuleId) : Site where
  outer name := n.resolved? l (l.resolveLocal module name).1
  importRoot specifier qualifier := do
    let target ← l.lookup specifier
    n.resolved? l (match qualifier with
      | some name => (l.resolveExport target name).1
      | none => .namespaceOf target)
  scopes := n.scopes

/-- A declarator under its final name. -/
def renameDeclarator (n : FinalNames) (d : Declarator) : Declarator :=
  { d with name := (d.id.bind n.get?).getD d.name }

/-- A top-level declaration under its final name. -/
def underFinalName (n : FinalNames) (d : Declaration) : Declaration :=
  match d.kind with
  | .variableList flavor ds => { d with kind := .variableList flavor (ds.map (renameDeclarator n)) }
  | _ =>
    match d.id.bind n.get? with
    | some name => d.setName name
    | none => d

/-- A top-level statement under final names. Imports and exports stay: they are not written. -/
def statement (s : Site) (n : FinalNames) : Statement → Named Statement
  | .declaration d => return .declaration (← Rename.declaration s (underFinalName n d))
  | .verbatim tokens pos => pure (.verbatim (Rename.tokens s tokens) pos)
  | other => pure other

/-- A module with all its statements under final names. -/
def tree (l : Linker) (n : FinalNames) (t : ModuleTree) : Named ModuleTree :=
  let named := t.statements.map (statement (site l n t.module) n)
  ⟨{ t with statements := named.map (·.value) }, named.flatMap (·.nested)⟩

/-- Chooses the final names and puts them into the modules. -/
def run (c : NamingContext) (reserved : List String) (firstId : DeclId) (trees : List ModuleTree) :
    NamedModules :=
  let names := FinalNames.choose c reserved firstId trees
  let named := trees.map (tree c.linker names)
  { trees := named.map (·.value)
    names
    nested := (named.flatMap (·.nested)).foldl (fun t (id, name) => t.insertNew id name) {} }

end Naming

end DeclBundle
