import DeclBundle.Names.Naming

/-!
# Ambient declarations

In a bundle every top-level declaration is ambient, and only the export clause exports. So `declare`
is added where the kind of declaration asks for it, and `export` and `default` are taken away, with
a note of what each declaration exported. Members of namespaces keep their modifiers.
-/

namespace DeclBundle

/-- A declaration that was exported by its own modifiers. -/
structure InlineExport where
  decl : DeclId
  module : ModuleId
  /-- The final name. -/
  binding : String
  /-- `default` or the given name. -/
  exportedName : String
deriving DecidableEq, Repr

namespace Ambient

/-- The trees with every top-level declaration changed by `f`. -/
def mapDeclarations (f : Declaration → Declaration) (trees : List ModuleTree) : List ModuleTree :=
  trees.map fun t => { t with
    statements := t.statements.map fun
      | .declaration d => .declaration (f d)
      | s => s }

/-- The declaration with `declare` if its kind asks for it. -/
def declared (d : Declaration) : Declaration :=
  if d.tag.requiresDeclare then { d with modifiers := d.modifiers.insert .declare } else d

/-- The declaration without `export` and `default`. -/
def stripped (d : Declaration) : Declaration :=
  { d with modifiers := (d.modifiers.erase .exported).erase .default }

/-- Adds `declare` to the top-level declarations that ask for it. -/
def addDeclare (trees : List ModuleTree) : List ModuleTree := mapDeclarations declared trees

/-- Takes `export` and `default` away from the top-level declarations. -/
def dropExports (trees : List ModuleTree) : List ModuleTree := mapDeclarations stripped trees

/-- What a declaration exports by its modifiers. -/
def declarationInlineExports (n : FinalNames) (module : ModuleId) (d : Declaration) :
    List InlineExport :=
  if d.modifiers.exported || d.modifiers.default then
    d.boundIds.filterMap fun id => do
      let id ← id
      let bound ← n.topLevel.get? id
      return ⟨id, module, bound.name, if d.modifiers.default then "default" else bound.given⟩
  else []

/-- What the top-level declarations export by their modifiers, in order. -/
def inlineExports (n : FinalNames) (trees : List ModuleTree) : List InlineExport :=
  trees.flatMap fun t => t.statements.flatMap fun
    | .declaration d => declarationInlineExports n t.module d
    | _ => []

end Ambient

end DeclBundle
