import DeclBundle.Link.Surface
import DeclBundle.Reference.Basic

/-!
# Edges between declarations

Every top-level declaration, each variable on its own, points to what its references resolve to.
What verbatim statements refer to is kept per module, for they are never removed.
-/

namespace DeclBundle

/-- What a declaration can depend on. -/
inductive Target where
  | declaration (id : DeclId)
  /-- The namespace of a whole module. -/
  | namespaceOf (module : ModuleId)
  /-- A binding of a library. -/
  | import_ (ref : LibraryBinding)
  /-- An import type of a library, which needs no import statement. -/
  | importType (ref : LibraryBinding)
deriving DecidableEq, Repr

/-- The targets that a resolution stands for: a symbol is reached with all its declarations. -/
def Linker.targets (l : Linker) : Resolution → List Target
  | .declaration id =>
    match l.symbolDecls id with
    | [] => [.declaration id]
    | ids => ids.map .declaration
  | .namespaceOf module => [.namespaceOf module]
  | .external ref => [.import_ ref]
  | .unresolved => []

/-- What a declaration refers to. -/
structure Edges where
  targets : List Target := []
  /-- Names that nothing in the store provides. -/
  globals : List String := []
  diagnostics : List Diagnostic := []

namespace Edges

/-- The edges of two references, one after the other. -/
def append (a b : Edges) : Edges where
  targets := a.targets ++ b.targets
  globals := a.globals ++ b.globals
  diagnostics := a.diagnostics ++ b.diagnostics

/-- Edges are gathered in the order of the references. -/
instance : Append Edges := ⟨append⟩

/-- What a name used in a module refers to. -/
def ofName (l : Linker) (module : ModuleId) (name : String) : Edges :=
  let (r, ds) := l.resolveLocal module name
  { targets := l.targets r, globals := if r = .unresolved then [name] else [], diagnostics := ds }

/-- What an import type in the module at `path` refers to. -/
def ofImportType (l : Linker) (path specifier : String) (qualifier : Option String) : Edges :=
  match l.lookup specifier with
  | none => { targets := [.importType ⟨specifier, (qualifier.map Remote.ofName).getD .all⟩] }
  | some target =>
    let (r, ds) := match qualifier with
      | some name => l.resolveExport target name
      | none => (.namespaceOf target, [])
    { targets := l.targets r
      diagnostics := ds ++
        if r = .unresolved then
          [(Cause.unresolvedImport (qualifier.getD "*") specifier).report path]
        else [] }

/-- The edges of one reference of a module. -/
def ofReference (l : Linker) (module : ModuleId) (path : String) : Reference → Edges
  | .name name => ofName l module name
  | .importType specifier qualifier => ofImportType l path specifier qualifier

/-- What the references of an analysis refer to. Types that are kept as text are reported first. -/
def ofAnalysis (l : Linker) (module : ModuleId) (path : String) (a : Analysis) : Edges :=
  (a.references.map (ofReference l module path)).foldl append
    { diagnostics := if 0 < a.unsupported then [(Cause.unsupportedNode path).report path] else [] }

end Edges

/-- The analyses of a statement that declares something, each with the identity it belongs to. -/
def Declaration.analyses (d : Declaration) : List (Option DeclId × Analysis) :=
  match d.kind with
  | .variableList _ declarators => declarators.map fun v => (v.id, .declarator v)
  | _ => [(d.id, .declaration d)]

/-- The modules of the store that the import types among references name. -/
def Linker.importTypeModules (l : Linker) (references : List Reference) : List ModuleId :=
  references.filterMap fun
    | .importType specifier _ => l.lookup specifier
    | .name _ => none

/-- The edges of all declarations of a store. -/
structure DependencyGraph where
  edges : Table DeclId Edges
  /-- The edges of the verbatim statements of each module. -/
  verbatim : List Edges
  /-- The modules that import types name, for each module. -/
  importTypeModules : List (List ModuleId)

namespace DependencyGraph

/-- The edges of the declarations of a module. -/
def unitEdges (l : Linker) (module : ModuleId) (unit : DeclUnit) : List (DeclId × Edges) :=
  unit.statements.flatMap fun
    | .declaration d =>
      d.analyses.filterMap fun (id, a) => id.map (·, Edges.ofAnalysis l module unit.path a)
    | _ => []

/-- The edges of the verbatim statements of a module. -/
def unitVerbatim (l : Linker) (module : ModuleId) (unit : DeclUnit) : Edges :=
  (unit.statements.map fun
    | .verbatim tokens _ => Edges.ofAnalysis l module unit.path (.verbatim tokens)
    | _ => {}).foldl Edges.append {}

/-- The modules that the import types of a module name. -/
def unitImportTypeModules (l : Linker) (unit : DeclUnit) : List ModuleId :=
  (unit.statements.flatMap fun
    | .declaration d => d.analyses.flatMap fun (_, a) => l.importTypeModules a.references
    | .verbatim tokens _ => l.importTypeModules (Analysis.verbatim tokens).references
    | _ => []).eraseDups

/-- The graph of a store: the edges of every declaration, and of the verbatim text of every
module. -/
def build (store : Store) (l : Linker) : DependencyGraph where
  edges := ⟨store.units.zipIdx.flatMap fun (unit, module) => unitEdges l module unit⟩
  verbatim := store.units.zipIdx.map fun (unit, module) => unitVerbatim l module unit
  importTypeModules := store.units.map (unitImportTypeModules l)

variable (g : DependencyGraph)

/-- The edges of a declaration. -/
def edges? (id : DeclId) : Option Edges := g.edges.get? id

/-- The edges of the verbatim statements of a module. -/
def verbatimEdges (module : ModuleId) : Edges := g.verbatim.getD module {}

/-- The modules that a module draws from. -/
def neighbours (l : Linker) (module : ModuleId) : List ModuleId :=
  l.dependencies module ++ g.importTypeModules.getD module []

end DependencyGraph

end DeclBundle
