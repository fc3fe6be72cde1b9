import DeclBundle.Reach.Edges

/-!
# Reachability

All that can be reached from given roots. A declaration leads to the targets of its edges, and the
namespace of a module leads to all that the module exports. The walk goes level by level, in the
order of first discovery; every level but the last expands something new, so there are no more
levels than things that can be expanded.
-/

namespace DeclBundle

/-- What is reached, in the order of discovery. -/
structure Reach where
  decls : List DeclId := []
  namespaces : List ModuleId := []
  imports : List LibraryBinding := []
  importTypes : List LibraryBinding := []
  globals : List String := []
  /-- The reports of the declarations reached. -/
  diagnostics : List Diagnostic := []
  /-- The reports of the surfaces of the namespaces reached. -/
  surfaceDiagnostics : List Diagnostic := []

/-- A declaration is reached. -/
def Reach.contains (r : Reach) (id : DeclId) : Bool := id ∈ r.decls

namespace DependencyGraph

variable (g : DependencyGraph) (l : Linker)

/-- Takes in one target and gives the targets it leads to. -/
def visit (r : Reach) : Target → Reach × List Target
  | .declaration id =>
    if id ∈ r.decls then (r, [])
    else
      let e := (g.edges? id).getD {}
      ({ r with
          decls := r.decls ++ [id]
          globals := pushAllNew r.globals e.globals
          diagnostics := r.diagnostics ++ e.diagnostics },
        e.targets)
  | .namespaceOf module =>
    if module ∈ r.namespaces then (r, [])
    else
      let (s, ds) := l.surface module
      ({ r with
          namespaces := r.namespaces ++ [module]
          surfaceDiagnostics := r.surfaceDiagnostics ++ ds },
        s.entries.values.flatMap l.targets)
  | .import_ ref => ({ r with imports := pushNew r.imports ref }, [])
  | .importType ref => ({ r with importTypes := pushNew r.importTypes ref }, [])

/-- Takes in the targets of a level in order and gathers the next level. -/
def visitAll (r : Reach) : List Target → Reach × List Target
  | [] => (r, [])
  | t :: ts =>
    let (r, next) := g.visit l r t
    let (r, rest) := visitAll r ts
    (r, next ++ rest)

/-- Expands level after level until one is empty, or as many as the fuel allows. -/
def walk : Nat → Reach → List Target → Reach
  | 0, r, _ => r
  | _, r, [] => r
  | fuel + 1, r, level =>
    let (r, next) := g.visitAll l r level
    walk fuel r next

/-- All that can be reached from `roots`. -/
def closure (roots : List Target) : Reach :=
  g.walk l (g.edges.size + l.size + 1) {} roots

/-- Adds the modules of a level that are new, and gathers the next level from them. -/
def visitModules (seen : List ModuleId) : List ModuleId → List ModuleId × List ModuleId
  | [] => (seen, [])
  | m :: ms =>
    if m ∈ seen then visitModules seen ms
    else
      let (seen, rest) := visitModules (seen ++ [m]) ms
      (seen, g.neighbours l m ++ rest)

/-- Goes through at most `fuel` levels of modules. -/
def walkModules : Nat → List ModuleId → List ModuleId → List ModuleId
  | 0, seen, _ => seen
  | _, seen, [] => seen
  | fuel + 1, seen, level =>
    let (seen, next) := g.visitModules l seen level
    walkModules fuel seen next

/-- The modules that a bundle of `entry` draws from, in the order of the store: all that can be
reached through imports, re-exports and import types. -/
def sourceModules (entry : ModuleId) : List ModuleId :=
  (g.walkModules l (l.size + 1) [] [entry]).mergeSort (· ≤ ·)

end DependencyGraph

end DeclBundle
