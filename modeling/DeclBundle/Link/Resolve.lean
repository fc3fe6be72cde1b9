import DeclBundle.Diagnostic
import DeclBundle.Link.Basic

/-!
# Following names to their declarations

A name is followed through import bindings and export tables until it ends at a declaration, at a
whole module or at a library. A chain that comes back to a module and name it has visited, or that
has no hops left, is a cycle; among star exports a cycle only means that this source does not
provide the name.
-/

namespace DeclBundle.Linker

/-- How a search ended. -/
inductive Lookup where
  | found (resolution : Resolution)
  | notFound
  | cycle
deriving DecidableEq, Repr

/-- Follows an import: a library or a whole module ends the search, else `next` goes on with the
export of the module. -/
def follow (next : ModuleId → String → Lookup) : Provider → Remote → Lookup
  | .external specifier, remote => .found (.external ⟨specifier, remote⟩)
  | .internal module, .all => .found (.namespaceOf module)
  | .internal module, .default => next module "default"
  | .internal module, .named name => next module name

/-- A name as used inside a module: its symbols come before its imports. -/
def chaseLocal (next : ModuleId → String → Lookup) (scope : ModuleTables) (name : String) :
    Lookup :=
  match scope.symbols.get? name with
  | some (id :: _) => .found (.declaration id)
  | _ =>
    match scope.imports.get? name with
    | some binding => follow next binding.source binding.remote
    | none => .notFound

/-- The first of the star sources that provides a name. -/
def chaseStars (next : ModuleId → Lookup) : List Provider → Lookup
  | [] => .notFound
  | .external _ :: rest => chaseStars next rest
  | .internal module :: rest =>
    match next module with
    | .found r => .found r
    | _ => chaseStars next rest

/-- Star sources in the order in which they are asked. -/
def inPolicyOrder (policy : StarPolicy) (xs : List α) : List α :=
  match policy with
  | .preferFirst => xs
  | .preferLast => xs.reverse

variable (l : Linker)

/-- The export `name` of a module, within `budget` hops; `path` holds the visited ones. -/
def chaseExport : Nat → List (ModuleId × String) → ModuleId → String → Lookup
  | 0, _, _, _ => .cycle
  | budget + 1, path, module, name =>
    if (module, name) ∈ path then .cycle
    else
      match l.scope? module with
      | none => .notFound
      | some scope =>
        let next := chaseExport budget ((module, name) :: path)
        match scope.exports.get? name with
        | some (.own binding) => chaseLocal next scope binding
        | some (.reexport source remote) => follow next source remote
        | none =>
          if name = "default" then .notFound
          else chaseStars (fun m => next m name) (inPolicyOrder l.starPolicy scope.starExports)

/-- The export `name` of a module from the start. -/
def findExport (module : ModuleId) (name : String) : Lookup :=
  l.chaseExport l.maxDepth [] module name

/-- A name as used inside a module, from the start. -/
def findLocal (module : ModuleId) (name : String) : Lookup :=
  match l.scope? module with
  | none => .notFound
  | some scope => chaseLocal l.findExport scope name

/-- The report of a cycle through `name` in a module. -/
def cycleReport (module : ModuleId) (name : String) : Diagnostic :=
  (Cause.reexportCycle name).report (l.modulePath module)

/-- What a module reference is called in reports. -/
def refName : Provider → String
  | .internal module => l.modulePath module
  | .external specifier => specifier

/-- Resolves a name as used inside a module. A name that is neither a symbol nor an import stays
unresolved without a report. -/
def resolveLocal (module : ModuleId) (name : String) : Resolution × List Diagnostic :=
  match l.findLocal module name with
  | .found r => (r, [])
  | .cycle => (.unresolved, [l.cycleReport module name])
  | .notFound =>
    match (l.scope? module).bind (·.imports.get? name) with
    | none => (.unresolved, [])
    | some binding =>
      (.unresolved,
        [(Cause.unresolvedImport binding.remote.name (l.refName binding.source)).report
          (l.modulePath module)])

/-- What the name of an export leads to, with the report of a cycle if the search runs in one. -/
def resolveExport (module : ModuleId) (name : String) : Resolution × List Diagnostic :=
  match l.findExport module name with
  | .found r => (r, [])
  | .notFound => (.unresolved, [])
  | .cycle => (.unresolved, [l.cycleReport module name])

end DeclBundle.Linker
