import DeclBundle.Merge
import DeclBundle.Print.Statement
import DeclBundle.Stats

/-!
# Bundles

One bundle per entry: the modules that the entry draws from are shaken down to what its exports
need, named in one scope, made ambient, merged into one export clause and printed. What goes wrong
on the way is reported and does not stop the bundle; only an entry that is not in the store has
none.
-/

namespace DeclBundle

/-- An entry module and the file of its bundle. -/
structure Entry where
  module : String
  output : String
  /-- The exports that the bundle provides; all of them if absent. -/
  exports : Option (List String) := none
deriving DecidableEq, Repr

/-- Why there is no bundle. -/
inductive BundleError where
  | unknownEntry (module : String)
deriving DecidableEq, Repr

/-- The text of an error of the bundler. -/
def BundleError.message : BundleError → String
  | .unknownEntry module => "entry module '" ++ module ++ "' is not part of the bundle"

/-- A linked store. -/
structure Bundler where
  store : Store
  options : Options
  linker : Linker
  references : DependencyGraph

/-- All that is known of a bundle when it is done. -/
structure Bundle where
  file : OutputFile
  printed : Print.Printed
  stats : Stats
  diagnostics : List Diagnostic
  naming : NamedModules

/-- Some diagnostic of the bundle is an error. -/
def Bundle.hasErrors (b : Bundle) : Bool := b.diagnostics.any Diagnostic.isError

namespace Bundler

/-- The bundler of a store: everything is linked, and the references of every declaration are
gathered. -/
def ofStore (store : Store) (options : Options) : Bundler :=
  let linker := Linker.build store options
  { store, options, linker, references := DependencyGraph.build store linker }

/-- The entries of a surface that are asked for, with a report for every name that is not there. -/
def required (path : String) (surface : Surface) :
    Option (List String) → List (String × Resolution) × List Diagnostic
  | none => (surface.entries.rows, [])
  | some names =>
    (surface.entries.rows.filter fun (name, _) => name ∈ names,
      (names.filter fun name => !surface.entries.contains name).map fun name =>
        (Cause.unknownEntryExport name).report path)

variable (b : Bundler)

/-- What the entry assigns as its export. -/
def assignmentTargets (entry : ModuleId) : List Target × List Diagnostic :=
  match (b.linker.scope? entry).bind (·.exportAssignment) with
  | none => ([], [])
  | some expression =>
    let (r, ds) := b.linker.resolveLocal entry expression
    (b.linker.targets r, ds)

/-- Where reachability starts: the exports asked for, the export assignment, and all that verbatim
statements of the modules refer to. -/
def roots (entry : ModuleId) (modules : List ModuleId) (surface : List (String × Resolution)) :
    List Target × List Diagnostic :=
  let (assigned, ds) := b.assignmentTargets entry
  (surface.flatMap (fun (_, r) => b.linker.targets r) ++ assigned
    ++ modules.flatMap fun m => (b.references.verbatimEdges m).targets, ds)

/-- Adds what is imported under one name to the imports of its library. -/
def addLibraryBinding (n : FinalNames) (t : Table String LibraryImport) :
    LibraryBinding × DeclId → Table String LibraryImport
  | (ref, id) =>
    match n.get? id with
    | none => t
    | some name =>
      let i := (t.get? ref.specifier).getD { specifier := ref.specifier }
      t.insert ref.specifier (match ref.remote with
        | .all => { i with namespaceName := some name }
        | remote => { i with named := i.named ++ [⟨remote.name, name⟩] })

/-- The imports of the bundle, one item per library. -/
def libraryImports (n : FinalNames) : List LibraryImport :=
  (n.externals.rows.foldl (addLibraryBinding n) {}).values

/-- The statements of modules that are written: declarations and verbatim text. -/
def placedStatements (trees : List ModuleTree) : List PlacedStatement :=
  trees.flatMap fun t => t.statements.filterMap fun s =>
    match s with
    | .declaration d => some { origin := some t.path, pos := d.pos, statement := s }
    | .verbatim _ pos => some { origin := some t.path, pos, statement := s }
    | _ => none

/-- What a bundle of `entry` reaches, and the reports up to there. Names that verbatim statements
use and nothing provides count as reached. -/
def reach (entry : ModuleId) (modules : List ModuleId) (surface : List (String × Resolution)) :
    Reach × List Diagnostic :=
  let (roots, ds) := b.roots entry modules surface
  let r := b.references.closure b.linker roots
  let verbatim := modules.map b.references.verbatimEdges
  ({ r with globals := pushAllNew r.globals (verbatim.flatMap (·.globals)) },
    ds ++ r.surfaceDiagnostics ++ verbatim.flatMap (·.diagnostics))

/-- The bundle of an entry module that is in the store. -/
def bundleModule (entry : Entry) (entryId : ModuleId) : Bundle :=
  let modules := b.references.sourceModules b.linker entryId
  let (surface, surfaceReports) := b.linker.surface entryId
  let (surfaceEntries, requiredReports) := required entry.module surface entry.exports
  let (reach, reachReports) := b.reach entryId modules surfaceEntries
  let shaken := Shake.modules b.store modules reach
  let counts := Shake.counts b.store modules reach
  let naming := Naming.run ⟨b.linker, reach, entryId⟩
    (if b.options.reserveGlobals then reach.globals else []) b.store.nextId shaken
  let declared := Ambient.addDeclare naming.trees
  let trees := Ambient.dropExports declared
  let merged := MergeInput.merge {
    linker := b.linker, entry := entryId, surface := surfaceEntries
    externalStars := surface.externalStars, trees, names := naming.names
    inlineExports := Ambient.inlineExports naming.names declared }
  let file : OutputFile := {
    fileName := entry.output
    imports := libraryImports naming.names
    statements := placedStatements trees ++ merged.statements.map fun s => { statement := s }
    exports := merged.exports
    moduleMarker := b.options.emitModuleMarker }
  { file
    printed := Print.run file b.options.sourceMap
    stats := Stats.collect reach counts naming.names.renamedCount
    diagnostics := Diagnostic.dedupe
      (surfaceReports ++ requiredReports ++ reachReports ++ reach.diagnostics)
    naming }

/-- The bundle of an entry, unless its module is not in the store. -/
def bundle (entry : Entry) : Except BundleError Bundle :=
  match b.store.lookup entry.module with
  | none => .error (.unknownEntry entry.module)
  | some entryId => .ok (b.bundleModule entry entryId)

/-- The bundles of all entries, or the error of the first that has none. -/
def bundleEach : List Entry → Except BundleError (List Bundle)
  | [] => .ok []
  | e :: es => do
    let bundle ← b.bundle e
    return bundle :: (← bundleEach es)

end Bundler

end DeclBundle
