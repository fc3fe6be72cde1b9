import DeclBundle.Link.Stem
import DeclBundle.Options
import DeclBundle.Store
import DeclBundle.Table

/-!
# Linked modules

For every module of a store: its top-level symbols, its import bindings, its export table in source
order, and its star exports. Several declarations under one name form one symbol.
-/

namespace DeclBundle

/-- Where an import or a re-export points. -/
inductive Provider where
  | internal (module : ModuleId)
  /-- A library outside the store. -/
  | external (specifier : String)
deriving DecidableEq, Repr

/-- What is imported. -/
inductive Remote where
  | named (name : String)
  | default
  /-- The module as a namespace. -/
  | all
deriving DecidableEq, Repr

namespace Remote

/-- The remote name that a word stands for. -/
def ofName (name : String) : Remote :=
  if name = "default" then .default else if name = "*" then .all else .named name

/-- The word for a remote name. -/
def name : Remote → String
  | .named name => name
  | .default => "default"
  | .all => "*"

end Remote

/-- A binding that a library provides. -/
structure LibraryBinding where
  specifier : String
  remote : Remote
deriving DecidableEq, Repr

/-- What a local name is imported from. -/
structure ImportRow where
  source : Provider
  remote : Remote
deriving DecidableEq, Repr

/-- A row of an export table. -/
inductive ExportRow where
  /-- The module's own binding, or one that it imports. -/
  | own (binding : String)
  | reexport (source : Provider) (remote : Remote)
deriving DecidableEq, Repr

/-- What is known of a top-level declaration without its tree. -/
structure DeclSummary where
  module : ModuleId
  name : String
  tag : DeclarationTag
deriving DecidableEq, Repr

/-- The end of a look-up. -/
inductive Resolution where
  /-- A top-level declaration, the first of its symbol. -/
  | declaration (id : DeclId)
  /-- A whole module as a namespace. -/
  | namespaceOf (module : ModuleId)
  | external (ref : LibraryBinding)
  | unresolved
deriving DecidableEq, Repr

/-- The tables of one module. -/
structure ModuleTables where
  module : ModuleId
  path : String
  symbols : Table String (List DeclId) := {}
  imports : Table String ImportRow := {}
  exports : Table String ExportRow := {}
  starExports : List Provider := []
  exportAssignment : Option String := none
  /-- Modules of the store that this one imports from or re-exports. -/
  dependencies : List ModuleId := []

/-- The bindings of a top-level declaration in the module at `path`, each with its identity. An
anonymous declaration is known under the name of the module's default export. -/
def Declaration.bindings (d : Declaration) (path : String) : List (Option DeclId × String) :=
  match d.kind with
  | .variableList _ declarators => declarators.map fun v => (v.id, v.name)
  | _ => [(d.id, d.name?.getD (anonymousName path))]

namespace ModuleTables

/-- Adds a declaration to the symbol of its name. -/
def enterSymbol (s : ModuleTables) (name : String) (id : DeclId) : ModuleTables :=
  { s with symbols := s.symbols.insert name ((s.symbols.get? name).getD [] ++ [id]) }

/-- Adds a row to the export table unless there is one under its name. -/
def enterExport (s : ModuleTables) (name : String) (row : ExportRow) : ModuleTables :=
  { s with exports := s.exports.insertNew name row }

/-- Notes a module that this one depends on. -/
def enterDependency (s : ModuleTables) : Provider → ModuleTables
  | .internal module => { s with dependencies := pushNew s.dependencies module }
  | .external _ => s

/-- Adds one binding of a declaration: its symbol, and its row if it is exported. Only a declaration
that is not a variable statement can be the default export. -/
def enterBinding (d : Declaration) (s : ModuleTables) : Option DeclId × String → ModuleTables
  | (id, name) =>
    let s := match id with
      | some id => s.enterSymbol name id
      | none => s
    if d.modifiers.isDefaultExport && d.tag ≠ .variableList then s.enterExport "default" (.own name)
    else if d.modifiers.exported then s.enterExport name (.own name)
    else s

/-- Enters one statement into the tables; `classify` tells modules of the store from libraries. -/
def enterStatement (classify : String → Provider) (s : ModuleTables) : Statement → ModuleTables
  | .declaration d => (d.bindings s.path).foldl (enterBinding d) s
  | .imports i =>
    let source := classify i.source
    i.bindings.foldl (fun s (binding, remote) =>
        { s with imports := s.imports.insert binding ⟨source, .ofName remote⟩ })
      (s.enterDependency source)
  | .exports e =>
    match e.source.map classify with
    | none => e.specifiers.foldl (fun s x => s.enterExport x.exported (.own x.binding)) s
    | some source =>
      e.specifiers.foldl
        (fun s x => s.enterExport x.exported (.reexport source (.ofName x.binding)))
        (s.enterDependency source)
  | .exportAll source name =>
    let source := classify source
    let s := s.enterDependency source
    match name with
    | some name => s.enterExport name (.reexport source .all)
    | none => { s with starExports := s.starExports ++ [source] }
  | .exportDefault expression => s.enterExport "default" (.own expression)
  | .exportAssignment expression => { s with exportAssignment := some expression }
  | .verbatim .. => s

end ModuleTables

/-- The tables of all modules of a store. -/
structure Linker where
  scopes : List ModuleTables
  decls : Table DeclId DeclSummary
  maxDepth : Nat
  starPolicy : StarPolicy

namespace Linker

/-- The tables of the module at place `module`. -/
def tablesOf (store : Store) (module : ModuleId) (unit : DeclUnit) : ModuleTables :=
  let classify := fun specifier => match store.lookup specifier with
    | some m => .internal m
    | none => .external specifier
  unit.statements.foldl (ModuleTables.enterStatement classify) { module, path := unit.path }

/-- The declarations of a unit with their identities. -/
def declarationsOf (module : ModuleId) (unit : DeclUnit) : List (DeclId × DeclSummary) :=
  unit.statements.flatMap fun
    | .declaration d =>
      (d.bindings unit.path).filterMap fun (id, name) => id.map (·, ⟨module, name, d.tag⟩)
    | _ => []

/-- The linker of a store: the tables of every module and a summary of every declaration. -/
def build (store : Store) (options : Options) : Linker where
  scopes := store.units.zipIdx.map fun (unit, module) => tablesOf store module unit
  decls := ⟨store.units.zipIdx.flatMap fun (unit, module) => declarationsOf module unit⟩
  maxDepth := options.maxReexportDepth
  starPolicy := options.starPolicy

variable (l : Linker)

/-- The tables of a module. -/
def scope? (module : ModuleId) : Option ModuleTables := l.scopes[module]?

/-- The module with this path. -/
def lookup (path : String) : Option ModuleId := l.scopes.findIdx? (·.path == path)

/-- The path of a module, empty for one that is not there. -/
def modulePath (module : ModuleId) : String := ((l.scope? module).map (·.path)).getD ""

/-- The summary of a declaration. -/
def decl? (id : DeclId) : Option DeclSummary := l.decls.get? id

/-- The declarations under the same top-level name as `id`, itself among them. -/
def symbolDecls (id : DeclId) : List DeclId :=
  ((do
    let info ← l.decl? id
    let scope ← l.scope? info.module
    scope.symbols.get? info.name) : Option (List DeclId)).getD []

/-- Whether a name is an import binding of a module. -/
def importsName (module : ModuleId) (name : String) : Bool :=
  (l.scope? module).any (·.imports.contains name)

/-- The modules that a module imports from or re-exports. -/
def dependencies (module : ModuleId) : List ModuleId :=
  ((l.scope? module).map (·.dependencies)).getD []

/-- How many modules there are. -/
def size : Nat := l.scopes.length

/-- Counts over all modules. -/
structure Counts where
  modules : Nat
  declarations : Nat
  imports : Nat
  exports : Nat
  starExports : Nat
  /-- Libraries that something is imported from. -/
  externalSpecifiers : Nat

/-- What the tables hold, counted. -/
def counts : Counts where
  modules := l.scopes.length
  declarations := l.decls.size
  imports := (l.scopes.flatMap (·.imports.rows)).length
  exports := (l.scopes.flatMap (·.exports.rows)).length
  starExports := (l.scopes.flatMap (·.starExports)).length
  externalSpecifiers :=
    (l.scopes.flatMap fun s => s.imports.values.filterMap fun b =>
      match b.source with
      | .external specifier => some specifier
      | .internal _ => none).eraseDups.length

end Linker

end DeclBundle
