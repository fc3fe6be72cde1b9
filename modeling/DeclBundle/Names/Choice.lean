import DeclBundle.Names.Final
import DeclBundle.Shake

/-!
# Choosing top-level names

The modules of a bundle are gone through as if they were one file. Each symbol takes its name where
it is first declared; a library binding or a namespace that is reached takes its name at the first
statement that introduces it, and those that no statement introduces follow at the end. A name that
is taken gets a number.
-/

namespace DeclBundle

/-- What the choice of names depends on and does not change. -/
structure NamingContext where
  linker : Linker
  reach : Reach
  entry : ModuleId

namespace FinalNames

/-- Binds a declaration under the name of its symbol, which is chosen if it has none. -/
def nameSymbol (n : FinalNames) (module : ModuleId) (id : DeclId) (given : String) :
    FinalNames :=
  let (name, n) := match n.symbol? module given with
    | some name => (name, n)
    | none =>
      let (name, scopes) := n.scopes.bind given (some module)
      (name, { n with scopes, symbols := n.symbols.insertNew (module, given) name })
  { n with topLevel := n.topLevel.insertNew id ⟨some module, given, name⟩ }

/-- Gives out an identity for a binding without a declaration; an empty name becomes `ns`. -/
def nameFresh (n : FinalNames) (module : Option ModuleId) (preferred : String) :
    DeclId × FinalNames :=
  let preferred := if preferred = "" then "ns" else preferred
  let (name, scopes) := n.scopes.bind preferred module
  (n.nextId,
    { n with
      scopes, nextId := n.nextId + 1
      topLevel := n.topLevel.insertNew n.nextId ⟨module, preferred, name⟩ })

/-- Binds a library binding that is reached and has no name yet. -/
def nameLibraryBinding (n : FinalNames) (c : NamingContext) (module : Option ModuleId)
    (ref : LibraryBinding) (preferred : String) : FinalNames :=
  if ref ∈ c.reach.imports ∧ ¬ n.externals.contains ref then
    let (id, n) := n.nameFresh module preferred
    { n with externals := n.externals.insert ref id }
  else n

/-- Binds the namespace of a module that is reached and has no name yet. -/
def nameNamespace (n : FinalNames) (c : NamingContext) (module : Option ModuleId)
    (target : ModuleId) (preferred : String) : FinalNames :=
  if target ∈ c.reach.namespaces ∧ ¬ n.namespaces.contains target then
    let (id, n) := n.nameFresh module preferred
    { n with namespaces := n.namespaces.insert target id }
  else n

/-- Binds what a statement of a module introduces under a name, if it needs a name of its own. -/
def nameResolution (n : FinalNames) (c : NamingContext) (module : ModuleId) (preferred : String) :
    Resolution → FinalNames
  | .external ref => n.nameLibraryBinding c (some module) ref preferred
  | .namespaceOf target => n.nameNamespace c (some module) target preferred
  | .declaration _ | .unresolved => n

/-- Whether a row of the entry's export table exports its local name `binding`. -/
def entryExports (c : NamingContext) (binding : String) : Bool :=
  (c.linker.scope? c.entry).any fun scope => scope.exports.values.any (· = .own binding)

/-- Whether an import of the entry needs an alias: a default that is reached, under another name
than its declaration has, and exported under that name. -/
def needsAlias (c : NamingContext) (module : ModuleId) (binding remote : String)
    (terminal : DeclId) : Bool :=
  remote = "default" && (c.linker.decl? terminal).all (·.name ≠ binding) && module = c.entry
    && c.reach.contains terminal && entryExports c binding

/-- Names the alias of an import binding, once. -/
def nameAlias (n : FinalNames) (module : ModuleId) (binding : String) (terminal : DeclId) :
    FinalNames :=
  if n.aliases.contains (module, binding) then n
  else
    let (id, n) := n.nameFresh (some module) binding
    { n with aliases := n.aliases.insert (module, binding) ⟨id, terminal⟩ }

/-- Names what an import binding of a module is written as: an alias, where one is needed, or what
the import leads to. -/
def nameImport (n : FinalNames) (c : NamingContext) (module : ModuleId) (binding remote : String) :
    FinalNames :=
  match (c.linker.resolveLocal module binding).1 with
  | .declaration terminal =>
    if needsAlias c module binding remote terminal then n.nameAlias module binding terminal else n
  | r => n.nameResolution c module binding r

/-- Binds what a re-export introduces; a default or a namespace goes by its exported name. -/
def nameReexport (n : FinalNames) (c : NamingContext) (module : ModuleId) (s : ExportSpecifier) :
    FinalNames :=
  let preferred := match Remote.ofName s.binding with
    | .named name => name
    | _ => s.exported
  n.nameResolution c module preferred (c.linker.resolveExport module s.exported).1

/-- Binds what one statement of a module introduces. -/
def nameStatement (c : NamingContext) (tree : ModuleTree) (n : FinalNames) : Statement → FinalNames
  | .declaration d =>
    (d.bindings tree.path).foldl (fun n (id, name) =>
      match id with
      | some id => n.nameSymbol tree.module id name
      | none => n) n
  | .imports i =>
    i.bindings.foldl (fun n (binding, remote) => n.nameImport c tree.module binding remote) n
  | .exports e =>
    if e.source.isSome then e.specifiers.foldl (fun n s => n.nameReexport c tree.module s) n else n
  | .exportAll _ (some name) =>
    n.nameResolution c tree.module name (c.linker.resolveExport tree.module name).1
  | _ => n

/-- Names the bindings of a module, statement by statement. -/
def nameModule (c : NamingContext) (n : FinalNames) (tree : ModuleTree) : FinalNames :=
  tree.statements.foldl (nameStatement c tree) n

/-- The name for a library binding that no statement introduces. -/
def fallbackName (ref : LibraryBinding) : String :=
  match ref.remote with
  | .named name => name
  | .default | .all => Text.decapitalized (capitalizedStem ref.specifier)

/-- Binds what is reached and no statement introduces: library bindings, then namespaces. -/
def nameRest (c : NamingContext) (n : FinalNames) : FinalNames :=
  let n := c.reach.imports.foldl (fun n ref => n.nameLibraryBinding c none ref (fallbackName ref)) n
  c.reach.namespaces.foldl (fun n module =>
    n.nameNamespace c (some module) module
      (Text.decapitalized (capitalizedStem (c.linker.modulePath module)))) n

/-- Reserves names at the top level. -/
def reserve (n : FinalNames) (names : List String) : FinalNames :=
  { n with scopes := names.foldl Scopes.reserve n.scopes }

/-- The final names of the modules of a bundle, given out from identity `firstId` on. -/
def choose (c : NamingContext) (reserved : List String) (firstId : DeclId)
    (trees : List ModuleTree) : FinalNames :=
  nameRest c (trees.foldl (nameModule c) (reserve { nextId := firstId } reserved))

end FinalNames

end DeclBundle
