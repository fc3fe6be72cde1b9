import DeclBundle.Ambient
import DeclBundle.Output

/-!
# The export clause and what no module wrote

The surface of the entry becomes one export clause under final names. With it come the declarations
that no module wrote: the aliases of default imports, and one block for every namespace that is
reached, which exports the surface of its module.
-/

namespace DeclBundle

/-- The export clause, the added declarations, and the first identity that is not given out. -/
structure Merged where
  exports : ExportClause := {}
  /-- Aliases, then namespace blocks. -/
  statements : List Statement := []
  nextId : DeclId

/-- What a merge depends on. -/
structure MergeInput where
  linker : Linker
  entry : ModuleId
  /-- The exports of the entry that are asked for. -/
  surface : List (String × Resolution)
  externalStars : List String
  trees : List ModuleTree
  names : FinalNames
  inlineExports : List InlineExport

namespace MergeInput

variable (m : MergeInput)

/-- The final name that stands for a resolution. -/
def nameOf (r : Resolution) : Option String := m.names.resolved? m.linker r

/-- The alias that the entry exports under a name. -/
def aliasOf (name : String) : Option ImportAlias := do
  let scope ← m.linker.scope? m.entry
  match ← scope.exports.get? name with
  | .own binding => m.names.aliases.get? (m.entry, binding)
  | .reexport .. => none

/-- What a declaration noted that it exports; a later note counts. -/
def inlineExportOf (id : DeclId) : Option InlineExport :=
  m.inlineExports.reverse.find? (·.decl == id)

/-- The final name that is exported for an entry of the surface. -/
def clauseBinding (name : String) (r : Resolution) : Option String :=
  match m.aliasOf name with
  | some a => m.names.get? a.id
  | none =>
    match r with
    | .declaration id =>
      match m.inlineExportOf id with
      | some intent => some intent.binding
      | none => m.nameOf r
    | _ => m.nameOf r

/-- The final name of what the entry assigns as its export. -/
def assignment : Option String := do
  let scope ← m.linker.scope? m.entry
  let expression ← scope.exportAssignment
  m.nameOf (m.linker.resolveLocal m.entry expression).1

/-- The export clause: the rows of the wanted surface that a binding of the file stands for. -/
def clause : ExportClause where
  entries := m.surface.filterMap fun (name, r) => (m.clauseBinding name r).map (⟨·, name⟩)
  assignment := m.assignment
  externalStars := m.externalStars

/-- The type parameters of what a kind declares. -/
def typeParametersOf : DeclarationKind → List TypeParameter
  | .interface _ tps _ _ | .classLike _ tps _ _ _ | .typeAlias _ tps _ => tps
  | _ => []

/-- The type parameters of the first declaration of a symbol that has any. -/
def symbolTypeParameters (terminal : DeclId) : List TypeParameter :=
  let ids := m.linker.symbolDecls terminal
  let lists := m.trees.flatMap fun t => t.statements.filterMap fun s => do
    let d ← s.declaration?
    if d.id.any (· ∈ ids) then some (typeParametersOf d.kind) else none
  (lists.find? (!·.isEmpty)).getD []

/-- The kinds of the declarations of a symbol. -/
def symbolTags (id : DeclId) : List DeclarationTag :=
  (m.linker.symbolDecls id).filterMap fun d => (m.linker.decl? d).map (·.tag)

/-- Whether an alias of a declaration of this kind is a constant. -/
def isValueLike : DeclarationTag → Bool
  | .function | .variableList | .namespaceBlock | .classLike => true
  | _ => false

/-- Whether an alias of a declaration of this kind is a type. -/
def isTypeLike : DeclarationTag → Bool
  | .interface | .typeAlias | .enumeration | .classLike => true
  | _ => false

/-- Numbers type parameters from `nextId` on. -/
def numberParameters (nextId : DeclId) (tps : List TypeParameter) : List TypeParameter :=
  tps.zipIdx.map fun (p, i) => { p with id := some (nextId + i) }

/-- A constant whose type is that of the declaration that an import leads to. -/
def valueAlias (a : ImportAlias) (name target : String) (id : DeclId) : Statement :=
  .declaration ⟨some id, { declare := true }, none,
    .variableList .constant [⟨some a.id, name, some (.query (.ofText target) []), none⟩]⟩

/-- A type alias for the declaration that an import leads to, with its type parameters handed on. -/
def typeAlias (name target : String) (tps : List TypeParameter) (id : DeclId) : Statement :=
  .declaration ⟨some id, .none, none,
    .typeAlias name tps
      (.reference (.ofText target) (tps.map fun p => .reference (.ofText p.name) []))⟩

/-- The declarations of an alias: a constant for a value, a type for a type, both for a class. -/
def aliasStatements (a : ImportAlias) (nextId : DeclId) : List Statement × DeclId :=
  let found := do
    let name ← m.names.get? a.id
    let info ← m.linker.decl? a.terminal
    let target ← m.names.symbol? info.module info.name
    return (name, target)
  match found with
  | none => ([], nextId)
  | some (name, target) =>
    let tags := m.symbolTags a.terminal
    let (values, nextId) :=
      if tags.any isValueLike then ([valueAlias a name target nextId], nextId + 1)
      else ([], nextId)
    let (types, nextId) :=
      if tags.any isTypeLike then
        let tps := numberParameters nextId (m.symbolTypeParameters a.terminal)
        let id := nextId + tps.length
        ([typeAlias name target tps id], id + 1)
      else ([], nextId)
    (values ++ types, nextId)

/-- The exports of a namespace block: the surface of its module under final names. -/
def namespaceSpecifiers (module : ModuleId) : List ExportSpecifier :=
  (m.linker.surface module).1.entries.rows.filterMap fun (name, r) => (m.nameOf r).map (⟨·, name⟩)

/-- `declare namespace name { export { … }; }` -/
def namespaceStatement (module : ModuleId) (name : String) (id : DeclId) : Statement :=
  let specifiers := m.namespaceSpecifiers module
  let body := if specifiers.isEmpty then [] else [.exports ⟨specifiers, none, false⟩]
  .declaration ⟨some id, { declare := true }, none, .namespaceBlock name false body⟩

/-- Puts the statements for one import alias at the end. -/
def addAlias (acc : List Statement × DeclId) (a : ImportAlias) : List Statement × DeclId :=
  let (statements, nextId) := m.aliasStatements a acc.2
  (acc.1 ++ statements, nextId)

/-- Puts the block of one namespace at the end, under its final name. -/
def addNamespace (acc : List Statement × DeclId) : ModuleId × DeclId → List Statement × DeclId
  | (module, id) =>
    match m.names.get? id with
    | some name => (acc.1 ++ [m.namespaceStatement module name acc.2], acc.2 + 1)
    | none => acc

/-- The export clause and the added declarations. -/
def merge : Merged :=
  let acc := m.names.aliases.values.foldl m.addAlias ([], m.names.nextId)
  let (statements, nextId) := m.names.namespaces.rows.foldl m.addNamespace acc
  { exports := m.clause, statements, nextId }

end MergeInput

end DeclBundle
