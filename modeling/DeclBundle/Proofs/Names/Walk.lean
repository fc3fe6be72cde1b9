import DeclBundle.Names.Naming

/-!
# Renaming by one walk

Renaming gives every part of a tree the site where it stands. Here one walk goes through all
statements and carries its state along: it opens and closes scopes, keeps the local bindings of the
open ones on a stack, and reads and fills one table of final names. Nothing but the calls of
`exitScope` closes what was opened.

From a state in which every binding without a declaration has its row, the walk gives at every part
what renaming gives at the site of that state, and leaves behind what it found, apart from the
nested names that it notes (`Walk.leads_type`, `Walk.leads_member`, `Walk.leads_topStatement`).
-/

namespace DeclBundle

namespace Walk

/-- What a walk finds where it stands: the final names with the open scopes, and the local bindings
of each open scope, innermost first. -/
structure Setting where
  names : FinalNames
  locals : List (List LocalName) := []

/-- The state of a walk. -/
structure State extends Setting where
  /-- The final names of the nested bindings so far. -/
  nested : Table DeclId String := {}

namespace State

variable (l : Linker) (module : ModuleId) (s : State)

/-- The final name of an identity, at the top level or nested. -/
def get? (id : DeclId) : Option String := (s.names.get? id).or (s.nested.get? id)

/-- The final name that stands for a resolution. -/
def resolved? : Resolution → Option String
  | .declaration id => do
    let info ← l.decl? id
    s.names.symbol? info.module info.name
  | .namespaceOf module => (s.names.namespaces.get? module).bind s.get?
  | .external ref => (s.names.externals.get? ref).bind s.get?
  | .unresolved => none

/-- The local binding of a name in a space that is innermost in this state. -/
def local? (name : String) (space : Space) : Option LocalName :=
  s.locals.findSome? fun scope => scope.find? fun b => b.given == name && b.space.covers space

/-- The final name of a use in a module, if it has one. -/
def finalName? (name : String) (space : Space) : Option String :=
  match s.local? name space with
  | some b => some b.name
  | none => s.resolved? l (l.resolveLocal module name).1

/-- The final name of the root of an import type. -/
def importRoot (specifier : String) (qualifier : Option String) : Option String := do
  let target ← l.lookup specifier
  s.resolved? l (match qualifier with
    | some name => (l.resolveExport target name).1
    | none => .namespaceOf target)

/-- What a reference becomes in this state. -/
def reference? : Reference → Option String
  | .name name => s.finalName? l module name .both
  | .importType specifier qualifier => s.importRoot l specifier qualifier

/-- A declarator under its final name in this state. -/
def renameDeclarator (d : Declarator) : Declarator :=
  { d with name := (d.id.bind s.get?).getD d.name }

/-- A top-level declaration under its final name. -/
def underFinalName (d : Declaration) : Declaration :=
  match d.kind with
  | .variableList flavor ds => { d with kind := .variableList flavor (ds.map s.renameDeclarator) }
  | _ =>
    match d.id.bind s.get? with
    | some name => d.setName name
    | none => d

end State

end Walk

/-- A walk that gives a part of a tree under final names. -/
abbrev Walk := StateM Walk.State

namespace Walk

/-! ## Single steps -/

/-- Looks something up. -/
def look (f : State → α) : Walk α := fun s => (f s, s)

/-- Notes nested names, of which the first for an identity counts. -/
def noteAll (nested : Table DeclId String) (names : List (DeclId × String)) :
    Table DeclId String :=
  names.foldl (fun t (id, name) => t.insertNew id name) nested

/-- A part that is given without a look at the state. -/
def pass (x : Named α) : Walk α := fun s =>
  (x.value, { s with nested := noteAll s.nested x.nested })

/-- A step on the scopes alone. -/
def inScopes (f : Scopes → α × Scopes) : Walk α := fun s =>
  ((f s.names.scopes).1, { s with names.scopes := (f s.names.scopes).2 })

/-- A step on the local bindings alone. -/
def inLocals (f : List (List LocalName) → List (List LocalName)) : Walk Unit := fun s =>
  ((), { s with locals := f s.locals })

/-- Binds type parameters in the open scope, each with its identity, and notes their names. -/
def bindTypes : List (Option DeclId × String) → Walk (List String)
  | [] => pure []
  | (id, given) :: rest => do
    let name ← inScopes (·.bind given none)
    pass (Named.note id name)
    return name :: (← bindTypes rest)

/-- Opens a scope and binds type parameters in it. -/
def enterTypes (parameters : List (Option DeclId × String)) : Walk (List String) := do
  inScopes fun s => ((), s.push)
  let names ← bindTypes parameters
  inLocals (((parameters.map (·.2)).zip names |>.map fun b => ⟨b.1, b.2, .type⟩).reverse :: ·)
  return names

/-- Adds bindings to those of the open scope. -/
def addLocals (bindings : List LocalName) : List (List LocalName) → List (List LocalName)
  | [] => []
  | scope :: outer => (bindings.reverse ++ scope) :: outer

/-- Adds parameters, which keep their names, to the open scope. -/
def enterParameters (ps : List Parameter) : Walk Unit :=
  inLocals (addLocals (ps.map fun p => ⟨p.name, p.name, .value⟩))

/-- Opens the scope of a namespace body with these members. -/
def enterBody (captured members : List String) : Walk (Table String String) := do
  inScopes fun s => ((), s.push)
  inScopes fun s => ((), (members.filter (· ∉ captured)).foldl Scopes.reserveInScope s)
  let renamed ← inScopes (Site.bindCaptured captured · members)
  inLocals ((members.map fun m => ⟨m, (renamed.get? m).getD m, .both⟩).reverse :: ·)
  return renamed

/-- Closes the innermost scope with its local bindings. -/
def exitScope : Walk Unit := do
  inScopes fun s => ((), s.pop)
  inLocals List.tail

/-! ## The walk -/

section

variable (l : Linker) (module : ModuleId)

/-- The final name of a name, looked up on the way. -/
def finalName? (name : String) (space : Space) : Walk (Option String) :=
  look (·.finalName? l module name space)

/-- A dotted name, with the final name of its root looked up. -/
def entity (space : Space) (e : Entity) : Walk Entity := do
  match ← finalName? l module e.root space with
  | some name => return if name = e.root then e else e.setRoot name
  | none => return e

/-- A plain name, with its final name looked up. -/
def plainName (name : String) : Walk String :=
  return (← finalName? l module name .both).getD name

/-- Verbatim tokens, from the first to the last. -/
def tokens : List Token → Walk (List Token)
  | [] => pure []
  | .text text :: ts => return .text text :: (← tokens ts)
  | .identifier name :: ts => return .identifier (← plainName l module name) :: (← tokens ts)

/-- The name of a member; the well-known symbols stay. -/
def propertyName : PropertyName → Walk PropertyName
  | .computed e => if e.root = "Symbol" then pure (.computed e)
    else return .computed (← entity l module .value e)
  | name => pure name

/-- An import type, with the name of its module or its declaration looked up. -/
def importType (argument : String) (qualifier : Option Entity) (arguments : List TypeExpr)
    (isTypeOf : Bool) : Walk TypeExpr := do
  let root ← look (·.importRoot l argument (qualifier.map Entity.root))
  match if qualifier.isNone && !isTypeOf then none else root with
  | none => return .importType argument qualifier arguments isTypeOf
  | some name =>
    let path := ((qualifier.map Entity.segments).getD []).drop 1
    return if isTypeOf then .query ⟨name :: path⟩ arguments else .reference ⟨name :: path⟩ arguments

mutual
/-- A type, its parts in the order of the text. -/
def type : TypeExpr → Walk TypeExpr
  | .keyword name => pure (.keyword name)
  | .literal text => pure (.literal text)
  | .reference name arguments => do
    let name ← entity l module .type name
    return .reference name (← types arguments)
  | .query name arguments => do
    let name ← entity l module .value name
    return .query name (← types arguments)
  | .array element => return .array (← type element)
  | .tuple es => return .tuple (← elements es)
  | .union ts => return .union (← types ts)
  | .intersection ts => return .intersection (← types ts)
  | .function tps ps result => do
    let names ← enterTypes (tps.map fun p => (p.id, p.name))
    let bounded ← typeParameters names tps
    enterParameters ps
    let annotated ← parameters ps
    let result ← type result
    exitScope
    return .function bounded annotated result
  | .construct isAbstract tps ps result => do
    let names ← enterTypes (tps.map fun p => (p.id, p.name))
    let bounded ← typeParameters names tps
    enterParameters ps
    let annotated ← parameters ps
    let result ← type result
    exitScope
    return .construct isAbstract bounded annotated result
  | .object ms => return .object (← members ms)
  | .operator op target => return .operator op (← type target)
  | .indexed object index => return .indexed (← type object) (← type index)
  | .conditional check bound onTrue onFalse => do
    let check ← type check
    let _ ← enterTypes (bound.inferredNames.map (none, ·))
    let limit ← type bound
    let onTrue ← type onTrue
    exitScope
    return .conditional check limit onTrue (← type onFalse)
  | .infer ⟨id, name, constraint, fallback, keywords⟩ => do
    let final ← finalName? l module name .type
    pass (Named.note (if final.isSome then id else none) (final.getD name))
    return .infer ⟨id, final.getD name, ← option constraint, ← option fallback, keywords⟩
  | .mapped ⟨id, name, constraint, fallback, keywords⟩ nameType readonly optionality target => do
    let constraint ← option constraint
    let fallback ← option fallback
    let names ← enterTypes [(id, name)]
    let nameType ← option nameType
    let target ← option target
    exitScope
    return .mapped ⟨id, names.headD name, constraint, fallback, keywords⟩ nameType readonly
      optionality target
  | .importType argument qualifier arguments isTypeOf => do
    importType l argument qualifier (← types arguments) isTypeOf
  | .predicate asserts parameter target => return .predicate asserts parameter (← option target)
  | .parenthesized inner => return .parenthesized (← type inner)
  | .template head ss => return .template head (← spans ss)
  | .verbatim ts => return .verbatim (← tokens l module ts)

/-- A type that may be missing. -/
def option : Option TypeExpr → Walk (Option TypeExpr)
  | none => pure none
  | some t => return some (← type t)

/-- A list of types, from the first to the last. -/
def types : List TypeExpr → Walk (List TypeExpr)
  | [] => pure []
  | t :: ts => return (← type t) :: (← types ts)

/-- Type parameters under the given names: their constraints and defaults. -/
def typeParameters (names : List String) : List TypeParameter → Walk (List TypeParameter)
  | [] => pure []
  | ⟨id, name, constraint, fallback, keywords⟩ :: ps => do
    let constraint ← option constraint
    let fallback ← option fallback
    return ⟨id, names.headD name, constraint, fallback, keywords⟩
      :: (← typeParameters names.tail ps)

/-- Parameters, from the first to the last. -/
def parameters : List Parameter → Walk (List Parameter)
  | [] => pure []
  | ⟨name, modifiers, optionality, rest, ascription⟩ :: ps => do
    let ascription ← option ascription
    return ⟨name, modifiers, optionality, rest, ascription⟩ :: (← parameters ps)

/-- The elements of a tuple type, from the first to the last. -/
def elements : List TupleElement → Walk (List TupleElement)
  | [] => pure []
  | ⟨name, optionality, rest, element⟩ :: es => do
    let element ← type element
    return ⟨name, optionality, rest, element⟩ :: (← elements es)

/-- The types in a template literal type, from the first to the last. -/
def spans : List TemplateSpan → Walk (List TemplateSpan)
  | [] => pure []
  | ⟨t, literal⟩ :: ss => do
    let t ← type t
    return ⟨t, literal⟩ :: (← spans ss)

/-- A list of members, from the first to the last. -/
def members : List Member → Walk (List Member)
  | [] => pure []
  | m :: ms => return (← member m) :: (← members ms)

/-- A member, with a scope for its signature if it has one. -/
def member : Member → Walk Member
  | .property name modifiers optionality ascription => do
    let name ← propertyName l module name
    return .property name modifiers optionality (← option ascription)
  | .method name modifiers optionality tps ps result => do
    let name ← propertyName l module name
    let names ← enterTypes (tps.map fun p => (p.id, p.name))
    let bounded ← typeParameters names tps
    enterParameters ps
    let annotated ← parameters ps
    let result ← option result
    exitScope
    return .method name modifiers optionality bounded annotated result
  | .call tps ps result => do
    let names ← enterTypes (tps.map fun p => (p.id, p.name))
    let bounded ← typeParameters names tps
    enterParameters ps
    let annotated ← parameters ps
    let result ← option result
    exitScope
    return .call bounded annotated result
  | .construct tps ps result => do
    let names ← enterTypes (tps.map fun p => (p.id, p.name))
    let bounded ← typeParameters names tps
    enterParameters ps
    let annotated ← parameters ps
    let result ← option result
    exitScope
    return .construct bounded annotated result
  | .index modifiers ps ascription =>
    return .index modifiers (← parameters ps) (← type ascription)
  | .initializer modifiers ps => return .initializer modifiers (← parameters ps)
  | .getter name modifiers result => do
    let name ← propertyName l module name
    return .getter name modifiers (← option result)
  | .setter name modifiers ps => do
    let name ← propertyName l module name
    return .setter name modifiers (← parameters ps)
end

/-- A heritage clause: the name, then its arguments. -/
def heritage (h : Heritage) : Walk Heritage := do
  let expression ← entity l module .type h.expression
  return ⟨expression, ← types l module h.arguments⟩

/-- A list of heritage clauses, from the first to the last. -/
def heritages : List Heritage → Walk (List Heritage)
  | [] => pure []
  | h :: hs => return (← heritage l module h) :: (← heritages hs)

/-- Declarators, from the first to the last. -/
def declarators : List Declarator → Walk (List Declarator)
  | [] => pure []
  | d :: ds => do
    let ascription ← option l module d.ascription
    return { d with ascription } :: (← declarators ds)

/-- The final names of the outside bindings that a namespace with this body refers to. -/
def capturedNames (body : List Statement) : Walk (List String) :=
  look fun s => (Analysis.ofOccurrences
    (Free.inBody (Free.bodyBinders body) body)).references.filterMap (s.reference? l module)

/-- The names of an export list, from the first to the last. -/
def specifiers : List ExportSpecifier → Walk (List ExportSpecifier)
  | [] => pure []
  | x :: xs => do
    let binding ← plainName l module x.binding
    return { x with binding } :: (← specifiers xs)

mutual
/-- A declaration of any kind, with a scope for its type parameters or its body. -/
def kind : DeclarationKind → Walk DeclarationKind
  | .interface name tps bases ms => do
    let names ← enterTypes (tps.map fun p => (p.id, p.name))
    let bounded ← typeParameters l module names tps
    let bases ← heritages l module bases
    let ms ← members l module ms
    exitScope
    return .interface name bounded bases ms
  | .classLike name tps none implemented ms => do
    let names ← enterTypes (tps.map fun p => (p.id, p.name))
    let bounded ← typeParameters l module names tps
    let implemented ← heritages l module implemented
    let ms ← members l module ms
    exitScope
    return .classLike name bounded none implemented ms
  | .classLike name tps (some base) implemented ms => do
    let expression ← entity l module .value base.expression
    let names ← enterTypes (tps.map fun p => (p.id, p.name))
    let bounded ← typeParameters l module names tps
    let arguments ← types l module base.arguments
    let implemented ← heritages l module implemented
    let ms ← members l module ms
    exitScope
    return .classLike name bounded (some ⟨expression, arguments⟩) implemented ms
  | .function name tps ps result => do
    let names ← enterTypes (tps.map fun p => (p.id, p.name))
    let bounded ← typeParameters l module names tps
    enterParameters ps
    let annotated ← parameters l module ps
    let result ← option l module result
    exitScope
    return .function name bounded annotated result
  | .variableList flavor ds => return .variableList flavor (← declarators l module ds)
  | .enumeration name ms => pure (.enumeration name ms)
  | .typeAlias name tps target => do
    let names ← enterTypes (tps.map fun p => (p.id, p.name))
    let bounded ← typeParameters l module names tps
    let target ← type l module target
    exitScope
    return .typeAlias name bounded target
  | .namespaceBlock name moduleKeyword body => do
    let captured ← capturedNames l module body
    let renamed ← enterBody captured ((Free.bodyBinders body).map Prod.fst)
    let inside ← statements body
    let finished ← pass (Rename.finishBody renamed inside)
    exitScope
    return .namespaceBlock name moduleKeyword finished

/-- A declaration, with what stays beside its kind. -/
def declaration : Declaration → Walk Declaration
  | ⟨id, modifiers, pos, k⟩ => return ⟨id, modifiers, pos, ← kind k⟩

/-- A list of statements, from the first to the last. -/
def statements : List Statement → Walk (List Statement)
  | [] => pure []
  | x :: xs => return (← statement x) :: (← statements xs)

/-- A statement of a namespace body. -/
def statement : Statement → Walk Statement
  | .declaration d => return .declaration (← declaration d)
  | .exports ⟨xs, none, typeOnly⟩ => return .exports ⟨← specifiers l module xs, none, typeOnly⟩
  | .exportDefault expression => return .exportDefault (← plainName l module expression)
  | .exportAssignment expression => return .exportAssignment (← plainName l module expression)
  | .verbatim ts pos => return .verbatim (← tokens l module ts) pos
  | .imports i => pure (.imports i)
  | .exports e => pure (.exports e)
  | .exportAll source name => pure (.exportAll source name)
end

/-- A statement of a module. -/
def topStatement : Statement → Walk Statement
  | .declaration d => do
    let d ← look (·.underFinalName d)
    return .declaration (← declaration l module d)
  | .verbatim ts pos => return .verbatim (← tokens l module ts) pos
  | other => pure other

/-- Statements of modules, one after the other. -/
def topStatements : List (ModuleId × Statement) → Walk (List Statement)
  | [] => pure []
  | (module, st) :: rest => return (← topStatement l module st) :: (← topStatements rest)

end

end Walk

end DeclBundle
