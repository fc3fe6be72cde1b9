import DeclBundle.Names.Site

/-!
# Trees under their final names

Renaming puts the final names into a tree: those of the bindings inside it, which are chosen on the
way, and those of the bindings that it refers to. An import type of a module in the bundle becomes a
plain reference or a `typeof` query. Nothing else is changed, except that a namespace member that
had to be renamed is exported under its old name by a list at the end of the body.

The result carries the final names of the nested bindings with it.
-/

namespace DeclBundle

/-- A renamed part of a tree and the final names of the bindings in it. -/
structure Named (α : Type) where
  value : α
  nested : List (DeclId × String) := []

namespace Named

/-- Parts are renamed one after the other, and their nested names are kept in that order. -/
instance : Monad Named where
  pure a := ⟨a, []⟩
  bind x f := ⟨(f x.value).value, x.nested ++ (f x.value).nested⟩

@[simp] theorem value_pure (a : α) : (pure a : Named α).value = a := rfl

@[simp] theorem value_bind (x : Named α) (f : α → Named β) : (x >>= f).value = (f x.value).value :=
  rfl

@[simp] theorem nested_pure (a : α) : (pure a : Named α).nested = [] := rfl

@[simp] theorem nested_bind (x : Named α) (f : α → Named β) :
    (x >>= f).nested = x.nested ++ (f x.value).nested := rfl

/-- Notes the final name of a binding that has an identity. -/
def note (id : Option DeclId) (name : String) : Named Unit := ⟨(), (id.map (·, name)).toList⟩

end Named

namespace Rename

/-- A name under the final name of its root, if that has one. -/
def entity (s : Site) (space : Space) (e : Entity) : Entity :=
  match s.finalName? e.root space with
  | some name => if name = e.root then e else e.setRoot name
  | none => e

/-- A plain name under its final name, in whichever space it has one. -/
def plainName (s : Site) (name : String) : String := (s.finalName? name .both).getD name

/-- Verbatim tokens with their identifiers under final names. -/
def tokens (s : Site) (ts : List Token) : List Token :=
  ts.map fun
    | .text text => .text text
    | .identifier name => .identifier (plainName s name)

/-- The name of a member; the well-known symbols stay. -/
def propertyName (s : Site) : PropertyName → PropertyName
  | .computed e => .computed (if e.root = "Symbol" then e else entity s .value e)
  | name => name

/-- What an import type becomes, given its renamed arguments: a name with the final root and the
rest of the qualifier, or itself if it is not from the bundle. Without a qualifier only `typeof` can
name the module. -/
def importType (s : Site) (argument : String) (qualifier : Option Entity)
    (arguments : List TypeExpr) (isTypeOf : Bool) : TypeExpr :=
  let root := if qualifier.isNone && !isTypeOf then none
    else s.importRoot argument (qualifier.map Entity.root)
  match root with
  | none => .importType argument qualifier arguments isTypeOf
  | some name =>
    let path := ((qualifier.map Entity.segments).getD []).drop 1
    if isTypeOf then .query ⟨name :: path⟩ arguments else .reference ⟨name :: path⟩ arguments

mutual
/-- A type under final names. The names that a type binds are chosen when its scope is entered. -/
def type (s : Site) : TypeExpr → Named TypeExpr
  | .keyword name => pure (.keyword name)
  | .literal text => pure (.literal text)
  | .reference name arguments => return .reference (entity s .type name) (← types s arguments)
  | .query name arguments => return .query (entity s .value name) (← types s arguments)
  | .array element => return .array (← type s element)
  | .tuple es => return .tuple (← elements s es)
  | .union ts => return .union (← types s ts)
  | .intersection ts => return .intersection (← types s ts)
  | .function tps ps result => do
    let (names, inner) := s.enterTypes (tps.map (·.name))
    let tps ← typeParameters inner names tps
    let body := inner.enterParameters (ps.map (·.name))
    return .function tps (← parameters body ps) (← type body result)
  | .construct isAbstract tps ps result => do
    let (names, inner) := s.enterTypes (tps.map (·.name))
    let tps ← typeParameters inner names tps
    let body := inner.enterParameters (ps.map (·.name))
    return .construct isAbstract tps (← parameters body ps) (← type body result)
  | .object ms => return .object (← members s ms)
  | .operator op target => return .operator op (← type s target)
  | .indexed object index => return .indexed (← type s object) (← type s index)
  | .conditional check bound onTrue onFalse => do
    let check ← type s check
    let (_, inner) := s.enterTypes bound.inferredNames
    return .conditional check (← type inner bound) (← type inner onTrue) (← type s onFalse)
  | .infer ⟨id, name, constraint, fallback, keywords⟩ => do
    let final := s.finalName? name .type
    Named.note (if final.isSome then id else none) (final.getD name)
    return .infer ⟨id, final.getD name, ← option s constraint, ← option s fallback, keywords⟩
  | .mapped ⟨id, name, constraint, fallback, keywords⟩ nameType readonly optionality target => do
    let constraint ← option s constraint
    let fallback ← option s fallback
    let (names, inner) := s.enterTypes [name]
    let name := names.headD name
    Named.note id name
    return .mapped ⟨id, name, constraint, fallback, keywords⟩ (← option inner nameType) readonly
      optionality (← option inner target)
  | .importType argument qualifier arguments isTypeOf =>
    return importType s argument qualifier (← types s arguments) isTypeOf
  | .predicate asserts parameter target => return .predicate asserts parameter (← option s target)
  | .parenthesized inner => return .parenthesized (← type s inner)
  | .template head ss => return .template head (← spans s ss)
  | .verbatim ts => pure (.verbatim (tokens s ts))

/-- A type that may be missing. -/
def option (s : Site) : Option TypeExpr → Named (Option TypeExpr)
  | none => pure none
  | some t => return some (← type s t)

/-- A list of types, in order. -/
def types (s : Site) : List TypeExpr → Named (List TypeExpr)
  | [] => pure []
  | t :: ts => return (← type s t) :: (← types s ts)

/-- Type parameters under the given names, at the site inside them. -/
def typeParameters (s : Site) (names : List String) :
    List TypeParameter → Named (List TypeParameter)
  | [] => pure []
  | ⟨id, name, constraint, fallback, keywords⟩ :: ps => do
    let final := names.headD name
    Named.note id final
    let constraint ← option s constraint
    let fallback ← option s fallback
    return ⟨id, final, constraint, fallback, keywords⟩ :: (← typeParameters s names.tail ps)

/-- Parameters, whose own names stay. -/
def parameters (s : Site) : List Parameter → Named (List Parameter)
  | [] => pure []
  | ⟨name, modifiers, optionality, rest, ascription⟩ :: ps => do
    let ascription ← option s ascription
    return ⟨name, modifiers, optionality, rest, ascription⟩ :: (← parameters s ps)

/-- The elements of a tuple type. -/
def elements (s : Site) : List TupleElement → Named (List TupleElement)
  | [] => pure []
  | ⟨name, optionality, rest, element⟩ :: es => do
    let element ← type s element
    return ⟨name, optionality, rest, element⟩ :: (← elements s es)

/-- The types in a template literal type. -/
def spans (s : Site) : List TemplateSpan → Named (List TemplateSpan)
  | [] => pure []
  | ⟨t, literal⟩ :: ss => do
    let t ← type s t
    return ⟨t, literal⟩ :: (← spans s ss)

/-- A list of members, in order. -/
def members (s : Site) : List Member → Named (List Member)
  | [] => pure []
  | m :: ms => return (← member s m) :: (← members s ms)

/-- A member: its name and types, inside the scope of its signature if it has one. -/
def member (s : Site) : Member → Named Member
  | .property name modifiers optionality ascription =>
    return .property (propertyName s name) modifiers optionality (← option s ascription)
  | .method name modifiers optionality tps ps result => do
    let (names, inner) := s.enterTypes (tps.map (·.name))
    let tps ← typeParameters inner names tps
    let body := inner.enterParameters (ps.map (·.name))
    return .method (propertyName s name) modifiers optionality tps (← parameters body ps)
      (← option body result)
  | .call tps ps result => do
    let (names, inner) := s.enterTypes (tps.map (·.name))
    let tps ← typeParameters inner names tps
    let body := inner.enterParameters (ps.map (·.name))
    return .call tps (← parameters body ps) (← option body result)
  | .construct tps ps result => do
    let (names, inner) := s.enterTypes (tps.map (·.name))
    let tps ← typeParameters inner names tps
    let body := inner.enterParameters (ps.map (·.name))
    return .construct tps (← parameters body ps) (← option body result)
  | .index modifiers ps ascription =>
    return .index modifiers (← parameters s ps) (← type s ascription)
  | .initializer modifiers ps => return .initializer modifiers (← parameters s ps)
  | .getter name modifiers result =>
    return .getter (propertyName s name) modifiers (← option s result)
  | .setter name modifiers ps =>
    return .setter (propertyName s name) modifiers (← parameters s ps)
end

/-- A heritage name in the space of types, with its type arguments. -/
def heritage (s : Site) (h : Heritage) : Named Heritage :=
  return ⟨entity s .type h.expression, ← types s h.arguments⟩

/-- A list of heritage clauses, in order. -/
def heritages (s : Site) : List Heritage → Named (List Heritage)
  | [] => pure []
  | h :: hs => return (← heritage s h) :: (← heritages s hs)

/-- The types of declarators; their own names were chosen before. -/
def declarators (s : Site) : List Declarator → Named (List Declarator)
  | [] => pure []
  | d :: ds => do
    let ascription ← option s d.ascription
    return { d with ascription } :: (← declarators s ds)

/-! ## Namespace bodies -/

/-- The final names of the outside bindings that a namespace with this body refers to. -/
def capturedNames (s : Site) (body : List Statement) : List String :=
  let occurrences := Free.inBody (Free.bodyBinders body) body
  (Analysis.ofOccurrences occurrences).references.filterMap s.reference?

/-- Whether a statement declares a member that is renamed. -/
def isRenamed (renamed : Table String String) (s : Statement) : Bool :=
  (Free.memberNames s).any renamed.contains

/-- A declarator under the new name of its member. -/
def renameDeclarator (renamed : Table String String) (d : Declarator) : Named Declarator :=
  match renamed.get? d.name with
  | some name => do
    Named.note d.id name
    return { d with name }
  | none => pure d

/-- Declarators of a namespace body under the names of its members. -/
def renameDeclarators (renamed : Table String String) : List Declarator → Named (List Declarator)
  | [] => pure []
  | d :: ds => return (← renameDeclarator renamed d) :: (← renameDeclarators renamed ds)

/-- The new name of a member, if it has one. -/
def newName (renamed : Table String String) (name : String) : String :=
  (renamed.get? name).getD name

/-- A statement of a body under the new names of the members that it declares. A declaration with a
renamed member is no longer exported by its modifier. -/
def renameMember (renamed : Table String String) : Statement → Named Statement
  | .declaration d =>
    if !isRenamed renamed (.declaration d) then pure (.declaration d)
    else do
      let modifiers := d.modifiers.erase .exported
      match d.kind with
      | .variableList flavor ds =>
        let ds ← renameDeclarators renamed ds
        return .declaration { d with modifiers, kind := .variableList flavor ds }
      | kind =>
        let name := newName renamed (kind.name?.getD "")
        Named.note d.id name
        return .declaration { d with modifiers, kind := kind.setName name }
  | .imports i =>
    pure (.imports { i with
      default := i.default.map (newName renamed)
      namespaceName := i.namespaceName.map (newName renamed)
      named := i.named.map fun x => { x with binding := newName renamed x.binding } })
  | s => pure s

/-- The statements of a namespace body under the names of its members. -/
def renameStatements (renamed : Table String String) : List Statement → Named (List Statement)
  | [] => pure []
  | s :: ss => return (← renameMember renamed s) :: (← renameStatements renamed ss)

/-- The exports that renamed members take away from their declarations, once per exported name. -/
def lostExports (renamed : Table String String) (body : List Statement) : List ExportSpecifier :=
  let names := body.flatMap fun s =>
    match s with
    | .declaration d =>
      if d.modifiers.exported && isRenamed renamed s then Free.memberNames s else []
    | _ => []
  names.eraseDups.map fun name => ⟨newName renamed name, name⟩

/-- A body under final names with its members renamed and their exports put back by a list at the
end. -/
def finishBody (renamed : Table String String) (body : List Statement) :
    Named (List Statement) := do
  if renamed.rows.isEmpty then return body
  let renamedBody ← renameStatements renamed body
  let specifiers := lostExports renamed body
  return renamedBody ++ if specifiers.isEmpty then [] else [.exports ⟨specifiers, none, false⟩]

mutual
/-- What is declared, at a site. The base of a class lies outside its type parameters. -/
def kind (s : Site) : DeclarationKind → Named DeclarationKind
  | .interface name tps bases ms => do
    let (names, inner) := s.enterTypes (tps.map (·.name))
    return .interface name (← typeParameters inner names tps) (← heritages inner bases)
      (← members inner ms)
  | .classLike name tps base implemented ms => do
    let (names, inner) := s.enterTypes (tps.map (·.name))
    let tps ← typeParameters inner names tps
    let base ← match base with
      | none => pure none
      | some h => pure (some ⟨entity s .value h.expression, ← types inner h.arguments⟩)
    return .classLike name tps base (← heritages inner implemented) (← members inner ms)
  | .function name tps ps result => do
    let (names, inner) := s.enterTypes (tps.map (·.name))
    let tps ← typeParameters inner names tps
    let body := inner.enterParameters (ps.map (·.name))
    return .function name tps (← parameters body ps) (← option body result)
  | .variableList flavor ds => return .variableList flavor (← declarators s ds)
  | .enumeration name ms => pure (.enumeration name ms)
  | .typeAlias name tps target => do
    let (names, inner) := s.enterTypes (tps.map (·.name))
    return .typeAlias name (← typeParameters inner names tps) (← type inner target)
  | .namespaceBlock name moduleKeyword body => do
    let members := (Free.bodyBinders body).map Prod.fst
    let (renamed, inner) := s.enterBody (capturedNames s body) members
    return .namespaceBlock name moduleKeyword (← finishBody renamed (← statements inner body))

/-- A declaration under final names, with its identity and modifiers as they were. -/
def declaration (s : Site) : Declaration → Named Declaration
  | ⟨id, modifiers, pos, k⟩ => return ⟨id, modifiers, pos, ← kind s k⟩

/-- A list of statements, in order. -/
def statements (s : Site) : List Statement → Named (List Statement)
  | [] => pure []
  | x :: xs => return (← statement s x) :: (← statements s xs)

/-- A statement under final names. Imports, and exports from another module, stay. -/
def statement (s : Site) : Statement → Named Statement
  | .declaration d => return .declaration (← declaration s d)
  | .exports ⟨specifiers, none, typeOnly⟩ =>
    pure (.exports ⟨specifiers.map fun x => { x with binding := plainName s x.binding }, none,
      typeOnly⟩)
  | .exportDefault expression => pure (.exportDefault (plainName s expression))
  | .exportAssignment expression => pure (.exportAssignment (plainName s expression))
  | .verbatim ts pos => pure (.verbatim (tokens s ts) pos)
  | .imports i => pure (.imports i)
  | .exports e => pure (.exports e)
  | .exportAll source name => pure (.exportAll source name)
end

end Rename

end DeclBundle
