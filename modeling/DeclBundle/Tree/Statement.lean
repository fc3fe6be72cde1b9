import DeclBundle.Tree.Type

/-!
# Statements

The statements of a module or of a namespace body: declarations, imports and exports, and whatever
else stands there, kept verbatim. Declarations and declarators carry an identity, which is absent
until the tree enters a store.
-/

namespace DeclBundle

/-- `Base<T>` in an `extends` or `implements` list. -/
structure Heritage where
  expression : Entity
  arguments : List TypeExpr

/-- How a variable statement starts. -/
inductive Flavor where
  | varying
  | blockScoped
  | constant
deriving DecidableEq, Repr

/-- The word for a kind of variables. -/
def Flavor.keyword : Flavor → String
  | .varying => "var"
  | .blockScoped => "let"
  | .constant => "const"

/-- One variable of a variable statement. -/
structure Declarator where
  id : Option DeclId
  name : String
  ascription : Option TypeExpr
  initializer : Option String

/-- A member of an enumeration. -/
structure EnumMember where
  name : String
  initializer : Option String
deriving DecidableEq, Repr

/-- `remote as binding` in an import list. -/
structure ImportSpecifier where
  remote : String
  binding : String
deriving DecidableEq, Repr

/-- `binding as exported` in an export list. -/
structure ExportSpecifier where
  binding : String
  exported : String
deriving DecidableEq, Repr

/-- An import statement. -/
structure ImportStatement where
  source : String
  default : Option String
  namespaceName : Option String
  named : List ImportSpecifier
  typeOnly : Bool
deriving DecidableEq, Repr

/-- The bindings that an import introduces, each with its remote name, which is `default` for the
default import and `*` for the namespace. -/
def ImportStatement.bindings (i : ImportStatement) : List (String × String) :=
  i.default.toList.map (·, "default") ++ i.namespaceName.toList.map (·, "*")
    ++ i.named.map fun s => (s.binding, s.remote)

/-- An export list, of own bindings or `from` another module. -/
structure ExportList where
  specifiers : List ExportSpecifier
  source : Option String
  typeOnly : Bool
deriving DecidableEq, Repr

mutual
/-- A statement. -/
inductive Statement where
  | declaration (declaration : Declaration)
  | imports (statement : ImportStatement)
  | exports (list : ExportList)
  /-- `export * from "m"`, `export * as name from "m"` -/
  | exportAll (source : String) (name : Option String)
  | exportDefault (expression : String)
  /-- `export = expression` -/
  | exportAssignment (expression : String)
  | verbatim (tokens : List Token) (pos : Option Position)

/-- A declaration and what every kind of declaration has. -/
structure Declaration where
  id : Option DeclId
  modifiers : Modifiers
  pos : Option Position
  kind : DeclarationKind

/-- What a declaration declares. -/
inductive DeclarationKind where
  | interface (name : String) (typeParameters : List TypeParameter) (bases : List Heritage)
    (members : List Member)
  | classLike (name : Option String) (typeParameters : List TypeParameter)
    (base : Option Heritage) (implemented : List Heritage) (members : List Member)
  | function (name : Option String) (typeParameters : List TypeParameter)
    (parameters : List Parameter) (result : Option TypeExpr)
  | variableList (flavor : Flavor) (declarators : List Declarator)
  | enumeration (name : String) (members : List EnumMember)
  | typeAlias (name : String) (typeParameters : List TypeParameter) (target : TypeExpr)
  /-- `namespace name { … }`, or with the word `module`. -/
  | namespaceBlock (name : String) (moduleKeyword : Bool) (body : List Statement)
end

/-- Some statement, for lookups without a result. -/
instance : Inhabited Statement := ⟨.exportDefault ""⟩

/-- The kind of a declaration without its parts. -/
inductive DeclarationTag where
  | interface
  | classLike
  | function
  | variableList
  | enumeration
  | typeAlias
  | namespaceBlock
deriving DecidableEq, Repr

namespace DeclarationTag

/-- The word for a kind of declaration in the tree format. -/
def label : DeclarationTag → String
  | .interface => "interface"
  | .classLike => "class"
  | .function => "function"
  | .variableList => "variable"
  | .enumeration => "enum"
  | .typeAlias => "typeAlias"
  | .namespaceBlock => "namespace"

/-- Whether a top-level declaration of this kind needs `declare`. -/
def requiresDeclare : DeclarationTag → Bool
  | .interface | .typeAlias => false
  | _ => true

/-- Whether a declaration of this kind introduces a value. -/
def hasValue : DeclarationTag → Bool
  | .interface | .typeAlias => false
  | _ => true

/-- Whether a declaration of this kind introduces a type. -/
def hasType : DeclarationTag → Bool
  | .interface | .classLike | .enumeration | .typeAlias => true
  | _ => false

end DeclarationTag

namespace DeclarationKind

/-- The kind without what it holds. -/
def tag : DeclarationKind → DeclarationTag
  | .interface .. => .interface
  | .classLike .. => .classLike
  | .function .. => .function
  | .variableList .. => .variableList
  | .enumeration .. => .enumeration
  | .typeAlias .. => .typeAlias
  | .namespaceBlock .. => .namespaceBlock

/-- The declared name; variable statements have none, nor have anonymous classes and functions. -/
def name? : DeclarationKind → Option String
  | .interface name .. => some name
  | .classLike name .. => name
  | .function name .. => name
  | .variableList .. => none
  | .enumeration name _ => some name
  | .typeAlias name .. => some name
  | .namespaceBlock name .. => some name

/-- The kind with another name; a variable statement stays as it is. -/
def setName (name : String) : DeclarationKind → DeclarationKind
  | .interface _ tps bases members => .interface name tps bases members
  | .classLike _ tps base implemented members => .classLike (some name) tps base implemented members
  | .function _ tps ps result => .function (some name) tps ps result
  | .variableList flavor declarators => .variableList flavor declarators
  | .enumeration _ members => .enumeration name members
  | .typeAlias _ tps target => .typeAlias name tps target
  | .namespaceBlock _ moduleKeyword body => .namespaceBlock name moduleKeyword body

/-- The variables of a variable statement. -/
def declarators : DeclarationKind → List Declarator
  | .variableList _ declarators => declarators
  | _ => []

end DeclarationKind

namespace Declaration

/-- A declaration without identity, modifiers and position. -/
def ofKind (kind : DeclarationKind) : Declaration := ⟨none, .none, none, kind⟩

/-- The kind of a declaration. -/
def tag (d : Declaration) : DeclarationTag := d.kind.tag

/-- The name of a declaration, if it has one. -/
def name? (d : Declaration) : Option String := d.kind.name?

/-- A declaration under another name. -/
def setName (d : Declaration) (name : String) : Declaration :=
  { d with kind := d.kind.setName name }

/-- The declarators of a list of variables; none for any other declaration. -/
def declarators (d : Declaration) : List Declarator := d.kind.declarators

/-- The identities that a top-level declaration binds: those of its declarators for a variable
statement, else its own. -/
def boundIds (d : Declaration) : List (Option DeclId) :=
  match d.kind with
  | .variableList _ declarators => declarators.map (·.id)
  | _ => [d.id]

end Declaration

/-- The declaration that a statement is. -/
def Statement.declaration? : Statement → Option Declaration
  | .declaration d => some d
  | _ => none

/-- The identities bound by the declarations among statements, in order. -/
def declIds (statements : List Statement) : List DeclId :=
  statements.flatMap fun
    | .declaration d => d.boundIds.filterMap id
    | _ => []

end DeclBundle
