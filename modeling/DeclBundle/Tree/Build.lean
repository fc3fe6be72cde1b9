import DeclBundle.Tree.Statement

/-!
# Terse constructors

Short ways to write the common statements in code.
-/

namespace DeclBundle.Build

/-- A heritage name without type arguments. -/
def heritage (name : String) : Heritage := ⟨.ofText name, []⟩

/-- A declaration of the given kind, without modifiers. -/
def declaration (kind : DeclarationKind) : Statement := .declaration (.ofKind kind)

/-- An interface without bases. -/
def interface (name : String) (members : List Member) : Statement :=
  declaration (.interface name [] [] members)

/-- An interface with bases. -/
def interfaceExtending (name : String) (bases : List String) (members : List Member) : Statement :=
  declaration (.interface name [] (bases.map heritage) members)

/-- A class, with or without a name and a base. -/
def classLike (name base : Option String) (members : List Member) : Statement :=
  declaration (.classLike name [] (base.map heritage) [] members)

/-- A function with a result. -/
def function (name : Option String) (parameters : List Parameter) (result : TypeExpr) : Statement :=
  declaration (.function name [] parameters (some result))

/-- A type alias. -/
def typeAlias (name : String) (typeParameters : List TypeParameter) (target : TypeExpr) :
    Statement :=
  declaration (.typeAlias name typeParameters target)

/-- Constants with their types. -/
def variableList (declarators : List (String × TypeExpr)) : Statement :=
  declaration (.variableList .constant
    (declarators.map fun (name, type) => ⟨none, name, some type, none⟩))

/-- An enumeration without values. -/
def enumeration (name : String) (members : List String) : Statement :=
  declaration (.enumeration name (members.map (⟨·, none⟩)))

/-- A namespace block. -/
def namespaceBlock (name : String) (body : List Statement) : Statement :=
  declaration (.namespaceBlock name false body)

/-- Adds modifiers to a declaration; other statements stay as they are. -/
def withModifiers (modifiers : Modifiers) : Statement → Statement
  | .declaration d => .declaration { d with modifiers := d.modifiers.union modifiers }
  | s => s

/-- The statement, exported. -/
def exported (s : Statement) : Statement := withModifiers { exported := true } s

/-- The statement as the default export. -/
def exportedDefault (s : Statement) : Statement :=
  withModifiers { exported := true, default := true } s

/-- A type parameter, with or without a constraint. -/
def typeParameter (name : String) (constraint : Option TypeExpr) : TypeParameter :=
  ⟨none, name, constraint, none, []⟩

/-- A parameter with a type. -/
def parameter (name : String) (type : TypeExpr) : Parameter :=
  ⟨name, .none, false, false, some type⟩

/-- A property with a type. -/
def property (name : String) (type : TypeExpr) : Member :=
  .property (.identifier name) .none false (some type)

/-- `import { a as b } from "m"`, by remote name and binding. -/
def importNamed (source : String) (names : List (String × String)) : Statement :=
  .imports ⟨source, none, none, names.map fun (remote, binding) => ⟨remote, binding⟩, false⟩

/-- An import of the default export. -/
def importDefault (source binding : String) : Statement :=
  .imports ⟨source, some binding, none, [], false⟩

/-- An import of all of a module under one name. -/
def importNamespace (source binding : String) : Statement :=
  .imports ⟨source, none, some binding, [], false⟩

/-- `export { a as b }`, by binding and exported name. -/
def exportNamed (source : Option String) (names : List (String × String)) : Statement :=
  .exports ⟨names.map fun (binding, exported) => ⟨binding, exported⟩, source, false⟩

/-- A star export, with or without a name. -/
def exportAll (source : String) (name : Option String) : Statement := .exportAll source name

/-- An export of an expression as the default. -/
def exportDefault (expression : String) : Statement := .exportDefault expression

/-- An export of an expression as the whole module. -/
def exportAssignment (expression : String) : Statement := .exportAssignment expression

end DeclBundle.Build
