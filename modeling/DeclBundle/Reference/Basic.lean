import DeclBundle.Reference.Infer
import DeclBundle.Tree.Statement

/-!
# References of a declaration

The references of a declaration are the names it uses and does not bind itself, and the modules that
its import types name. Names live in a space, of types or of values or of both, and a binder hides a
use only where their spaces meet.

Binders are type parameters, `infer` names over the bound and the true branch of a conditional type,
mapped keys over the name type and the target, parameters of functions, methods, function types and
call and construct signatures, and in a namespace body the names that it declares or imports. The
base of a class is an expression and lies outside its type parameters.
-/

namespace DeclBundle

/-- The declaration space of a name. -/
inductive Space where
  | type
  | value
  | both
deriving DecidableEq, Repr

/-- Whether a binder in space `b` hides a use in space `u`. -/
def Space.covers (b u : Space) : Bool := b = .both || u = .both || b = u

/-- A reference to something outside the declaration. -/
inductive Reference where
  /-- The first segment of a name. -/
  | name (name : String)
  /-- `import("specifier").qualifier`, by the first segment of the qualifier. -/
  | importType (specifier : String) (qualifier : Option String)
deriving DecidableEq, Repr

/-- What a walk through a declaration comes upon. -/
inductive Occurrence where
  | reference (r : Reference)
  /-- A type that is kept as text. -/
  | unsupported
deriving DecidableEq, Repr

/-- A name that is bound, with the spaces that it is bound in. -/
abbrev Binder := String × Space

namespace Free

/-- Whether a use of a name in a space is bound. -/
def isBound (bound : List Binder) (name : String) (space : Space) : Bool :=
  bound.any fun b => b.1 == name && b.2.covers space

/-- A use of a name: an occurrence unless it is bound or empty. -/
def useName (bound : List Binder) (space : Space) (name : String) : List Occurrence :=
  if name = "" || isBound bound name space then [] else [.reference (.name name)]

/-- A use of a dotted name counts for its first segment. -/
def useRoot (bound : List Binder) (space : Space) (e : Entity) : List Occurrence :=
  useName bound space e.root

/-- Every identifier of verbatim text may be a use, in either space. -/
def useTokens (bound : List Binder) (tokens : List Token) : List Occurrence :=
  (Token.names tokens).flatMap (useName bound .both)

/-- A computed name is a use, except of the well-known symbols. -/
def usePropertyName (bound : List Binder) : PropertyName → List Occurrence
  | .computed e => if e.root = "Symbol" then [] else useRoot bound .value e
  | _ => []

/-- What type parameters bind. -/
def typeBinders (tps : List TypeParameter) : List Binder := tps.map (·.name, .type)

/-- What parameters bind. -/
def valueBinders (ps : List Parameter) : List Binder := ps.map (·.name, .value)

mutual
/-- The occurrences in a type under binders. -/
def inType (bound : List Binder) : TypeExpr → List Occurrence
  | .keyword _ | .literal _ => []
  | .reference name arguments => useRoot bound .type name ++ inTypes bound arguments
  | .query name arguments => useRoot bound .value name ++ inTypes bound arguments
  | .array element => inType bound element
  | .tuple elements => inElements bound elements
  | .union types | .intersection types => inTypes bound types
  | .function tps ps result | .construct _ tps ps result =>
    inTypeParameters (typeBinders tps ++ bound) tps
      ++ inParameters (valueBinders ps ++ typeBinders tps ++ bound) ps
      ++ inType (valueBinders ps ++ typeBinders tps ++ bound) result
  | .object members => inMembers bound members
  | .operator _ target => inType bound target
  | .indexed object index => inType bound object ++ inType bound index
  | .conditional check limit onTrue onFalse =>
    let inner := limit.inferredNames.map (·, Space.type) ++ bound
    inType bound check ++ inType inner limit ++ inType inner onTrue ++ inType bound onFalse
  | .infer p => inTypeParameter bound p
  | .mapped key nameType _ _ target =>
    let inner := (key.name, Space.type) :: bound
    inTypeParameter bound key ++ inOption inner nameType ++ inOption inner target
  | .importType argument qualifier arguments _ =>
    .reference (.importType argument (qualifier.map Entity.root)) :: inTypes bound arguments
  | .predicate _ _ target => inOption bound target
  | .parenthesized inner => inType bound inner
  | .template _ spans => inSpans bound spans
  | .verbatim tokens => .unsupported :: useTokens bound tokens

/-- The uses in a type that may be missing. -/
def inOption (bound : List Binder) : Option TypeExpr → List Occurrence
  | none => []
  | some t => inType bound t

/-- The uses in a list of types. -/
def inTypes (bound : List Binder) : List TypeExpr → List Occurrence
  | [] => []
  | t :: ts => inType bound t ++ inTypes bound ts

/-- The constraint and the default of a type parameter. -/
def inTypeParameter (bound : List Binder) : TypeParameter → List Occurrence
  | ⟨_, _, constraint, fallback, _⟩ => inOption bound constraint ++ inOption bound fallback

/-- The uses in type parameters. -/
def inTypeParameters (bound : List Binder) : List TypeParameter → List Occurrence
  | [] => []
  | p :: ps => inTypeParameter bound p ++ inTypeParameters bound ps

/-- The uses in parameters, whose own names are bound by then. -/
def inParameters (bound : List Binder) : List Parameter → List Occurrence
  | [] => []
  | ⟨_, _, _, _, ascription⟩ :: ps => inOption bound ascription ++ inParameters bound ps

/-- The uses in the elements of a tuple type. -/
def inElements (bound : List Binder) : List TupleElement → List Occurrence
  | [] => []
  | ⟨_, _, _, element⟩ :: es => inType bound element ++ inElements bound es

/-- The uses in a template literal type. -/
def inSpans (bound : List Binder) : List TemplateSpan → List Occurrence
  | [] => []
  | ⟨type, _⟩ :: ss => inType bound type ++ inSpans bound ss

/-- The uses in a list of members. -/
def inMembers (bound : List Binder) : List Member → List Occurrence
  | [] => []
  | m :: ms => inMember bound m ++ inMembers bound ms

/-- Parameters of index signatures, class constructors and setters bind nothing. -/
def inMember (bound : List Binder) : Member → List Occurrence
  | .property name _ _ ascription => usePropertyName bound name ++ inOption bound ascription
  | .method name _ _ tps ps result =>
    usePropertyName bound name
      ++ inTypeParameters (typeBinders tps ++ bound) tps
      ++ inParameters (valueBinders ps ++ typeBinders tps ++ bound) ps
      ++ inOption (valueBinders ps ++ typeBinders tps ++ bound) result
  | .call tps ps result | .construct tps ps result =>
    inTypeParameters (typeBinders tps ++ bound) tps
      ++ inParameters (valueBinders ps ++ typeBinders tps ++ bound) ps
      ++ inOption (valueBinders ps ++ typeBinders tps ++ bound) result
  | .index _ ps ascription => inParameters bound ps ++ inType bound ascription
  | .initializer _ ps => inParameters bound ps
  | .getter name _ result => usePropertyName bound name ++ inOption bound result
  | .setter name _ ps => usePropertyName bound name ++ inParameters bound ps
end

/-- A heritage name in the space of types, with its type arguments. -/
def inHeritage (bound : List Binder) (h : Heritage) : List Occurrence :=
  useRoot bound .type h.expression ++ inTypes bound h.arguments

/-- The names that a statement of a namespace body declares. -/
def memberNames : Statement → List String
  | .declaration d =>
    match d.kind with
    | .variableList _ declarators => declarators.map (·.name)
    | kind => kind.name?.toList
  | _ => []

/-- The names that a namespace body declares or imports; they hide uses in both spaces. -/
def bodyBinders (body : List Statement) : List Binder :=
  body.flatMap fun
    | .imports i => i.bindings.map (·.1, .both)
    | s => (memberNames s).map (·, .both)

mutual
/-- The uses in a declaration of any kind. The base of a class stands outside its type
parameters. -/
def inKind (bound : List Binder) : DeclarationKind → List Occurrence
  | .interface _ tps bases members =>
    let inner := typeBinders tps ++ bound
    inTypeParameters inner tps ++ bases.flatMap (inHeritage inner) ++ inMembers inner members
  | .classLike _ tps base implemented members =>
    let inner := typeBinders tps ++ bound
    base.toList.flatMap (fun h => useRoot bound .value h.expression)
      ++ inTypeParameters inner tps ++ base.toList.flatMap (fun h => inTypes inner h.arguments)
      ++ implemented.flatMap (inHeritage inner) ++ inMembers inner members
  | .function _ tps ps result =>
    inTypeParameters (typeBinders tps ++ bound) tps
      ++ inParameters (valueBinders ps ++ typeBinders tps ++ bound) ps
      ++ inOption (valueBinders ps ++ typeBinders tps ++ bound) result
  | .variableList _ declarators => declarators.flatMap fun d => inOption bound d.ascription
  | .enumeration .. => []
  | .typeAlias _ tps target =>
    let inner := typeBinders tps ++ bound
    inTypeParameters inner tps ++ inType inner target
  | .namespaceBlock _ _ body => inBody (bodyBinders body ++ bound) body

/-- The uses in a declaration. -/
def inDeclaration (bound : List Binder) : Declaration → List Occurrence
  | ⟨_, _, _, kind⟩ => inKind bound kind

/-- The uses in a namespace body. -/
def inBody (bound : List Binder) : List Statement → List Occurrence
  | [] => []
  | s :: ss => inStatement bound s ++ inBody bound ss

/-- The occurrences in a statement of a namespace body. -/
def inStatement (bound : List Binder) : Statement → List Occurrence
  | .declaration d => inDeclaration bound d
  | .exports ⟨specifiers, none, _⟩ => specifiers.flatMap fun s => useName bound .both s.binding
  | .exportDefault expression | .exportAssignment expression => useName bound .both expression
  | .verbatim tokens _ => useTokens bound tokens
  | .imports _ | .exports _ | .exportAll .. => []
end

end Free

/-- The references of a declaration, each once in the order of first occurrence, and the number of
types that are kept as text. -/
structure Analysis where
  references : List Reference := []
  unsupported : Nat := 0
deriving DecidableEq, Repr

namespace Analysis

/-- What is found at a list of uses: the references, each once, and a count of the verbatim
parts. -/
def ofOccurrences (os : List Occurrence) : Analysis where
  references := (os.filterMap fun
    | .reference r => some r
    | .unsupported => none).eraseDups
  unsupported := os.count .unsupported

/-- What a declaration refers to. -/
def declaration (d : Declaration) : Analysis := .ofOccurrences (Free.inDeclaration [] d)

/-- What the type of a declarator refers to. -/
def declarator (d : Declarator) : Analysis := .ofOccurrences (Free.inOption [] d.ascription)

/-- The references of a statement that is kept as text. -/
def verbatim (tokens : List Token) : Analysis := .ofOccurrences (Free.useTokens [] tokens)

/-- The plain names among the references. -/
def names (a : Analysis) : List String :=
  a.references.filterMap fun
    | .name name => some name
    | .importType .. => none

end Analysis

end DeclBundle
