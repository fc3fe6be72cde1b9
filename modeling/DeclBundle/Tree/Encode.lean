import DeclBundle.Json.Basic
import DeclBundle.Tree.Statement

/-!
# Trees as JSON

Every node is an object. An absent part is left out; so are type parameters, type arguments,
heritage lists, import lists and keyword lists without items. All else is written, defaults
included. Identities are not written.
-/

namespace DeclBundle.Encode

/-- A field that is left out when its value is absent. -/
def optional (key : String) (f : α → Json) : Option α → List (String × Json)
  | none => []
  | some a => [(key, f a)]

/-- A field that is left out when its list is empty. -/
def nonempty (key : String) (items : List Json) : List (String × Json) :=
  if items.isEmpty then [] else [(key, .arr items)]

/-- Modifiers, as the list of their keywords. -/
def modifiers (m : Modifiers) : Json := .strings m.keywords

/-- A dotted name, as its text. -/
def entity (e : Entity) : Json := .str e.text

/-- A position. -/
def position (p : Position) : Json := .obj [("line", .nat p.line), ("column", .nat p.column)]

/-- A token of verbatim text. -/
def token : Token → Json
  | .text text => .obj [("kind", .str "text"), ("text", .str text)]
  | .identifier name => .obj [("kind", .str "identifier"), ("name", .str name)]

/-- The name of a member. -/
def propertyName : PropertyName → Json
  | .identifier name => .obj [("kind", .str "identifier"), ("name", .str name)]
  | .stringLiteral value => .obj [("kind", .str "stringLiteral"), ("value", .str value)]
  | .numericLiteral value => .obj [("kind", .str "numericLiteral"), ("value", .str value)]
  | .computed expression => .obj [("kind", .str "computed"), ("expression", entity expression)]

/-- The word for the sign of a mapped modifier. -/
def mappedSign : MappedSign → Json
  | .present => .str "present"
  | .plus => .str "plus"
  | .minus => .str "minus"

mutual
/-- A type. -/
def type : TypeExpr → Json
  | .keyword name => .obj [("kind", .str "keyword"), ("name", .str name)]
  | .reference name arguments =>
    .obj ([("kind", .str "reference"), ("name", entity name)]
      ++ nonempty "typeArguments" (types arguments))
  | .literal text => .obj [("kind", .str "literal"), ("text", .str text)]
  | .array element => .obj [("kind", .str "array"), ("element", type element)]
  | .tuple elements => .obj [("kind", .str "tuple"), ("elements", .arr (tupleElements elements))]
  | .union ts => .obj [("kind", .str "union"), ("types", .arr (types ts))]
  | .intersection ts => .obj [("kind", .str "intersection"), ("types", .arr (types ts))]
  | .function tps ps result =>
    .obj ([("kind", .str "function")] ++ nonempty "typeParameters" (typeParameters tps)
      ++ [("parameters", .arr (parameters ps)), ("returnType", type result)])
  | .construct isAbstract tps ps result =>
    .obj ([("kind", .str "constructor"), ("isAbstract", .bool isAbstract)]
      ++ nonempty "typeParameters" (typeParameters tps)
      ++ [("parameters", .arr (parameters ps)), ("returnType", type result)])
  | .object ms => .obj [("kind", .str "typeLiteral"), ("members", .arr (members ms))]
  | .query name arguments =>
    .obj ([("kind", .str "typeQuery"), ("name", entity name)]
      ++ nonempty "typeArguments" (types arguments))
  | .operator op target =>
    .obj [("kind", .str "typeOperator"), ("operator", .str op.keyword), ("target", type target)]
  | .indexed object index =>
    .obj [("kind", .str "indexedAccess"), ("object", type object), ("index", type index)]
  | .conditional check bound onTrue onFalse =>
    .obj [("kind", .str "conditional"), ("check", type check), ("extends", type bound),
      ("trueType", type onTrue), ("falseType", type onFalse)]
  | .infer p => .obj [("kind", .str "infer"), ("typeParameter", typeParameter p)]
  | .mapped key nameType readonly optionality target =>
    .obj ([("kind", .str "mapped"), ("typeParameter", typeParameter key)]
      ++ typeField "nameType" nameType ++ optional "readonly" mappedSign readonly
      ++ optional "optional" mappedSign optionality ++ typeField "target" target)
  | .importType argument qualifier arguments isTypeOf =>
    .obj ([("kind", .str "import"), ("argument", .str argument)]
      ++ optional "qualifier" entity qualifier ++ nonempty "typeArguments" (types arguments)
      ++ [("isTypeOf", .bool isTypeOf)])
  | .predicate asserts parameter target =>
    .obj ([("kind", .str "predicate"), ("asserts", .bool asserts), ("parameter", .str parameter)]
      ++ typeField "target" target)
  | .parenthesized inner => .obj [("kind", .str "parenthesized"), ("inner", type inner)]
  | .template head spans =>
    .obj [("kind", .str "templateLiteral"), ("head", .str head),
      ("spans", .arr (templateSpans spans))]
  | .verbatim tokens => .obj [("kind", .str "opaque"), ("tokens", .arr (tokens.map token))]

/-- A field with a type, left out when there is none. -/
def typeField (key : String) : Option TypeExpr → List (String × Json)
  | none => []
  | some t => [(key, type t)]

/-- A list of types. -/
def types : List TypeExpr → List Json
  | [] => []
  | t :: ts => type t :: types ts

/-- A type parameter. -/
def typeParameter : TypeParameter → Json
  | ⟨_, name, constraint, fallback, keywords⟩ =>
    .obj ([("name", .str name)] ++ typeField "constraint" constraint
      ++ typeField "default" fallback ++ nonempty "keywords" (keywords.map .str))

/-- A list of type parameters. -/
def typeParameters : List TypeParameter → List Json
  | [] => []
  | p :: ps => typeParameter p :: typeParameters ps

/-- A parameter. -/
def parameter : Parameter → Json
  | ⟨name, mods, optionality, rest, ascription⟩ =>
    .obj ([("name", .str name), ("modifiers", modifiers mods), ("optional", .bool optionality),
      ("rest", .bool rest)] ++ typeField "typeAnnotation" ascription)

/-- A list of parameters. -/
def parameters : List Parameter → List Json
  | [] => []
  | p :: ps => parameter p :: parameters ps

/-- An element of a tuple type. -/
def tupleElement : TupleElement → Json
  | ⟨name, optionality, rest, element⟩ =>
    .obj (optional "name" .str name ++ [("optional", .bool optionality), ("rest", .bool rest),
      ("element", type element)])

/-- The elements of a tuple type. -/
def tupleElements : List TupleElement → List Json
  | [] => []
  | e :: es => tupleElement e :: tupleElements es

/-- A type in a template literal type, with the text after it. -/
def templateSpan : TemplateSpan → Json
  | ⟨t, literal⟩ => .obj [("ty", type t), ("literal", .str literal)]

/-- The types in a template literal type. -/
def templateSpans : List TemplateSpan → List Json
  | [] => []
  | s :: ss => templateSpan s :: templateSpans ss

/-- A member of an interface, a class or an object type. -/
def member : Member → Json
  | .property name mods optionality ascription =>
    .obj ([("kind", .str "property"), ("name", propertyName name), ("modifiers", modifiers mods),
      ("optional", .bool optionality)] ++ typeField "typeAnnotation" ascription)
  | .method name mods optionality tps ps result =>
    .obj ([("kind", .str "method"), ("name", propertyName name), ("modifiers", modifiers mods),
      ("optional", .bool optionality)] ++ nonempty "typeParameters" (typeParameters tps)
      ++ [("parameters", .arr (parameters ps))] ++ typeField "returnType" result)
  | .call tps ps result =>
    .obj ([("kind", .str "callSignature")] ++ nonempty "typeParameters" (typeParameters tps)
      ++ [("parameters", .arr (parameters ps))] ++ typeField "returnType" result)
  | .construct tps ps result =>
    .obj ([("kind", .str "constructSignature")] ++ nonempty "typeParameters" (typeParameters tps)
      ++ [("parameters", .arr (parameters ps))] ++ typeField "returnType" result)
  | .index mods ps ascription =>
    .obj [("kind", .str "indexSignature"), ("modifiers", modifiers mods),
      ("parameters", .arr (parameters ps)), ("typeAnnotation", type ascription)]
  | .initializer mods ps =>
    .obj [("kind", .str "constructor"), ("modifiers", modifiers mods),
      ("parameters", .arr (parameters ps))]
  | .getter name mods result =>
    .obj ([("kind", .str "getAccessor"), ("name", propertyName name), ("modifiers", modifiers mods)]
      ++ typeField "returnType" result)
  | .setter name mods ps =>
    .obj [("kind", .str "setAccessor"), ("name", propertyName name), ("modifiers", modifiers mods),
      ("parameters", .arr (parameters ps))]

/-- A list of members. -/
def members : List Member → List Json
  | [] => []
  | m :: ms => member m :: members ms
end

/-- A name in an `extends` or `implements` list. -/
def heritage (h : Heritage) : Json :=
  .obj ([("expression", entity h.expression)] ++ nonempty "typeArguments" (types h.arguments))

/-- The keyword of a list of variables. -/
def flavor (f : Flavor) : Json := .str f.keyword

/-- A declarator. -/
def declarator (d : Declarator) : Json :=
  .obj ([("name", .str d.name)] ++ typeField "typeAnnotation" d.ascription
    ++ optional "initializer" .str d.initializer)

/-- A member of an enumeration. -/
def enumMember (m : EnumMember) : Json :=
  .obj ([("name", .str m.name)] ++ optional "initializer" .str m.initializer)

/-- One name of an import. -/
def importSpecifier (s : ImportSpecifier) : Json :=
  .obj [("imported", .str s.remote), ("local", .str s.binding)]

/-- One name of an export list. -/
def exportSpecifier (s : ExportSpecifier) : Json :=
  .obj [("local", .str s.binding), ("exported", .str s.exported)]

mutual
/-- A statement. -/
def statement : Statement → Json
  | .declaration d => .obj (("kind", .str "declaration") :: declaration d)
  | .imports i =>
    .obj ([("kind", .str "import"), ("source", .str i.source)] ++ optional "default" .str i.default
      ++ optional "namespace" .str i.namespaceName
      ++ nonempty "named" (i.named.map importSpecifier) ++ [("typeOnly", .bool i.typeOnly)])
  | .exports e =>
    .obj ([("kind", .str "export"), ("specifiers", .arr (e.specifiers.map exportSpecifier))]
      ++ optional "source" .str e.source ++ [("typeOnly", .bool e.typeOnly)])
  | .exportAll source name =>
    .obj ([("kind", .str "exportAll"), ("source", .str source)] ++ optional "alias" .str name)
  | .exportDefault expression =>
    .obj [("kind", .str "exportDefault"), ("expression", .str expression)]
  | .exportAssignment expression =>
    .obj [("kind", .str "exportAssignment"), ("expression", .str expression)]
  | .verbatim tokens pos =>
    .obj ([("kind", .str "opaque"), ("tokens", .arr (tokens.map token))]
      ++ optional "pos" position pos)

/-- A list of statements. -/
def statements : List Statement → List Json
  | [] => []
  | s :: ss => statement s :: statements ss

/-- The fields of a declaration. -/
def declaration : Declaration → List (String × Json)
  | ⟨_, mods, pos, kind⟩ =>
    ("modifiers", modifiers mods) :: optional "pos" position pos ++ declarationKind kind

/-- The fields that depend on what is declared. -/
def declarationKind : DeclarationKind → List (String × Json)
  | .interface name tps bases ms =>
    [("declaration", .str "interface"), ("name", .str name)]
      ++ nonempty "typeParameters" (typeParameters tps) ++ nonempty "extends" (bases.map heritage)
      ++ [("members", .arr (members ms))]
  | .classLike name tps base implemented ms =>
    [("declaration", .str "class")] ++ optional "name" .str name
      ++ nonempty "typeParameters" (typeParameters tps) ++ optional "extends" heritage base
      ++ nonempty "implements" (implemented.map heritage) ++ [("members", .arr (members ms))]
  | .function name tps ps result =>
    [("declaration", .str "function")] ++ optional "name" .str name
      ++ nonempty "typeParameters" (typeParameters tps) ++ [("parameters", .arr (parameters ps))]
      ++ typeField "returnType" result
  | .variableList f ds =>
    [("declaration", .str "variable"), ("flavor", flavor f),
      ("declarations", .arr (ds.map declarator))]
  | .enumeration name ms =>
    [("declaration", .str "enum"), ("name", .str name), ("members", .arr (ms.map enumMember))]
  | .typeAlias name tps target =>
    [("declaration", .str "typeAlias"), ("name", .str name)]
      ++ nonempty "typeParameters" (typeParameters tps) ++ [("type", type target)]
  | .namespaceBlock name moduleKeyword body =>
    [("declaration", .str "namespace"), ("name", .str name), ("moduleKeyword", .bool moduleKeyword),
      ("body", .arr (statements body))]
end

end DeclBundle.Encode
