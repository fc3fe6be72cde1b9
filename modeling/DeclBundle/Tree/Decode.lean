import DeclBundle.Decode.Record
import DeclBundle.Tree.Statement

/-!
# Trees out of JSON

A node is a record; where a node has several shapes, a tag says which. The fields of each record and
the shapes of each node stand in the order in which they count. The readers recurse on a bound for
the depth of the value, which `Json.depth` supplies, and keep track of whether the value is nested
within a node that has a tag, since such a value has more ways to give its own.
-/

namespace DeclBundle.Decode

/-- Modifiers, from the list of their keywords. -/
def modifiers (v : Json) : Decoded Modifiers := do
  match Modifiers.ofKeywords (← list string v) with
  | .ok s => return s
  | .error word => throw (.unknownModifier word)

/-- A dotted name, from its text. -/
def entity (v : Json) : Decoded Entity :=
  return .ofText (← string v)

/-- A position. -/
def position : Json → Decoded Position :=
  record (Position.mk <$> required "line" nat32 <*> required "column" nat32)

/-- A token of verbatim text. -/
def token : Json → Decoded Token :=
  node true "kind" [
    ⟨"text", .text <$> required "text" string⟩,
    ⟨"identifier", .identifier <$> required "name" string⟩]

/-- The name of a member. -/
def propertyName : Json → Decoded PropertyName :=
  node true "kind" [
    ⟨"identifier", .identifier <$> required "name" string⟩,
    ⟨"stringLiteral", .stringLiteral <$> required "value" string⟩,
    ⟨"numericLiteral", .numericLiteral <$> required "value" string⟩,
    ⟨"computed", .computed <$> required "expression" entity⟩]

/-- The words for the type operators. -/
def operators : List (String × TypeOperator) :=
  [("keyof", .keyof), ("unique", .unique), ("readonly", .readonly)]

/-- The signs of mapped types by their words. -/
def mappedSigns : List (String × MappedSign) :=
  [("present", .present), ("plus", .plus), ("minus", .minus)]

mutual
/-- A type of at most this depth. -/
def typeWithin : Nat → Bool → Json → Decoded TypeExpr
  | 0, _, _ => .error .shape
  | n + 1, nested, v =>
    let type := typeWithin n true
    let typeParameters := defaulted "typeParameters" [] (list (typeParameterWithin n true))
    let parameters := defaulted "parameters" [] (list (parameterWithin n))
    let typeArguments := defaulted "typeArguments" [] (list type)
    node nested "kind" [
      ⟨"keyword", .keyword <$> required "name" string⟩,
      ⟨"reference", .reference <$> required "name" entity <*> typeArguments⟩,
      ⟨"literal", .literal <$> required "text" string⟩,
      ⟨"array", .array <$> required "element" type⟩,
      ⟨"tuple", .tuple <$> required "elements" (list (tupleElementWithin n))⟩,
      ⟨"union", .union <$> required "types" (list type)⟩,
      ⟨"intersection", .intersection <$> required "types" (list type)⟩,
      ⟨"function", .function <$> typeParameters <*> parameters <*> required "returnType" type⟩,
      ⟨"constructor", .construct <$> defaulted "isAbstract" false bool <*> typeParameters
        <*> parameters <*> required "returnType" type⟩,
      ⟨"typeLiteral", .object <$> required "members" (list (memberWithin n true))⟩,
      ⟨"typeQuery", .query <$> required "name" entity <*> typeArguments⟩,
      ⟨"typeOperator", .operator <$> required "operator" (word true operators)
        <*> required "target" type⟩,
      ⟨"indexedAccess", .indexed <$> required "object" type <*> required "index" type⟩,
      ⟨"conditional", .conditional <$> required "check" type <*> required "extends" type
        <*> required "trueType" type <*> required "falseType" type⟩,
      ⟨"infer", .infer <$> required "typeParameter" (typeParameterWithin n true)⟩,
      ⟨"mapped", .mapped <$> required "typeParameter" (typeParameterWithin n true)
        <*> optional "nameType" type <*> optional "readonly" (word true mappedSigns)
        <*> optional "optional" (word true mappedSigns) <*> optional "target" type⟩,
      ⟨"import", .importType <$> required "argument" string <*> optional "qualifier" entity
        <*> typeArguments <*> defaulted "isTypeOf" false bool⟩,
      ⟨"predicate", .predicate <$> defaulted "asserts" false bool <*> required "parameter" string
        <*> optional "target" type⟩,
      ⟨"parenthesized", .parenthesized <$> required "inner" type⟩,
      ⟨"templateLiteral", .template <$> required "head" string
        <*> required "spans" (list (spanWithin n))⟩,
      ⟨"opaque", .verbatim <$> required "tokens" (list token)⟩] v

/-- A type parameter of depth at most `n`. -/
def typeParameterWithin : Nat → Bool → Json → Decoded TypeParameter
  | 0, _, _ => .error .shape
  | n + 1, nested, v =>
    record (TypeParameter.mk none <$> required "name" string
      <*> optional "constraint" (typeWithin n nested) <*> optional "default" (typeWithin n nested)
      <*> defaulted "keywords" [] (list string)) v

/-- A parameter whose type has at most this depth. -/
def parameterWithin : Nat → Json → Decoded Parameter
  | 0, _ => .error .shape
  | n + 1, v =>
    record (Parameter.mk <$> required "name" string <*> defaulted "modifiers" .none modifiers
      <*> defaulted "optional" false bool <*> defaulted "rest" false bool
      <*> optional "typeAnnotation" (typeWithin n true)) v

/-- A tuple element of depth at most `n`. -/
def tupleElementWithin : Nat → Json → Decoded TupleElement
  | 0, _ => .error .shape
  | n + 1, v =>
    record (TupleElement.mk <$> optional "name" string <*> defaulted "optional" false bool
      <*> defaulted "rest" false bool <*> required "element" (typeWithin n true)) v

/-- A span of a template of depth at most `n`. -/
def spanWithin : Nat → Json → Decoded TemplateSpan
  | 0, _ => .error .shape
  | n + 1, v =>
    record (TemplateSpan.mk <$> required "ty" (typeWithin n true) <*> required "literal" string) v

/-- A member whose types have at most this depth. -/
def memberWithin : Nat → Bool → Json → Decoded Member
  | 0, _, _ => .error .shape
  | n + 1, nested, v =>
    let name := required "name" propertyName
    let mods := defaulted "modifiers" .none modifiers
    let optionality := defaulted "optional" false bool
    let typeParameters := defaulted "typeParameters" [] (list (typeParameterWithin n true))
    let parameters := defaulted "parameters" [] (list (parameterWithin n))
    let result := optional "returnType" (typeWithin n true)
    node nested "kind" [
      ⟨"property", .property <$> name <*> mods <*> optionality
        <*> optional "typeAnnotation" (typeWithin n true)⟩,
      ⟨"method", .method <$> name <*> mods <*> optionality <*> typeParameters <*> parameters
        <*> result⟩,
      ⟨"callSignature", .call <$> typeParameters <*> parameters <*> result⟩,
      ⟨"constructSignature", .construct <$> typeParameters <*> parameters <*> result⟩,
      ⟨"indexSignature", .index <$> mods <*> required "parameters" (list (parameterWithin n))
        <*> required "typeAnnotation" (typeWithin n true)⟩,
      ⟨"constructor", .initializer <$> mods <*> parameters⟩,
      ⟨"getAccessor", .getter <$> name <*> mods <*> result⟩,
      ⟨"setAccessor", .setter <$> name <*> mods <*> parameters⟩] v
end

/-- A type at the top. -/
def type (v : Json) : Decoded TypeExpr := typeWithin v.depth false v

/-- A type parameter at the top. -/
def typeParameter (v : Json) : Decoded TypeParameter := typeParameterWithin v.depth false v

/-- A member at the top. -/
def member (v : Json) : Decoded Member := memberWithin v.depth false v

/-- A type below something else. -/
def nestedType (v : Json) : Decoded TypeExpr := typeWithin v.depth true v

/-- A type parameter within a node that has a tag. -/
def nestedTypeParameter (v : Json) : Decoded TypeParameter := typeParameterWithin v.depth true v

/-- A member within a node that has a tag. -/
def nestedMember (v : Json) : Decoded Member := memberWithin v.depth true v

/-- A parameter, which stands within a node that has a tag. -/
def parameter (v : Json) : Decoded Parameter := parameterWithin v.depth v

/-- A name in an `extends` or `implements` list. -/
def heritage : Json → Decoded Heritage :=
  record (Heritage.mk <$> required "expression" entity
    <*> defaulted "typeArguments" [] (list nestedType))

/-- The words for the kinds of variables. -/
def flavors : List (String × Flavor) :=
  [("var", .varying), ("let", .blockScoped), ("const", .constant)]

/-- A declarator. -/
def declarator : Json → Decoded Declarator :=
  record (Declarator.mk none <$> required "name" string <*> optional "typeAnnotation" nestedType
    <*> optional "initializer" string)

/-- A member of an enumeration. -/
def enumMember : Json → Decoded EnumMember :=
  record (EnumMember.mk <$> required "name" string <*> optional "initializer" string)

/-- One name of an import. -/
def importSpecifier : Json → Decoded ImportSpecifier :=
  record (ImportSpecifier.mk <$> required "imported" string <*> required "local" string)

/-- One name of an export list. -/
def exportSpecifier : Json → Decoded ExportSpecifier :=
  record (ExportSpecifier.mk <$> required "local" string <*> required "exported" string)

/-- What can be declared; `inner` reads a statement of a namespace body. -/
def kindShapes (inner : Json → Decoded Statement) : List (Shape DeclarationKind) :=
  let typeParameters := defaulted "typeParameters" [] (list nestedTypeParameter)
  let members := defaulted "members" [] (list nestedMember)
  [⟨"interface", .interface <$> required "name" string <*> typeParameters
      <*> defaulted "extends" [] (list heritage) <*> members⟩,
    ⟨"class", .classLike <$> optional "name" string <*> typeParameters
      <*> optional "extends" heritage <*> defaulted "implements" [] (list heritage) <*> members⟩,
    ⟨"function", .function <$> optional "name" string <*> typeParameters
      <*> defaulted "parameters" [] (list parameter) <*> optional "returnType" nestedType⟩,
    ⟨"variable", .variableList <$> defaulted "flavor" .constant (word true flavors)
      <*> required "declarations" (list declarator)⟩,
    ⟨"enum", .enumeration <$> required "name" string
      <*> defaulted "members" [] (list enumMember)⟩,
    ⟨"typeAlias", .typeAlias <$> required "name" string <*> typeParameters
      <*> required "type" nestedType⟩,
    ⟨"namespace", .namespaceBlock <$> required "name" string
      <*> defaulted "moduleKeyword" false bool <*> defaulted "body" [] (list inner)⟩]

/-- The fields of a declaration: its modifiers and position, and then what it declares. The latter
shares the object, so a declaration has no order of values and is never written as a list. -/
def declaration (inner : Json → Decoded Statement) : FieldReader Declaration where
  keys := []
  read row := do
    let head ← (Declaration.mk none <$> defaulted "modifiers" .none modifiers
      <*> optional "pos" position).read row
    let s ← (required "declaration" (shape true (kindShapes inner))).read row
    return head (← s.fields.read row)

/-- The shapes of statements; `inner` reads a statement of a namespace body. -/
def statementShapes (inner : Json → Decoded Statement) : List (Shape Statement) :=
  [⟨"declaration", .declaration <$> declaration inner⟩,
    ⟨"import", .imports <$> (ImportStatement.mk <$> required "source" string
      <*> optional "default" string <*> optional "namespace" string
      <*> defaulted "named" [] (list importSpecifier) <*> defaulted "typeOnly" false bool)⟩,
    ⟨"export", .exports <$> (ExportList.mk <$> required "specifiers" (list exportSpecifier)
      <*> optional "source" string <*> defaulted "typeOnly" false bool)⟩,
    ⟨"exportAll", .exportAll <$> required "source" string <*> optional "alias" string⟩,
    ⟨"exportDefault", .exportDefault <$> required "expression" string⟩,
    ⟨"exportAssignment", .exportAssignment <$> required "expression" string⟩,
    ⟨"opaque", .verbatim <$> required "tokens" (list token) <*> optional "pos" position⟩]

/-- A statement of at most this depth. -/
def statementWithin : Nat → Bool → Json → Decoded Statement
  | 0, _, _ => .error .shape
  | n + 1, nested, v => node nested "kind" (statementShapes (statementWithin n true)) v

/-- A statement at the top. -/
def statement (v : Json) : Decoded Statement := statementWithin v.depth false v

/-- The kind that a word for it stands for. -/
def statementKind (v : Json) : Decoded String :=
  (·.tag) <$> shape false (statementShapes statement) v

end DeclBundle.Decode
