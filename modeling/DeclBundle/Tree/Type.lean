import DeclBundle.Tree.Entity
import DeclBundle.Tree.Modifiers

/-!
# Types

What can stand in a type position of a declaration. A type that has no shape of its own is kept
`verbatim`, as tokens in which identifiers are still told apart from other text.

Type parameters carry an identity, which is absent until the tree enters a store.
-/

namespace DeclBundle

/-- What a binding is known by: its number in the order of allocation. -/
abbrev DeclId := Nat

/-- What a module is known by: its place in the store. -/
abbrev ModuleId := Nat

/-- A line and a column, both counted from 0. -/
structure Position where
  line : Nat
  column : Nat
deriving DecidableEq, Repr

/-- A piece of text that is kept as it is. -/
inductive Token where
  | text (text : String)
  | identifier (name : String)
deriving DecidableEq, Repr

/-- The identifiers among tokens. -/
def Token.names (tokens : List Token) : List String :=
  tokens.filterMap fun
    | .text _ => none
    | .identifier name => some name

/-- `keyof T`, `unique symbol`, `readonly T[]`. -/
inductive TypeOperator where
  | keyof
  | unique
  | readonly
deriving DecidableEq, Repr

/-- The word for a type operator. -/
def TypeOperator.keyword : TypeOperator → String
  | .keyof => "keyof"
  | .unique => "unique"
  | .readonly => "readonly"

/-- How a mapped type sets or clears a modifier. -/
inductive MappedSign where
  | present
  | plus
  | minus
deriving DecidableEq, Repr

/-- The sign as it is printed. -/
def MappedSign.text : MappedSign → String
  | .present => ""
  | .plus => "+"
  | .minus => "-"

/-- The name of a property-like member. -/
inductive PropertyName where
  | identifier (name : String)
  | stringLiteral (value : String)
  | numericLiteral (value : String)
  /-- `[Symbol.iterator]`, `[key]` -/
  | computed (expression : Entity)
deriving DecidableEq, Repr

mutual
/-- A type. -/
inductive TypeExpr where
  /-- `string`, `any`, `this` -/
  | keyword (name : String)
  /-- `ns.Foo<A, B>` -/
  | reference (name : Entity) (arguments : List TypeExpr)
  /-- `"foo"`, `1`, `true` -/
  | literal (text : String)
  | array (element : TypeExpr)
  | tuple (elements : List TupleElement)
  | union (types : List TypeExpr)
  | intersection (types : List TypeExpr)
  | function (typeParameters : List TypeParameter) (parameters : List Parameter)
    (result : TypeExpr)
  /-- `abstract new (x: A) => B` -/
  | construct (isAbstract : Bool) (typeParameters : List TypeParameter)
    (parameters : List Parameter) (result : TypeExpr)
  /-- A type literal in braces. -/
  | object (members : List Member)
  /-- `typeof ns.foo<T>` -/
  | query (name : Entity) (arguments : List TypeExpr)
  | operator (op : TypeOperator) (target : TypeExpr)
  /-- `T[K]` -/
  | indexed (object index : TypeExpr)
  /-- `T extends U ? A : B` -/
  | conditional (check bound onTrue onFalse : TypeExpr)
  | infer (parameter : TypeParameter)
  /-- A type in braces with one key that runs over a type. -/
  | mapped (key : TypeParameter) (nameType : Option TypeExpr) (readonly : Option MappedSign)
    (optional : Option MappedSign) (target : Option TypeExpr)
  /-- `import("m").Foo<T>`, `typeof import("m")` -/
  | importType (argument : String) (qualifier : Option Entity) (arguments : List TypeExpr)
    (isTypeOf : Bool)
  /-- `x is Foo`, `asserts x` -/
  | predicate (asserts : Bool) (parameter : String) (target : Option TypeExpr)
  | parenthesized (inner : TypeExpr)
  /-- A template literal type: text, then types each followed by text. -/
  | template (head : String) (spans : List TemplateSpan)
  | verbatim (tokens : List Token)

/-- `const T extends Foo = Bar` -/
structure TypeParameter where
  id : Option DeclId
  name : String
  constraint : Option TypeExpr
  fallback : Option TypeExpr
  /-- Words in front of the name, such as `in` and `out`. -/
  keywords : List String

/-- A parameter of a function or signature. -/
structure Parameter where
  name : String
  modifiers : Modifiers
  optional : Bool
  rest : Bool
  ascription : Option TypeExpr

/-- An element of a tuple type. -/
structure TupleElement where
  name : Option String
  optional : Bool
  rest : Bool
  element : TypeExpr

/-- A type in a template literal type and the text after it. -/
structure TemplateSpan where
  type : TypeExpr
  literal : String

/-- A member of an interface, a class or a type literal. -/
inductive Member where
  | property (name : PropertyName) (modifiers : Modifiers) (optional : Bool)
    (ascription : Option TypeExpr)
  | method (name : PropertyName) (modifiers : Modifiers) (optional : Bool)
    (typeParameters : List TypeParameter) (parameters : List Parameter)
    (result : Option TypeExpr)
  | call (typeParameters : List TypeParameter) (parameters : List Parameter)
    (result : Option TypeExpr)
  | construct (typeParameters : List TypeParameter) (parameters : List Parameter)
    (result : Option TypeExpr)
  | index (modifiers : Modifiers) (parameters : List Parameter) (ascription : TypeExpr)
  /-- The constructor of a class. -/
  | initializer (modifiers : Modifiers) (parameters : List Parameter)
  | getter (name : PropertyName) (modifiers : Modifiers) (result : Option TypeExpr)
  | setter (name : PropertyName) (modifiers : Modifiers) (parameters : List Parameter)
end

/-- Some type, for lookups without a result. -/
instance : Inhabited TypeExpr := ⟨.keyword ""⟩

end DeclBundle
