import DeclBundle.Tree.Statement

/-!
# Identities in trees

A binding position is a declaration, a declarator or a type parameter, wherever it stands. The slots
of a tree are the identities of its binding positions in the order of a walk from front to back, a
declaration before its parts. `assign` numbers them from a given identity on, so the identities of
the result are consecutive.
-/

namespace DeclBundle

namespace TypeExpr

mutual
/-- The identities of the binding positions in a type. -/
def slots : TypeExpr → List (Option DeclId)
  | .keyword _ | .literal _ | .verbatim _ => []
  | .reference _ arguments | .query _ arguments | .importType _ _ arguments _ => listSlots arguments
  | .array element => element.slots
  | .tuple elements => elementSlots elements
  | .union types | .intersection types => listSlots types
  | .function tps ps result | .construct _ tps ps result =>
    typeParameterSlots tps ++ parameterSlots ps ++ result.slots
  | .object members => memberSlots members
  | .operator _ target => target.slots
  | .indexed obj index => obj.slots ++ index.slots
  | .conditional check bound onTrue onFalse =>
    check.slots ++ bound.slots ++ onTrue.slots ++ onFalse.slots
  | .infer p => oneSlots p
  | .mapped key nameType _ _ target => oneSlots key ++ optionSlots nameType ++ optionSlots target
  | .predicate _ _ target => optionSlots target
  | .parenthesized inner => inner.slots
  | .template _ spans => spanSlots spans

/-- The slots of a type that may be missing. -/
def optionSlots : Option TypeExpr → List (Option DeclId)
  | none => []
  | some t => t.slots

/-- The slots of a list of types. -/
def listSlots : List TypeExpr → List (Option DeclId)
  | [] => []
  | t :: ts => t.slots ++ listSlots ts

/-- A type parameter comes before its constraint and its default. -/
def oneSlots : TypeParameter → List (Option DeclId)
  | ⟨id, _, constraint, fallback, _⟩ => id :: optionSlots constraint ++ optionSlots fallback

/-- The slots of type parameters, each before those inside it. -/
def typeParameterSlots : List TypeParameter → List (Option DeclId)
  | [] => []
  | p :: ps => oneSlots p ++ typeParameterSlots ps

/-- The slots of parameters; a parameter has none itself. -/
def parameterSlots : List Parameter → List (Option DeclId)
  | [] => []
  | ⟨_, _, _, _, ascription⟩ :: ps => optionSlots ascription ++ parameterSlots ps

/-- The slots of the elements of a tuple type. -/
def elementSlots : List TupleElement → List (Option DeclId)
  | [] => []
  | ⟨_, _, _, element⟩ :: es => element.slots ++ elementSlots es

/-- The slots of a template literal type. -/
def spanSlots : List TemplateSpan → List (Option DeclId)
  | [] => []
  | ⟨type, _⟩ :: ss => type.slots ++ spanSlots ss

/-- The slots of a list of members. -/
def memberSlots : List Member → List (Option DeclId)
  | [] => []
  | m :: ms => oneMemberSlots m ++ memberSlots ms

/-- The slots of a member: those of its signature or its type. -/
def oneMemberSlots : Member → List (Option DeclId)
  | .property _ _ _ ascription => optionSlots ascription
  | .method _ _ _ tps ps result | .call tps ps result | .construct tps ps result =>
    typeParameterSlots tps ++ parameterSlots ps ++ optionSlots result
  | .index _ ps ascription => parameterSlots ps ++ ascription.slots
  | .initializer _ ps | .setter _ _ ps => parameterSlots ps
  | .getter _ _ result => optionSlots result
end

mutual
/-- The type with its binding positions numbered from `n` on. -/
def assign (n : DeclId) : TypeExpr → TypeExpr
  | .keyword name => .keyword name
  | .literal text => .literal text
  | .verbatim tokens => .verbatim tokens
  | .reference name arguments => .reference name (assignList n arguments)
  | .query name arguments => .query name (assignList n arguments)
  | .importType argument qualifier arguments isTypeOf =>
    .importType argument qualifier (assignList n arguments) isTypeOf
  | .array element => .array (element.assign n)
  | .tuple elements => .tuple (assignElements n elements)
  | .union types => .union (assignList n types)
  | .intersection types => .intersection (assignList n types)
  | .function tps ps result =>
    let n₁ := n + (typeParameterSlots tps).length
    let n₂ := n₁ + (parameterSlots ps).length
    .function (assignTypeParameters n tps) (assignParameters n₁ ps) (result.assign n₂)
  | .construct isAbstract tps ps result =>
    let n₁ := n + (typeParameterSlots tps).length
    let n₂ := n₁ + (parameterSlots ps).length
    .construct isAbstract (assignTypeParameters n tps) (assignParameters n₁ ps) (result.assign n₂)
  | .object members => .object (assignMembers n members)
  | .operator op target => .operator op (target.assign n)
  | .indexed obj index => .indexed (obj.assign n) (index.assign (n + obj.slots.length))
  | .conditional check bound onTrue onFalse =>
    let n₁ := n + check.slots.length
    let n₂ := n₁ + bound.slots.length
    let n₃ := n₂ + onTrue.slots.length
    .conditional (check.assign n) (bound.assign n₁) (onTrue.assign n₂) (onFalse.assign n₃)
  | .infer p => .infer (assignOne n p)
  | .mapped key nameType readonly optional target =>
    let n₁ := n + (oneSlots key).length
    let n₂ := n₁ + (optionSlots nameType).length
    .mapped (assignOne n key) (assignOption n₁ nameType) readonly optional (assignOption n₂ target)
  | .predicate asserts parameter target => .predicate asserts parameter (assignOption n target)
  | .parenthesized inner => .parenthesized (inner.assign n)
  | .template head spans => .template head (assignSpans n spans)

/-- Identities from `n` on in a type that may be missing. -/
def assignOption (n : DeclId) : Option TypeExpr → Option TypeExpr
  | none => none
  | some t => some (t.assign n)

/-- Identities from `n` on in a list of types. -/
def assignList (n : DeclId) : List TypeExpr → List TypeExpr
  | [] => []
  | t :: ts => t.assign n :: assignList (n + t.slots.length) ts

/-- The identity `n` for a type parameter, and those after it inside. -/
def assignOne (n : DeclId) : TypeParameter → TypeParameter
  | ⟨_, name, constraint, fallback, keywords⟩ =>
    ⟨some n, name, assignOption (n + 1) constraint,
      assignOption (n + 1 + (optionSlots constraint).length) fallback, keywords⟩

/-- Identities from `n` on in type parameters. -/
def assignTypeParameters (n : DeclId) : List TypeParameter → List TypeParameter
  | [] => []
  | p :: ps => assignOne n p :: assignTypeParameters (n + (oneSlots p).length) ps

/-- Identities from `n` on in parameters. -/
def assignParameters (n : DeclId) : List Parameter → List Parameter
  | [] => []
  | ⟨name, modifiers, optional, rest, ascription⟩ :: ps =>
    ⟨name, modifiers, optional, rest, assignOption n ascription⟩
      :: assignParameters (n + (optionSlots ascription).length) ps

/-- Identities from `n` on in the elements of a tuple type. -/
def assignElements (n : DeclId) : List TupleElement → List TupleElement
  | [] => []
  | ⟨name, optional, rest, element⟩ :: es =>
    ⟨name, optional, rest, element.assign n⟩ :: assignElements (n + element.slots.length) es

/-- Identities from `n` on in a template literal type. -/
def assignSpans (n : DeclId) : List TemplateSpan → List TemplateSpan
  | [] => []
  | ⟨type, text⟩ :: ss => ⟨type.assign n, text⟩ :: assignSpans (n + type.slots.length) ss

/-- Identities from `n` on in a list of members. -/
def assignMembers (n : DeclId) : List Member → List Member
  | [] => []
  | m :: ms => assignMember n m :: assignMembers (n + (oneMemberSlots m).length) ms

/-- Identities from `n` on in a member. -/
def assignMember (n : DeclId) : Member → Member
  | .property name modifiers optional ascription =>
    .property name modifiers optional (assignOption n ascription)
  | .method name modifiers optional tps ps result =>
    let n₁ := n + (typeParameterSlots tps).length
    let n₂ := n₁ + (parameterSlots ps).length
    .method name modifiers optional (assignTypeParameters n tps) (assignParameters n₁ ps)
      (assignOption n₂ result)
  | .call tps ps result =>
    let n₁ := n + (typeParameterSlots tps).length
    let n₂ := n₁ + (parameterSlots ps).length
    .call (assignTypeParameters n tps) (assignParameters n₁ ps) (assignOption n₂ result)
  | .construct tps ps result =>
    let n₁ := n + (typeParameterSlots tps).length
    let n₂ := n₁ + (parameterSlots ps).length
    .construct (assignTypeParameters n tps) (assignParameters n₁ ps) (assignOption n₂ result)
  | .index modifiers ps ascription =>
    .index modifiers (assignParameters n ps) (ascription.assign (n + (parameterSlots ps).length))
  | .initializer modifiers ps => .initializer modifiers (assignParameters n ps)
  | .getter name modifiers result => .getter name modifiers (assignOption n result)
  | .setter name modifiers ps => .setter name modifiers (assignParameters n ps)
end

end TypeExpr

open TypeExpr

/-- The binding positions in the type arguments of a heritage list. -/
def Heritage.listSlots (hs : List Heritage) : List (Option DeclId) :=
  hs.flatMap fun h => TypeExpr.listSlots h.arguments

/-- The heritage list with its binding positions numbered from `n` on. -/
def Heritage.assignList (n : DeclId) : List Heritage → List Heritage
  | [] => []
  | h :: hs =>
    { h with arguments := TypeExpr.assignList n h.arguments }
      :: Heritage.assignList (n + (TypeExpr.listSlots h.arguments).length) hs

/-- The slots of declarators: each one's own before those of its type. -/
def Declarator.listSlots (ds : List Declarator) : List (Option DeclId) :=
  ds.flatMap fun d => d.id :: optionSlots d.ascription

/-- The declarators with their binding positions numbered from `n` on. -/
def Declarator.assignList (n : DeclId) : List Declarator → List Declarator
  | [] => []
  | d :: ds =>
    { d with id := some n, ascription := assignOption (n + 1) d.ascription }
      :: Declarator.assignList (n + 1 + (optionSlots d.ascription).length) ds

mutual
/-- The identities of the binding positions in a statement; only declarations have any. -/
def Statement.slots : Statement → List (Option DeclId)
  | .declaration d => d.slots
  | _ => []

/-- The identities of the binding positions in statements. -/
def Statement.listSlots : List Statement → List (Option DeclId)
  | [] => []
  | s :: ss => s.slots ++ Statement.listSlots ss

/-- A declaration comes before its parts. -/
def Declaration.slots : Declaration → List (Option DeclId)
  | ⟨id, _, _, kind⟩ => id :: kind.slots

/-- The binding positions in the parts of a declaration. -/
def DeclarationKind.slots : DeclarationKind → List (Option DeclId)
  | .interface _ tps bases members =>
    typeParameterSlots tps ++ Heritage.listSlots bases ++ memberSlots members
  | .classLike _ tps base implemented members =>
    typeParameterSlots tps ++ Heritage.listSlots base.toList ++ Heritage.listSlots implemented
      ++ memberSlots members
  | .function _ tps ps result =>
    typeParameterSlots tps ++ parameterSlots ps ++ optionSlots result
  | .variableList _ declarators => Declarator.listSlots declarators
  | .enumeration .. => []
  | .typeAlias _ tps target => typeParameterSlots tps ++ target.slots
  | .namespaceBlock _ _ body => Statement.listSlots body
end

mutual
/-- The statement with its binding positions numbered from `n` on. -/
def Statement.assign (n : DeclId) : Statement → Statement
  | .declaration d => .declaration (d.assign n)
  | s => s

/-- The statements with their binding positions numbered from `n` on. -/
def Statement.assignList (n : DeclId) : List Statement → List Statement
  | [] => []
  | s :: ss => s.assign n :: Statement.assignList (n + s.slots.length) ss

/-- The declaration with its binding positions numbered from `n` on. -/
def Declaration.assign (n : DeclId) : Declaration → Declaration
  | ⟨_, modifiers, pos, kind⟩ => ⟨some n, modifiers, pos, kind.assign (n + 1)⟩

/-- The parts of a declaration with their binding positions numbered from `n` on. -/
def DeclarationKind.assign (n : DeclId) : DeclarationKind → DeclarationKind
  | .interface name tps bases members =>
    let n₁ := n + (typeParameterSlots tps).length
    let n₂ := n₁ + (Heritage.listSlots bases).length
    .interface name (assignTypeParameters n tps) (Heritage.assignList n₁ bases)
      (assignMembers n₂ members)
  | .classLike name tps base implemented members =>
    let n₁ := n + (typeParameterSlots tps).length
    let n₂ := n₁ + (Heritage.listSlots base.toList).length
    let n₃ := n₂ + (Heritage.listSlots implemented).length
    .classLike name (assignTypeParameters n tps)
      (base.map fun h => { h with arguments := TypeExpr.assignList n₁ h.arguments })
      (Heritage.assignList n₂ implemented) (assignMembers n₃ members)
  | .function name tps ps result =>
    let n₁ := n + (typeParameterSlots tps).length
    let n₂ := n₁ + (parameterSlots ps).length
    .function name (assignTypeParameters n tps) (assignParameters n₁ ps) (assignOption n₂ result)
  | .variableList flavor declarators => .variableList flavor (Declarator.assignList n declarators)
  | .enumeration name members => .enumeration name members
  | .typeAlias name tps target =>
    .typeAlias name (assignTypeParameters n tps)
      (target.assign (n + (typeParameterSlots tps).length))
  | .namespaceBlock name moduleKeyword body =>
    .namespaceBlock name moduleKeyword (Statement.assignList n body)
end

end DeclBundle
