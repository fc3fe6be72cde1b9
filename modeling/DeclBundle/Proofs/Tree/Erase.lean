import DeclBundle.Tree.Identity

/-!
# Trees without identities

`erase` takes the identities out of a tree and leaves everything else. Numbering a tree changes its
identities only: erased, the numbered tree is the tree that was numbered, erased
(`Statement.eraseList_assignList`).
-/

namespace DeclBundle

namespace TypeExpr

mutual
/-- The type without its identities. -/
def erase : TypeExpr → TypeExpr
  | .keyword name => .keyword name
  | .literal text => .literal text
  | .verbatim tokens => .verbatim tokens
  | .reference name arguments => .reference name (eraseList arguments)
  | .query name arguments => .query name (eraseList arguments)
  | .importType argument qualifier arguments isTypeOf =>
    .importType argument qualifier (eraseList arguments) isTypeOf
  | .array element => .array element.erase
  | .tuple elements => .tuple (eraseElements elements)
  | .union types => .union (eraseList types)
  | .intersection types => .intersection (eraseList types)
  | .function tps ps result =>
    .function (eraseTypeParameters tps) (eraseParameters ps) result.erase
  | .construct isAbstract tps ps result =>
    .construct isAbstract (eraseTypeParameters tps) (eraseParameters ps) result.erase
  | .object members => .object (eraseMembers members)
  | .operator op target => .operator op target.erase
  | .indexed obj index => .indexed obj.erase index.erase
  | .conditional check bound onTrue onFalse =>
    .conditional check.erase bound.erase onTrue.erase onFalse.erase
  | .infer p => .infer (eraseOne p)
  | .mapped key nameType readonly optional target =>
    .mapped (eraseOne key) (eraseOption nameType) readonly optional (eraseOption target)
  | .predicate asserts parameter target => .predicate asserts parameter (eraseOption target)
  | .parenthesized inner => .parenthesized inner.erase
  | .template head spans => .template head (eraseSpans spans)

/-- A type that may be missing, without identities. -/
def eraseOption : Option TypeExpr → Option TypeExpr
  | none => none
  | some t => some t.erase

/-- A list of types without identities. -/
def eraseList : List TypeExpr → List TypeExpr
  | [] => []
  | t :: ts => t.erase :: eraseList ts

/-- A type parameter without identities. -/
def eraseOne : TypeParameter → TypeParameter
  | ⟨_, name, constraint, fallback, keywords⟩ =>
    ⟨none, name, eraseOption constraint, eraseOption fallback, keywords⟩

/-- Type parameters without identities. -/
def eraseTypeParameters : List TypeParameter → List TypeParameter
  | [] => []
  | p :: ps => eraseOne p :: eraseTypeParameters ps

/-- Parameters without identities in their types. -/
def eraseParameters : List Parameter → List Parameter
  | [] => []
  | ⟨name, modifiers, optional, rest, ascription⟩ :: ps =>
    ⟨name, modifiers, optional, rest, eraseOption ascription⟩ :: eraseParameters ps

/-- The elements of a tuple type without identities. -/
def eraseElements : List TupleElement → List TupleElement
  | [] => []
  | ⟨name, optional, rest, element⟩ :: es =>
    ⟨name, optional, rest, element.erase⟩ :: eraseElements es

/-- The types in a template literal type without identities. -/
def eraseSpans : List TemplateSpan → List TemplateSpan
  | [] => []
  | ⟨type, text⟩ :: ss => ⟨type.erase, text⟩ :: eraseSpans ss

/-- A list of members without identities. -/
def eraseMembers : List Member → List Member
  | [] => []
  | m :: ms => eraseMember m :: eraseMembers ms

/-- A member without identities. -/
def eraseMember : Member → Member
  | .property name modifiers optional ascription =>
    .property name modifiers optional (eraseOption ascription)
  | .method name modifiers optional tps ps result =>
    .method name modifiers optional (eraseTypeParameters tps) (eraseParameters ps)
      (eraseOption result)
  | .call tps ps result =>
    .call (eraseTypeParameters tps) (eraseParameters ps) (eraseOption result)
  | .construct tps ps result =>
    .construct (eraseTypeParameters tps) (eraseParameters ps) (eraseOption result)
  | .index modifiers ps ascription => .index modifiers (eraseParameters ps) ascription.erase
  | .initializer modifiers ps => .initializer modifiers (eraseParameters ps)
  | .getter name modifiers result => .getter name modifiers (eraseOption result)
  | .setter name modifiers ps => .setter name modifiers (eraseParameters ps)
end

end TypeExpr

open TypeExpr

/-- A heritage clause without identities in its arguments. -/
def Heritage.erase (h : Heritage) : Heritage := { h with arguments := eraseList h.arguments }

/-- A declarator without its identity and those in its type. -/
def Declarator.erase (d : Declarator) : Declarator :=
  { d with id := none, ascription := eraseOption d.ascription }

mutual
/-- The statement without its identities. -/
def Statement.erase : Statement → Statement
  | .declaration d => .declaration d.erase
  | s => s

/-- The statements without their identities. -/
def Statement.eraseList : List Statement → List Statement
  | [] => []
  | s :: ss => s.erase :: Statement.eraseList ss

/-- A declaration without its identity and those inside. -/
def Declaration.erase : Declaration → Declaration
  | ⟨_, modifiers, pos, kind⟩ => ⟨none, modifiers, pos, kind.erase⟩

/-- A declaration of any kind without identities in its parts. -/
def DeclarationKind.erase : DeclarationKind → DeclarationKind
  | .interface name tps bases members =>
    .interface name (eraseTypeParameters tps) (bases.map Heritage.erase) (eraseMembers members)
  | .classLike name tps base implemented members =>
    .classLike name (eraseTypeParameters tps) (base.map Heritage.erase)
      (implemented.map Heritage.erase) (eraseMembers members)
  | .function name tps ps result =>
    .function name (eraseTypeParameters tps) (eraseParameters ps) (eraseOption result)
  | .variableList flavor declarators => .variableList flavor (declarators.map Declarator.erase)
  | .enumeration name members => .enumeration name members
  | .typeAlias name tps target => .typeAlias name (eraseTypeParameters tps) target.erase
  | .namespaceBlock name moduleKeyword body =>
    .namespaceBlock name moduleKeyword (Statement.eraseList body)
end

namespace TypeExpr

mutual
theorem erase_assign (n : DeclId) : ∀ t : TypeExpr, (t.assign n).erase = t.erase
  | .keyword _ | .literal _ | .verbatim _ => rfl
  | .reference _ ts | .query _ ts | .importType _ _ ts _ | .union ts | .intersection ts => by
    simp only [assign, erase, eraseList_assignList n ts]
  | .array t | .operator _ t | .parenthesized t => by
    simp only [assign, erase, erase_assign n t]
  | .tuple es => by simp only [assign, erase, eraseElements_assign n es]
  | .function tps ps t | .construct _ tps ps t => by
    simp only [assign, erase, eraseTypeParameters_assign, eraseParameters_assign, erase_assign]
  | .object ms => by simp only [assign, erase, eraseMembers_assign n ms]
  | .indexed t u => by simp only [assign, erase, erase_assign]
  | .conditional t u v w => by simp only [assign, erase, erase_assign]
  | .infer p => by simp only [assign, erase, eraseOne_assign n p]
  | .mapped p t _ _ u => by
    simp only [assign, erase, eraseOne_assign, eraseOption_assign]
  | .predicate _ _ t => by simp only [assign, erase, eraseOption_assign n t]
  | .template _ ss => by simp only [assign, erase, eraseSpans_assign n ss]

theorem eraseOption_assign (n : DeclId) : ∀ t : Option TypeExpr,
    eraseOption (assignOption n t) = eraseOption t
  | none => rfl
  | some t => by simp only [assignOption, eraseOption, erase_assign n t]

theorem eraseList_assignList (n : DeclId) : ∀ ts : List TypeExpr,
    eraseList (assignList n ts) = eraseList ts
  | [] => rfl
  | t :: ts => by simp only [assignList, eraseList, erase_assign, eraseList_assignList]

theorem eraseOne_assign (n : DeclId) : ∀ p : TypeParameter,
    eraseOne (assignOne n p) = eraseOne p
  | ⟨_, _, t, u, _⟩ => by simp only [assignOne, eraseOne, eraseOption_assign]

theorem eraseTypeParameters_assign (n : DeclId) : ∀ ps : List TypeParameter,
    eraseTypeParameters (assignTypeParameters n ps) = eraseTypeParameters ps
  | [] => rfl
  | p :: ps => by
    simp only [assignTypeParameters, eraseTypeParameters, eraseOne_assign,
      eraseTypeParameters_assign]

theorem eraseParameters_assign (n : DeclId) : ∀ ps : List Parameter,
    eraseParameters (assignParameters n ps) = eraseParameters ps
  | [] => rfl
  | ⟨_, _, _, _, t⟩ :: ps => by
    simp only [assignParameters, eraseParameters, eraseOption_assign, eraseParameters_assign]

theorem eraseElements_assign (n : DeclId) : ∀ es : List TupleElement,
    eraseElements (assignElements n es) = eraseElements es
  | [] => rfl
  | ⟨_, _, _, t⟩ :: es => by
    simp only [assignElements, eraseElements, erase_assign, eraseElements_assign]

theorem eraseSpans_assign (n : DeclId) : ∀ ss : List TemplateSpan,
    eraseSpans (assignSpans n ss) = eraseSpans ss
  | [] => rfl
  | ⟨t, _⟩ :: ss => by simp only [assignSpans, eraseSpans, erase_assign, eraseSpans_assign]

theorem eraseMembers_assign (n : DeclId) : ∀ ms : List Member,
    eraseMembers (assignMembers n ms) = eraseMembers ms
  | [] => rfl
  | m :: ms => by
    simp only [assignMembers, eraseMembers, eraseMember_assign, eraseMembers_assign]

theorem eraseMember_assign (n : DeclId) : ∀ m : Member,
    eraseMember (assignMember n m) = eraseMember m
  | .property _ _ _ t | .getter _ _ t => by
    simp only [assignMember, eraseMember, eraseOption_assign n t]
  | .method _ _ _ tps ps t | .call tps ps t | .construct tps ps t => by
    simp only [assignMember, eraseMember, eraseTypeParameters_assign, eraseParameters_assign,
      eraseOption_assign]
  | .index _ ps t => by
    simp only [assignMember, eraseMember, eraseParameters_assign, erase_assign]
  | .initializer _ ps | .setter _ _ ps => by
    simp only [assignMember, eraseMember, eraseParameters_assign n ps]
end

end TypeExpr

theorem Heritage.erase_assignList (n : DeclId) : ∀ hs : List Heritage,
    (Heritage.assignList n hs).map Heritage.erase = hs.map Heritage.erase
  | [] => rfl
  | h :: hs => by
    simp only [Heritage.assignList, List.map_cons, Heritage.erase, eraseList_assignList,
      Heritage.erase_assignList]

theorem Declarator.erase_assignList (n : DeclId) : ∀ ds : List Declarator,
    (Declarator.assignList n ds).map Declarator.erase = ds.map Declarator.erase
  | [] => rfl
  | d :: ds => by
    simp only [Declarator.assignList, List.map_cons, Declarator.erase, eraseOption_assign,
      Declarator.erase_assignList]

mutual
theorem Statement.erase_assign (n : DeclId) : ∀ s : Statement, (s.assign n).erase = s.erase
  | .declaration d => by simp only [Statement.assign, Statement.erase, Declaration.erase_assign n d]
  | .imports _ | .exports _ | .exportAll _ _ | .exportDefault _ | .exportAssignment _
  | .verbatim _ _ => rfl

/-- Numbered statements are the same statements apart from identities. -/
theorem Statement.eraseList_assignList (n : DeclId) : ∀ ss : List Statement,
    Statement.eraseList (Statement.assignList n ss) = Statement.eraseList ss
  | [] => rfl
  | s :: ss => by
    simp only [Statement.assignList, Statement.eraseList, Statement.erase_assign,
      Statement.eraseList_assignList]

theorem Declaration.erase_assign (n : DeclId) : ∀ d : Declaration, (d.assign n).erase = d.erase
  | ⟨_, _, _, kind⟩ => by
    simp only [Declaration.assign, Declaration.erase, DeclarationKind.erase_assign _ kind]

theorem DeclarationKind.erase_assign (n : DeclId) : ∀ k : DeclarationKind,
    (k.assign n).erase = k.erase
  | .interface _ tps bases ms => by
    simp only [DeclarationKind.assign, DeclarationKind.erase, eraseTypeParameters_assign,
      Heritage.erase_assignList, eraseMembers_assign]
  | .classLike _ tps base implemented ms => by
    simp only [DeclarationKind.assign, DeclarationKind.erase, eraseTypeParameters_assign,
      Heritage.erase_assignList, eraseMembers_assign, Option.map_map, Function.comp_def,
      Heritage.erase, eraseList_assignList]
    rfl
  | .function _ tps ps t => by
    simp only [DeclarationKind.assign, DeclarationKind.erase, eraseTypeParameters_assign,
      eraseParameters_assign, eraseOption_assign]
  | .variableList _ ds => by
    simp only [DeclarationKind.assign, DeclarationKind.erase, Declarator.erase_assignList n ds]
  | .enumeration _ _ => rfl
  | .typeAlias _ tps t => by
    simp only [DeclarationKind.assign, DeclarationKind.erase, eraseTypeParameters_assign,
      TypeExpr.erase_assign]
  | .namespaceBlock _ _ body => by
    simp only [DeclarationKind.assign, DeclarationKind.erase,
      Statement.eraseList_assignList n body]
end

end DeclBundle
