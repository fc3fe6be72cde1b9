import DeclBundle.Names.Naming
import Mathlib.Data.List.Forall2

/-!
# Trees that differ by names only

`Alike` relates a tree to one that says the same under other names. What may differ is what the
constructors leave open: the names that are declared, those of type parameters, the first segment of
a dotted name, and the identifiers of verbatim text. In a namespace body the local names of imports
and of export lists may differ as well, a declaration whose names differ is not exported by its
modifier, and one export list may follow.

An import type stays unless `roots`, by module and first segment of the qualifier, has a name for
it. Then it is a reference or a `typeof` query with that root, and keeps the rest of the qualifier
and its type arguments.
-/

namespace DeclBundle

open List (Forall₂)

/-- The same text, or two identifiers. -/
inductive Token.Alike : Token → Token → Prop
  | text (text : String) : Alike (.text text) (.text text)
  | identifier (name name' : String) : Alike (.identifier name) (.identifier name')

/-- Dotted names that differ at most in the first segment, with as many segments unless there were
none. -/
structure Entity.Alike (e e' : Entity) : Prop where
  tail : e'.segments.tail = e.segments.tail
  length : e.segments ≠ [] → e'.segments.length = e.segments.length

/-- The same name of a member, or two computed names that are alike and no well-known symbols. -/
inductive PropertyName.Alike : PropertyName → PropertyName → Prop
  | same (name : PropertyName) : Alike name name
  | computed {e e' : Entity} (hs : e.root ≠ "Symbol") (h : e.Alike e') :
    Alike (.computed e) (.computed e')

/-- The root of what stands in the place of an import type. Without a qualifier only `typeof` can
name the module. -/
def inlinedRoot (roots : String → Option String → Option String) (argument : String)
    (qualifier : Option Entity) (isTypeOf : Bool) : Option String :=
  if qualifier.isNone && !isTypeOf then none else roots argument (qualifier.map Entity.root)

/-- What follows the first segment of a qualifier. -/
def pathAfterRoot (qualifier : Option Entity) : List String :=
  ((qualifier.map Entity.segments).getD []).tail

section

variable (roots : String → Option String → Option String)

mutual
/-- Types of one shape that differ in the names inside at most, and in the import types that `roots`
has a name for. -/
inductive TypeExpr.Alike : TypeExpr → TypeExpr → Prop
  | keyword (name : String) : TypeExpr.Alike (.keyword name) (.keyword name)
  | literal (text : String) : TypeExpr.Alike (.literal text) (.literal text)
  | reference {e e' : Entity} {ts ts' : List TypeExpr} (he : e.Alike e')
      (h : Forall₂ TypeExpr.Alike ts ts') : TypeExpr.Alike (.reference e ts) (.reference e' ts')
  | query {e e' : Entity} {ts ts' : List TypeExpr} (he : e.Alike e')
      (h : Forall₂ TypeExpr.Alike ts ts') : TypeExpr.Alike (.query e ts) (.query e' ts')
  | array {t t' : TypeExpr} (h : TypeExpr.Alike t t') : TypeExpr.Alike (.array t) (.array t')
  | tuple {es es' : List TupleElement} (h : Forall₂ TupleElement.Alike es es') :
    TypeExpr.Alike (.tuple es) (.tuple es')
  | union {ts ts' : List TypeExpr} (h : Forall₂ TypeExpr.Alike ts ts') :
    TypeExpr.Alike (.union ts) (.union ts')
  | intersection {ts ts' : List TypeExpr} (h : Forall₂ TypeExpr.Alike ts ts') :
    TypeExpr.Alike (.intersection ts) (.intersection ts')
  | function {tps tps' : List TypeParameter} {ps ps' : List Parameter} {t t' : TypeExpr}
      (ht : Forall₂ TypeParameter.Alike tps tps') (hp : Forall₂ Parameter.Alike ps ps')
      (h : TypeExpr.Alike t t') : TypeExpr.Alike (.function tps ps t) (.function tps' ps' t')
  | construct (isAbstract : Bool) {tps tps' : List TypeParameter} {ps ps' : List Parameter}
      {t t' : TypeExpr} (ht : Forall₂ TypeParameter.Alike tps tps')
      (hp : Forall₂ Parameter.Alike ps ps') (h : TypeExpr.Alike t t') :
    TypeExpr.Alike (.construct isAbstract tps ps t) (.construct isAbstract tps' ps' t')
  | object {ms ms' : List Member} (h : Forall₂ Member.Alike ms ms') :
    TypeExpr.Alike (.object ms) (.object ms')
  | operator (op : TypeOperator) {t t' : TypeExpr} (h : TypeExpr.Alike t t') :
    TypeExpr.Alike (.operator op t) (.operator op t')
  | indexed {t t' i i' : TypeExpr} (ht : TypeExpr.Alike t t') (hi : TypeExpr.Alike i i') :
    TypeExpr.Alike (.indexed t i) (.indexed t' i')
  | conditional {c c' b b' t t' f f' : TypeExpr} (hc : TypeExpr.Alike c c')
      (hb : TypeExpr.Alike b b') (ht : TypeExpr.Alike t t') (hf : TypeExpr.Alike f f') :
    TypeExpr.Alike (.conditional c b t f) (.conditional c' b' t' f')
  | infer {p p' : TypeParameter} (h : TypeParameter.Alike p p') :
    TypeExpr.Alike (.infer p) (.infer p')
  | mapped {key key' : TypeParameter} {n n' t t' : Option TypeExpr}
      (readonly optionality : Option MappedSign) (hk : TypeParameter.Alike key key')
      (hn : Option.Rel TypeExpr.Alike n n') (ht : Option.Rel TypeExpr.Alike t t') :
    TypeExpr.Alike (.mapped key n readonly optionality t) (.mapped key' n' readonly optionality t')
  | importType {argument : String} {qualifier : Option Entity} {ts ts' : List TypeExpr}
      {isTypeOf : Bool} (hr : inlinedRoot roots argument qualifier isTypeOf = none)
      (h : Forall₂ TypeExpr.Alike ts ts') :
    TypeExpr.Alike (.importType argument qualifier ts isTypeOf)
      (.importType argument qualifier ts' isTypeOf)
  | inlinedReference {argument root : String} {qualifier : Option Entity} {ts ts' : List TypeExpr}
      (hr : inlinedRoot roots argument qualifier false = some root)
      (h : Forall₂ TypeExpr.Alike ts ts') :
    TypeExpr.Alike (.importType argument qualifier ts false)
      (.reference ⟨root :: pathAfterRoot qualifier⟩ ts')
  | inlinedQuery {argument root : String} {qualifier : Option Entity} {ts ts' : List TypeExpr}
      (hr : inlinedRoot roots argument qualifier true = some root)
      (h : Forall₂ TypeExpr.Alike ts ts') :
    TypeExpr.Alike (.importType argument qualifier ts true)
      (.query ⟨root :: pathAfterRoot qualifier⟩ ts')
  | predicate (asserts : Bool) (parameter : String) {t t' : Option TypeExpr}
      (h : Option.Rel TypeExpr.Alike t t') :
    TypeExpr.Alike (.predicate asserts parameter t) (.predicate asserts parameter t')
  | parenthesized {t t' : TypeExpr} (h : TypeExpr.Alike t t') :
    TypeExpr.Alike (.parenthesized t) (.parenthesized t')
  | template (head : String) {ss ss' : List TemplateSpan}
      (h : Forall₂ TemplateSpan.Alike ss ss') :
    TypeExpr.Alike (.template head ss) (.template head ss')
  | verbatim {tokens tokens' : List Token} (h : Forall₂ Token.Alike tokens tokens') :
    TypeExpr.Alike (.verbatim tokens) (.verbatim tokens')

/-- Type parameters with one identity whose names may differ. -/
inductive TypeParameter.Alike : TypeParameter → TypeParameter → Prop
  | mk (id : Option DeclId) (name name' : String) {c c' f f' : Option TypeExpr}
      (keywords : List String) (hc : Option.Rel TypeExpr.Alike c c')
      (hf : Option.Rel TypeExpr.Alike f f') :
    TypeParameter.Alike ⟨id, name, c, f, keywords⟩ ⟨id, name', c', f', keywords⟩

/-- Parameters with one name and types that are alike. -/
inductive Parameter.Alike : Parameter → Parameter → Prop
  | mk (name : String) (modifiers : Modifiers) (optionality rest : Bool) {t t' : Option TypeExpr}
      (h : Option.Rel TypeExpr.Alike t t') :
    Parameter.Alike ⟨name, modifiers, optionality, rest, t⟩
      ⟨name, modifiers, optionality, rest, t'⟩

/-- Elements of a tuple type with one label and types that are alike. -/
inductive TupleElement.Alike : TupleElement → TupleElement → Prop
  | mk (name : Option String) (optionality rest : Bool) {t t' : TypeExpr}
      (h : TypeExpr.Alike t t') :
    TupleElement.Alike ⟨name, optionality, rest, t⟩ ⟨name, optionality, rest, t'⟩

/-- Spans with one text after types that are alike. -/
inductive TemplateSpan.Alike : TemplateSpan → TemplateSpan → Prop
  | mk {t t' : TypeExpr} (literal : String) (h : TypeExpr.Alike t t') :
    TemplateSpan.Alike ⟨t, literal⟩ ⟨t', literal⟩

/-- Members of one kind with one set of modifiers, alike in their names, signatures and types. -/
inductive Member.Alike : Member → Member → Prop
  | property {name name' : PropertyName} (modifiers : Modifiers) (optionality : Bool)
      {t t' : Option TypeExpr} (hn : name.Alike name') (h : Option.Rel TypeExpr.Alike t t') :
    Member.Alike (.property name modifiers optionality t) (.property name' modifiers optionality t')
  | method {name name' : PropertyName} (modifiers : Modifiers) (optionality : Bool)
      {tps tps' : List TypeParameter} {ps ps' : List Parameter} {t t' : Option TypeExpr}
      (hn : name.Alike name') (ht : Forall₂ TypeParameter.Alike tps tps')
      (hp : Forall₂ Parameter.Alike ps ps') (h : Option.Rel TypeExpr.Alike t t') :
    Member.Alike (.method name modifiers optionality tps ps t)
      (.method name' modifiers optionality tps' ps' t')
  | call {tps tps' : List TypeParameter} {ps ps' : List Parameter} {t t' : Option TypeExpr}
      (ht : Forall₂ TypeParameter.Alike tps tps') (hp : Forall₂ Parameter.Alike ps ps')
      (h : Option.Rel TypeExpr.Alike t t') : Member.Alike (.call tps ps t) (.call tps' ps' t')
  | construct {tps tps' : List TypeParameter} {ps ps' : List Parameter} {t t' : Option TypeExpr}
      (ht : Forall₂ TypeParameter.Alike tps tps') (hp : Forall₂ Parameter.Alike ps ps')
      (h : Option.Rel TypeExpr.Alike t t') :
    Member.Alike (.construct tps ps t) (.construct tps' ps' t')
  | index (modifiers : Modifiers) {ps ps' : List Parameter} {t t' : TypeExpr}
      (hp : Forall₂ Parameter.Alike ps ps') (h : TypeExpr.Alike t t') :
    Member.Alike (.index modifiers ps t) (.index modifiers ps' t')
  | initializer (modifiers : Modifiers) {ps ps' : List Parameter}
      (hp : Forall₂ Parameter.Alike ps ps') :
    Member.Alike (.initializer modifiers ps) (.initializer modifiers ps')
  | getter {name name' : PropertyName} (modifiers : Modifiers) {t t' : Option TypeExpr}
      (hn : name.Alike name') (h : Option.Rel TypeExpr.Alike t t') :
    Member.Alike (.getter name modifiers t) (.getter name' modifiers t')
  | setter {name name' : PropertyName} (modifiers : Modifiers) {ps ps' : List Parameter}
      (hn : name.Alike name') (hp : Forall₂ Parameter.Alike ps ps') :
    Member.Alike (.setter name modifiers ps) (.setter name' modifiers ps')
end

/-- Heritage clauses alike in their name and its arguments. -/
structure Heritage.Alike (h h' : Heritage) : Prop where
  expression : h.expression.Alike h'.expression
  arguments : Forall₂ (TypeExpr.Alike roots) h.arguments h'.arguments

/-- Declarators with one identity and one initializer whose names may differ. -/
structure Declarator.Alike (d d' : Declarator) : Prop where
  id : d'.id = d.id
  initializer : d'.initializer = d.initializer
  ascription : Option.Rel (TypeExpr.Alike roots) d.ascription d'.ascription

mutual
/-- Declarations of one kind that differ in the names inside at most. A namespace body may gain one
export list, for members under other names. -/
inductive DeclarationKind.Alike : DeclarationKind → DeclarationKind → Prop
  | interface (name name' : String) {tps tps' : List TypeParameter} {bases bases' : List Heritage}
      {ms ms' : List Member} (ht : Forall₂ (TypeParameter.Alike roots) tps tps')
      (hb : Forall₂ (Heritage.Alike roots) bases bases')
      (hm : Forall₂ (Member.Alike roots) ms ms') :
    DeclarationKind.Alike (.interface name tps bases ms) (.interface name' tps' bases' ms')
  | classLike (name name' : Option String) {tps tps' : List TypeParameter}
      {base base' : Option Heritage} {implemented implemented' : List Heritage}
      {ms ms' : List Member} (ht : Forall₂ (TypeParameter.Alike roots) tps tps')
      (hb : Option.Rel (Heritage.Alike roots) base base')
      (hi : Forall₂ (Heritage.Alike roots) implemented implemented')
      (hm : Forall₂ (Member.Alike roots) ms ms') :
    DeclarationKind.Alike (.classLike name tps base implemented ms)
      (.classLike name' tps' base' implemented' ms')
  | function (name name' : Option String) {tps tps' : List TypeParameter} {ps ps' : List Parameter}
      {t t' : Option TypeExpr} (ht : Forall₂ (TypeParameter.Alike roots) tps tps')
      (hp : Forall₂ (Parameter.Alike roots) ps ps')
      (h : Option.Rel (TypeExpr.Alike roots) t t') :
    DeclarationKind.Alike (.function name tps ps t) (.function name' tps' ps' t')
  | variableList (flavor : Flavor) {ds ds' : List Declarator}
      (h : Forall₂ (Declarator.Alike roots) ds ds') :
    DeclarationKind.Alike (.variableList flavor ds) (.variableList flavor ds')
  | enumeration (name name' : String) (ms : List EnumMember) :
    DeclarationKind.Alike (.enumeration name ms) (.enumeration name' ms)
  | typeAlias (name name' : String) {tps tps' : List TypeParameter} {t t' : TypeExpr}
      (ht : Forall₂ (TypeParameter.Alike roots) tps tps') (h : TypeExpr.Alike roots t t') :
    DeclarationKind.Alike (.typeAlias name tps t) (.typeAlias name' tps' t')
  | namespaceBlock (name name' : String) (moduleKeyword : Bool) {body body' : List Statement}
      (h : BodyAlike body body') :
    DeclarationKind.Alike (.namespaceBlock name moduleKeyword body)
      (.namespaceBlock name' moduleKeyword body')

/-- Declarations with one identity, one set of modifiers and one position, and kinds that are
alike. -/
inductive Declaration.Alike : Declaration → Declaration → Prop
  | mk (id : Option DeclId) (modifiers : Modifiers) (pos : Option Position)
      {k k' : DeclarationKind} (h : DeclarationKind.Alike k k') :
    Declaration.Alike ⟨id, modifiers, pos, k⟩ ⟨id, modifiers, pos, k'⟩

/-- Statements of a namespace body. -/
inductive Statement.AlikeInBody : Statement → Statement → Prop
  | declaration {d d' : Declaration} (h : Declaration.Alike d d')
      (hn : Free.memberNames (.declaration d') = Free.memberNames (.declaration d)) :
    Statement.AlikeInBody (.declaration d) (.declaration d')
  | unexported {d d' : Declaration} (h : Declaration.Alike d d')
      (hn : Free.memberNames (.declaration d') ≠ Free.memberNames (.declaration d)) :
    Statement.AlikeInBody (.declaration d)
      (.declaration { d' with modifiers := d.modifiers.erase .exported })
  | imports (i : ImportStatement) (f : String → String) :
    Statement.AlikeInBody (.imports i) (.imports { i with
      default := i.default.map f
      namespaceName := i.namespaceName.map f
      named := i.named.map fun x => { x with binding := f x.binding } })
  | exports (specifiers : List ExportSpecifier) (typeOnly : Bool) (f : String → String) :
    Statement.AlikeInBody (.exports ⟨specifiers, none, typeOnly⟩)
      (.exports ⟨specifiers.map fun x => { x with binding := f x.binding }, none, typeOnly⟩)
  | exportsFrom (specifiers : List ExportSpecifier) (source : String) (typeOnly : Bool) :
    Statement.AlikeInBody (.exports ⟨specifiers, some source, typeOnly⟩)
      (.exports ⟨specifiers, some source, typeOnly⟩)
  | exportAll (source : String) (name : Option String) :
    Statement.AlikeInBody (.exportAll source name) (.exportAll source name)
  | exportDefault (expression expression' : String) :
    Statement.AlikeInBody (.exportDefault expression) (.exportDefault expression')
  | exportAssignment (expression expression' : String) :
    Statement.AlikeInBody (.exportAssignment expression) (.exportAssignment expression')
  | verbatim {tokens tokens' : List Token} (pos : Option Position)
      (h : Forall₂ Token.Alike tokens tokens') :
    Statement.AlikeInBody (.verbatim tokens pos) (.verbatim tokens' pos)

/-- Namespace bodies. A list at the end exports members whose declaration is exported in the body
and comes under other names; it gives each under the name that it had. -/
inductive BodyAlike : List Statement → List Statement → Prop
  | same {body body' : List Statement} (h : Forall₂ Statement.AlikeInBody body body') :
    BodyAlike body body'
  | exporting {body kept : List Statement} {specifiers : List ExportSpecifier}
      (h : Forall₂ Statement.AlikeInBody body kept) (hne : specifiers ≠ [])
      (hx : ∀ x ∈ specifiers, ∃ d d', (Statement.declaration d, Statement.declaration d')
          ∈ body.zip kept ∧ d.modifiers.exported = true
        ∧ Free.memberNames (.declaration d') ≠ Free.memberNames (.declaration d)
        ∧ (x.exported, x.binding)
          ∈ (Free.memberNames (.declaration d)).zip (Free.memberNames (.declaration d'))) :
    BodyAlike body (kept ++ [.exports ⟨specifiers, none, false⟩])
end

/-- Statements of a module. -/
inductive Statement.Alike : Statement → Statement → Prop
  | declaration {d d' : Declaration} (h : d.Alike roots d') :
    Alike (.declaration d) (.declaration d')
  | imports (i : ImportStatement) : Alike (.imports i) (.imports i)
  | exports (e : ExportList) : Alike (.exports e) (.exports e)
  | exportAll (source : String) (name : Option String) :
    Alike (.exportAll source name) (.exportAll source name)
  | exportDefault (expression : String) :
    Alike (.exportDefault expression) (.exportDefault expression)
  | exportAssignment (expression : String) :
    Alike (.exportAssignment expression) (.exportAssignment expression)
  | verbatim {tokens tokens' : List Token} (pos : Option Position)
      (h : Forall₂ Token.Alike tokens tokens') :
    Alike (.verbatim tokens pos) (.verbatim tokens' pos)

/-- One module with its statements alike, one by one. -/
structure ModuleTree.Alike (t t' : ModuleTree) : Prop where
  module : t'.module = t.module
  path : t'.path = t.path
  statements : Forall₂ (Statement.Alike roots) t.statements t'.statements

end

end DeclBundle
