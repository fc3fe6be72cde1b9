import DeclBundle.Names.Rename

/-!
# Renaming by asking

Renaming reads at its site what the names from outside become. Here it has to ask: the same walk is
a computation that stops at every name that no local binding has, and at every import type, and goes
on with the answer. Under the answers of a site it gives what renaming gives there
(`Inquire.run_declaration`), whatever the answers are, so what it asks is all that renaming has from
outside.
-/

namespace DeclBundle

@[simp] theorem Named.pure_bind (a : α) (f : α → Named β) : (pure a >>= f) = f a := rfl

/-- A computation that asks what references become, and notes the final names of bindings. -/
inductive Asking (α : Type) where
  | done (a : α)
  | note (binding : DeclId × String) (rest : Asking α)
  | ask (r : Reference) (next : Option String → Asking α)

namespace Asking

/-- One inquiry after the other, the second made from the result of the first. -/
protected def bind : Asking α → (α → Asking β) → Asking β
  | done a, f => f a
  | note b rest, f => note b (rest.bind f)
  | ask r next, f => ask r fun answer => (next answer).bind f

/-- Inquiries follow one another. -/
instance : Monad Asking where
  pure := done
  bind := Asking.bind

/-- Asks for one reference. -/
def question (r : Reference) : Asking (Option String) := ask r done

/-- A part that is renamed without asking. -/
def silent (x : Named α) : Asking α := x.nested.foldr note (done x.value)

variable (answers : Reference → Option String)

/-- The outcome under the answers. -/
def run : Asking α → Named α
  | done a => pure a
  | note b rest => (⟨(), [b]⟩ : Named Unit) >>= fun _ => rest.run
  | ask r next => (next (answers r)).run

/-- What is asked under the answers, in order. -/
def asked : Asking α → List Reference
  | done _ => []
  | note _ rest => rest.asked
  | ask r next => r :: (next (answers r)).asked

@[simp] theorem run_pure (a : α) : (pure a : Asking α).run answers = pure a := rfl

@[simp] theorem run_bind (x : Asking α) (f : α → Asking β) :
    (x >>= f).run answers = x.run answers >>= fun a => (f a).run answers := by
  induction x with
  | done a => rfl
  | note b rest ih => exact congrArg (fun y => (⟨(), [b]⟩ : Named Unit) >>= fun _ => y) ih
  | ask r next ih => exact ih (answers r)

@[simp] theorem run_question (r : Reference) : (question r).run answers = pure (answers r) := rfl

@[simp] theorem run_silent (x : Named α) : (silent x).run answers = x := by
  obtain ⟨a, bs⟩ := x
  induction bs with
  | nil => rfl
  | cons b bs ih => exact congrArg (fun y => (⟨(), [b]⟩ : Named Unit) >>= fun _ => y) ih

@[simp] theorem asked_pure (a : α) : (pure a : Asking α).asked answers = [] := rfl

@[simp] theorem asked_bind (x : Asking α) (f : α → Asking β) :
    (x >>= f).asked answers
      = x.asked answers ++ (f (x.run answers).value).asked answers := by
  induction x with
  | done a => rfl
  | note b rest ih => exact ih
  | ask r next ih => exact congrArg (r :: ·) (ih (answers r))

@[simp] theorem asked_question (r : Reference) : (question r).asked answers = [r] := rfl

@[simp] theorem asked_silent (x : Named α) : (silent x).asked answers = [] := by
  obtain ⟨a, bs⟩ := x
  induction bs with
  | nil => rfl
  | cons b bs ih => exact ih

/-- The answers that are not asked for do not matter. -/
theorem run_congr {answers answers' : Reference → Option String} {x : Asking α}
    (h : ∀ r ∈ x.asked answers, answers r = answers' r) : x.run answers = x.run answers' := by
  induction x with
  | done a => rfl
  | note b rest ih => exact congrArg (fun y => (⟨(), [b]⟩ : Named Unit) >>= fun _ => y) (ih h)
  | ask r next ih =>
    obtain ⟨hr, hn⟩ := List.forall_mem_cons.1 h
    rw [run, run, ← hr]
    exact ih _ hn

end Asking

namespace Site

/-- What a site knows of references that no local binding has. -/
def answer (s : Site) : Reference → Option String
  | .name name => s.outer name
  | .importType specifier qualifier => s.importRoot specifier qualifier

/-- The site with other answers. -/
def answering (s : Site) (answers : Reference → Option String) : Site :=
  { s with
    outer name := answers (.name name)
    importRoot specifier qualifier := answers (.importType specifier qualifier) }

/-- The site that knows nothing of outside. -/
def blind (s : Site) : Site := s.answering fun _ => none

end Site

/-! ## The walk -/

namespace Inquire

/-- The final name of a use, asked for unless a local binding has it. -/
def finalName? (s : Site) (name : String) (space : Space) : Asking (Option String) :=
  match s.local? name space with
  | some l => pure (some l.name)
  | none => .question (.name name)

/-- What a reference is asked to become. -/
def reference? (s : Site) : Reference → Asking (Option String)
  | .name name => finalName? s name .both
  | .importType specifier qualifier => .question (.importType specifier qualifier)

/-- A dotted name, after asking for its root. -/
def entity (s : Site) (space : Space) (e : Entity) : Asking Entity := do
  match ← finalName? s e.root space with
  | some name => return if name = e.root then e else e.setRoot name
  | none => return e

/-- A plain name, after asking for it. -/
def plainName (s : Site) (name : String) : Asking String :=
  return (← finalName? s name .both).getD name

/-- Verbatim tokens, after asking for each identifier. -/
def tokens (s : Site) : List Token → Asking (List Token)
  | [] => pure []
  | .text text :: ts => return .text text :: (← tokens s ts)
  | .identifier name :: ts => return .identifier (← plainName s name) :: (← tokens s ts)

/-- The name of a member, after asking for the root of a computed one. -/
def propertyName (s : Site) : PropertyName → Asking PropertyName
  | .computed e => if e.root = "Symbol" then pure (.computed e)
    else return .computed (← entity s .value e)
  | name => pure name

/-- An import type is always asked for, also where the answer cannot be used. -/
def importType (argument : String) (qualifier : Option Entity) (arguments : List TypeExpr)
    (isTypeOf : Bool) : Asking TypeExpr := do
  let answer ← .question (.importType argument (qualifier.map Entity.root))
  match if qualifier.isNone && !isTypeOf then none else answer with
  | none => return .importType argument qualifier arguments isTypeOf
  | some name =>
    let path := ((qualifier.map Entity.segments).getD []).drop 1
    return if isTypeOf then .query ⟨name :: path⟩ arguments else .reference ⟨name :: path⟩ arguments

mutual
/-- A type, after asking for every name in it that is not bound inside. -/
def type (s : Site) : TypeExpr → Asking TypeExpr
  | .keyword name => pure (.keyword name)
  | .literal text => pure (.literal text)
  | .reference name arguments => return .reference (← entity s .type name) (← types s arguments)
  | .query name arguments => return .query (← entity s .value name) (← types s arguments)
  | .array element => return .array (← type s element)
  | .tuple es => return .tuple (← elements s es)
  | .union ts => return .union (← types s ts)
  | .intersection ts => return .intersection (← types s ts)
  | .function tps ps result => do
    let (names, inner) := s.enterTypes (tps.map (·.name))
    let tps ← typeParameters inner names tps
    let body := inner.enterParameters (ps.map (·.name))
    return .function tps (← parameters body ps) (← type body result)
  | .construct isAbstract tps ps result => do
    let (names, inner) := s.enterTypes (tps.map (·.name))
    let tps ← typeParameters inner names tps
    let body := inner.enterParameters (ps.map (·.name))
    return .construct isAbstract tps (← parameters body ps) (← type body result)
  | .object ms => return .object (← members s ms)
  | .operator op target => return .operator op (← type s target)
  | .indexed object index => return .indexed (← type s object) (← type s index)
  | .conditional check bound onTrue onFalse => do
    let check ← type s check
    let (_, inner) := s.enterTypes bound.inferredNames
    return .conditional check (← type inner bound) (← type inner onTrue) (← type s onFalse)
  | .infer ⟨id, name, constraint, fallback, keywords⟩ => do
    let final ← finalName? s name .type
    .silent (Named.note (if final.isSome then id else none) (final.getD name))
    return .infer ⟨id, final.getD name, ← option s constraint, ← option s fallback, keywords⟩
  | .mapped ⟨id, name, constraint, fallback, keywords⟩ nameType readonly optionality target => do
    let constraint ← option s constraint
    let fallback ← option s fallback
    let (names, inner) := s.enterTypes [name]
    let name := names.headD name
    .silent (Named.note id name)
    return .mapped ⟨id, name, constraint, fallback, keywords⟩ (← option inner nameType) readonly
      optionality (← option inner target)
  | .importType argument qualifier arguments isTypeOf => do
    importType argument qualifier (← types s arguments) isTypeOf
  | .predicate asserts parameter target => return .predicate asserts parameter (← option s target)
  | .parenthesized inner => return .parenthesized (← type s inner)
  | .template head ss => return .template head (← spans s ss)
  | .verbatim ts => return .verbatim (← tokens s ts)

/-- A type that may be missing. -/
def option (s : Site) : Option TypeExpr → Asking (Option TypeExpr)
  | none => pure none
  | some t => return some (← type s t)

/-- A list of types, in order. -/
def types (s : Site) : List TypeExpr → Asking (List TypeExpr)
  | [] => pure []
  | t :: ts => return (← type s t) :: (← types s ts)

/-- Type parameters under the given names, after asking for what is in their bounds. -/
def typeParameters (s : Site) (names : List String) :
    List TypeParameter → Asking (List TypeParameter)
  | [] => pure []
  | ⟨id, name, constraint, fallback, keywords⟩ :: ps => do
    let final := names.headD name
    .silent (Named.note id final)
    let constraint ← option s constraint
    let fallback ← option s fallback
    return ⟨id, final, constraint, fallback, keywords⟩ :: (← typeParameters s names.tail ps)

/-- Parameters, after asking for what is in their types. -/
def parameters (s : Site) : List Parameter → Asking (List Parameter)
  | [] => pure []
  | ⟨name, modifiers, optionality, rest, ascription⟩ :: ps => do
    let ascription ← option s ascription
    return ⟨name, modifiers, optionality, rest, ascription⟩ :: (← parameters s ps)

/-- The elements of a tuple type. -/
def elements (s : Site) : List TupleElement → Asking (List TupleElement)
  | [] => pure []
  | ⟨name, optionality, rest, element⟩ :: es => do
    let element ← type s element
    return ⟨name, optionality, rest, element⟩ :: (← elements s es)

/-- The types in a template literal type. -/
def spans (s : Site) : List TemplateSpan → Asking (List TemplateSpan)
  | [] => pure []
  | ⟨t, literal⟩ :: ss => do
    let t ← type s t
    return ⟨t, literal⟩ :: (← spans s ss)

/-- A list of members, in order. -/
def members (s : Site) : List Member → Asking (List Member)
  | [] => pure []
  | m :: ms => return (← member s m) :: (← members s ms)

/-- A member, after asking for what is in its name and types. -/
def member (s : Site) : Member → Asking Member
  | .property name modifiers optionality ascription =>
    return .property (← propertyName s name) modifiers optionality (← option s ascription)
  | .method name modifiers optionality tps ps result => do
    let name ← propertyName s name
    let (names, inner) := s.enterTypes (tps.map (·.name))
    let tps ← typeParameters inner names tps
    let body := inner.enterParameters (ps.map (·.name))
    return .method name modifiers optionality tps (← parameters body ps) (← option body result)
  | .call tps ps result => do
    let (names, inner) := s.enterTypes (tps.map (·.name))
    let tps ← typeParameters inner names tps
    let body := inner.enterParameters (ps.map (·.name))
    return .call tps (← parameters body ps) (← option body result)
  | .construct tps ps result => do
    let (names, inner) := s.enterTypes (tps.map (·.name))
    let tps ← typeParameters inner names tps
    let body := inner.enterParameters (ps.map (·.name))
    return .construct tps (← parameters body ps) (← option body result)
  | .index modifiers ps ascription =>
    return .index modifiers (← parameters s ps) (← type s ascription)
  | .initializer modifiers ps => return .initializer modifiers (← parameters s ps)
  | .getter name modifiers result =>
    return .getter (← propertyName s name) modifiers (← option s result)
  | .setter name modifiers ps =>
    return .setter (← propertyName s name) modifiers (← parameters s ps)
end

/-- A heritage clause, after asking for its name and arguments. -/
def heritage (s : Site) (h : Heritage) : Asking Heritage :=
  return ⟨← entity s .type h.expression, ← types s h.arguments⟩

/-- A list of heritage clauses, in order. -/
def heritages (s : Site) : List Heritage → Asking (List Heritage)
  | [] => pure []
  | h :: hs => return (← heritage s h) :: (← heritages s hs)

/-- Declarators, after asking for what is in their types. -/
def declarators (s : Site) : List Declarator → Asking (List Declarator)
  | [] => pure []
  | d :: ds => do
    let ascription ← option s d.ascription
    return { d with ascription } :: (← declarators s ds)

/-- The final names of references. -/
def finalNames (s : Site) : List Reference → Asking (List String)
  | [] => pure []
  | r :: rs => return (← reference? s r).toList ++ (← finalNames s rs)

/-- The final names of the outside bindings that a namespace with this body refers to: asked for
before its members are renamed. -/
def capturedNames (s : Site) (body : List Statement) : Asking (List String) :=
  finalNames s (Analysis.ofOccurrences (Free.inBody (Free.bodyBinders body) body)).references

/-- The names of an export list, after asking for each. -/
def specifiers (s : Site) : List ExportSpecifier → Asking (List ExportSpecifier)
  | [] => pure []
  | x :: xs => do
    let binding ← plainName s x.binding
    return { x with binding } :: (← specifiers s xs)

mutual
/-- A declaration of any kind, after asking for what is in it. -/
def kind (s : Site) : DeclarationKind → Asking DeclarationKind
  | .interface name tps bases ms => do
    let (names, inner) := s.enterTypes (tps.map (·.name))
    return .interface name (← typeParameters inner names tps) (← heritages inner bases)
      (← members inner ms)
  | .classLike name tps none implemented ms => do
    let (names, inner) := s.enterTypes (tps.map (·.name))
    return .classLike name (← typeParameters inner names tps) none (← heritages inner implemented)
      (← members inner ms)
  | .classLike name tps (some base) implemented ms => do
    let expression ← entity s .value base.expression
    let (names, inner) := s.enterTypes (tps.map (·.name))
    return .classLike name (← typeParameters inner names tps)
      (some ⟨expression, ← types inner base.arguments⟩) (← heritages inner implemented)
      (← members inner ms)
  | .function name tps ps result => do
    let (names, inner) := s.enterTypes (tps.map (·.name))
    let tps ← typeParameters inner names tps
    let body := inner.enterParameters (ps.map (·.name))
    return .function name tps (← parameters body ps) (← option body result)
  | .variableList flavor ds => return .variableList flavor (← declarators s ds)
  | .enumeration name ms => pure (.enumeration name ms)
  | .typeAlias name tps target => do
    let (names, inner) := s.enterTypes (tps.map (·.name))
    return .typeAlias name (← typeParameters inner names tps) (← type inner target)
  | .namespaceBlock name moduleKeyword body => do
    let captured ← capturedNames s body
    let (renamed, inner) := s.enterBody captured ((Free.bodyBinders body).map Prod.fst)
    let body ← statements inner body
    return .namespaceBlock name moduleKeyword (← .silent (Rename.finishBody renamed body))

/-- A declaration, after asking for what is in it. -/
def declaration (s : Site) : Declaration → Asking Declaration
  | ⟨id, modifiers, pos, k⟩ => return ⟨id, modifiers, pos, ← kind s k⟩

/-- A list of statements, in order. -/
def statements (s : Site) : List Statement → Asking (List Statement)
  | [] => pure []
  | x :: xs => return (← statement s x) :: (← statements s xs)

/-- A statement, after asking for what is in it. -/
def statement (s : Site) : Statement → Asking Statement
  | .declaration d => return .declaration (← declaration s d)
  | .exports ⟨xs, none, typeOnly⟩ => return .exports ⟨← specifiers s xs, none, typeOnly⟩
  | .exportDefault expression => return .exportDefault (← plainName s expression)
  | .exportAssignment expression => return .exportAssignment (← plainName s expression)
  | .verbatim ts pos => return .verbatim (← tokens s ts) pos
  | .imports i => pure (.imports i)
  | .exports e => pure (.exports e)
  | .exportAll source name => pure (.exportAll source name)
end

/-! ## What the walk gives -/

section

variable (a : Reference → Option String)

@[simp] theorem enterTypes_answering (s : Site) (names : List String) :
    (s.answering a).enterTypes names
      = ((s.enterTypes names).1, (s.enterTypes names).2.answering a) := rfl

@[simp] theorem enterParameters_answering (s : Site) (names : List String) :
    (s.answering a).enterParameters names = (s.enterParameters names).answering a := rfl

@[simp] theorem enterBody_answering (s : Site) (captured members : List String) :
    (s.answering a).enterBody captured members
      = ((s.enterBody captured members).1, (s.enterBody captured members).2.answering a) := rfl

@[simp] theorem run_finalName? (s : Site) (name : String) (space : Space) :
    (finalName? s name space).run a = pure ((s.answering a).finalName? name space) := by
  have hl : (s.answering a).local? name space = s.local? name space := rfl
  rw [finalName?, Site.finalName?, hl]
  cases s.local? name space <;> rfl

@[simp] theorem run_reference? (s : Site) (r : Reference) :
    (reference? s r).run a = pure ((s.answering a).reference? r) := by
  cases r with
  | name name => exact run_finalName? a s name .both
  | importType specifier qualifier => rfl

@[simp] theorem run_entity (s : Site) (space : Space) (e : Entity) :
    (entity s space e).run a = pure (Rename.entity (s.answering a) space e) := by
  rw [entity, Asking.run_bind, run_finalName?, Rename.entity]
  cases (s.answering a).finalName? e.root space <;> rfl

@[simp] theorem run_plainName (s : Site) (name : String) :
    (plainName s name).run a = pure (Rename.plainName (s.answering a) name) := by
  rw [plainName, Asking.run_bind, run_finalName?]
  rfl

@[simp] theorem run_tokens (s : Site) : ∀ ts : List Token,
    (tokens s ts).run a = pure (Rename.tokens (s.answering a) ts)
  | [] => rfl
  | .text _ :: ts | .identifier _ :: ts => by
    simp only [tokens, Asking.run_bind, Asking.run_pure, run_plainName, run_tokens s ts]
    rfl

@[simp] theorem run_propertyName (s : Site) (name : PropertyName) :
    (propertyName s name).run a = pure (Rename.propertyName (s.answering a) name) := by
  cases name with
  | computed e =>
    simp only [propertyName, Rename.propertyName]
    split
    · rfl
    · rw [Asking.run_bind, run_entity]
      rfl
  | _ => rfl

theorem run_importType (s : Site) (argument : String) (qualifier : Option Entity)
    (arguments : List TypeExpr) (isTypeOf : Bool) :
    (importType argument qualifier arguments isTypeOf).run a
      = pure (Rename.importType (s.answering a) argument qualifier arguments isTypeOf) := by
  have hi : (s.answering a).importRoot argument (qualifier.map Entity.root)
      = a (.importType argument (qualifier.map Entity.root)) := rfl
  rw [importType, Asking.run_bind, Asking.run_question, Rename.importType, hi]
  generalize a (.importType argument (qualifier.map Entity.root)) = answer
  cases isTypeOf <;> cases qualifier <;> cases answer <;> rfl

mutual
theorem run_type (s : Site) : ∀ t : TypeExpr, (type s t).run a = Rename.type (s.answering a) t
  | .keyword _ | .literal _ => rfl
  | .reference _ arguments | .query _ arguments => by
    simp [type, Rename.type, run_types s arguments]
  | .array element => by simp [type, Rename.type, run_type s element]
  | .tuple es => by simp [type, Rename.type, run_elements s es]
  | .union ts | .intersection ts => by simp [type, Rename.type, run_types s ts]
  | .function tps ps result | .construct _ tps ps result => by
    simp [type, Rename.type, run_typeParameters _ _ tps, run_parameters _ ps, run_type _ result]
  | .object ms => by simp [type, Rename.type, run_members s ms]
  | .operator _ target => by simp [type, Rename.type, run_type s target]
  | .indexed object index => by simp [type, Rename.type, run_type s object, run_type s index]
  | .conditional check bound onTrue onFalse => by
    simp [type, Rename.type, run_type _ check, run_type _ bound, run_type _ onTrue,
      run_type _ onFalse]
  | .infer ⟨_, _, constraint, fallback, _⟩ => by
    simp [type, Rename.type, run_option s constraint, run_option s fallback]
  | .mapped ⟨_, _, constraint, fallback, _⟩ nameType _ _ target => by
    simp [type, Rename.type, run_option s constraint, run_option s fallback, run_option _ nameType,
      run_option _ target]
  | .importType _ _ arguments _ => by
    simp [type, Rename.type, run_types s arguments, run_importType a s]
  | .predicate _ _ target => by simp [type, Rename.type, run_option s target]
  | .parenthesized inner => by simp [type, Rename.type, run_type s inner]
  | .template _ ss => by simp [type, Rename.type, run_spans s ss]
  | .verbatim _ => by simp [type, Rename.type]

theorem run_option (s : Site) : ∀ t : Option TypeExpr,
    (option s t).run a = Rename.option (s.answering a) t
  | none => rfl
  | some t => by simp [option, Rename.option, run_type s t]

theorem run_types (s : Site) : ∀ ts : List TypeExpr,
    (types s ts).run a = Rename.types (s.answering a) ts
  | [] => rfl
  | t :: ts => by simp [types, Rename.types, run_type s t, run_types s ts]

theorem run_typeParameters (s : Site) (names : List String) : ∀ ps : List TypeParameter,
    (typeParameters s names ps).run a = Rename.typeParameters (s.answering a) names ps
  | [] => rfl
  | ⟨_, _, constraint, fallback, _⟩ :: ps => by
    simp [typeParameters, Rename.typeParameters, run_option s constraint, run_option s fallback,
      run_typeParameters s names.tail ps]

theorem run_parameters (s : Site) : ∀ ps : List Parameter,
    (parameters s ps).run a = Rename.parameters (s.answering a) ps
  | [] => rfl
  | ⟨_, _, _, _, ascription⟩ :: ps => by
    simp [parameters, Rename.parameters, run_option s ascription, run_parameters s ps]

theorem run_elements (s : Site) : ∀ es : List TupleElement,
    (elements s es).run a = Rename.elements (s.answering a) es
  | [] => rfl
  | ⟨_, _, _, element⟩ :: es => by
    simp [elements, Rename.elements, run_type s element, run_elements s es]

theorem run_spans (s : Site) : ∀ ss : List TemplateSpan,
    (spans s ss).run a = Rename.spans (s.answering a) ss
  | [] => rfl
  | ⟨t, _⟩ :: ss => by simp [spans, Rename.spans, run_type s t, run_spans s ss]

theorem run_members (s : Site) : ∀ ms : List Member,
    (members s ms).run a = Rename.members (s.answering a) ms
  | [] => rfl
  | m :: ms => by simp [members, Rename.members, run_member s m, run_members s ms]

theorem run_member (s : Site) : ∀ m : Member,
    (member s m).run a = Rename.member (s.answering a) m
  | .property _ _ _ ascription => by
    simp [member, Rename.member, run_option s ascription]
  | .method _ _ _ tps ps result => by
    simp [member, Rename.member, run_typeParameters _ _ tps, run_parameters _ ps,
      run_option _ result]
  | .call tps ps result | .construct tps ps result => by
    simp [member, Rename.member, run_typeParameters _ _ tps, run_parameters _ ps,
      run_option _ result]
  | .index _ ps ascription => by
    simp [member, Rename.member, run_parameters s ps, run_type s ascription]
  | .initializer _ ps => by simp [member, Rename.member, run_parameters s ps]
  | .getter _ _ result => by simp [member, Rename.member, run_option s result]
  | .setter _ _ ps => by simp [member, Rename.member, run_parameters s ps]
end

theorem run_heritages (s : Site) : ∀ hs : List Heritage,
    (heritages s hs).run a = Rename.heritages (s.answering a) hs
  | [] => rfl
  | h :: hs => by
    simp [heritages, Rename.heritages, heritage, Rename.heritage, run_types a s h.arguments,
      run_heritages s hs]

theorem run_declarators (s : Site) : ∀ ds : List Declarator,
    (declarators s ds).run a = Rename.declarators (s.answering a) ds
  | [] => rfl
  | d :: ds => by
    simp [declarators, Rename.declarators, run_option a s d.ascription, run_declarators s ds]

theorem run_finalNames (s : Site) : ∀ rs : List Reference,
    (finalNames s rs).run a = pure (rs.filterMap (s.answering a).reference?)
  | [] => rfl
  | r :: rs => by
    rw [finalNames, Asking.run_bind, run_reference?, Named.pure_bind, Asking.run_bind,
      run_finalNames s rs, Named.pure_bind, List.filterMap_cons]
    cases (s.answering a).reference? r <;> rfl

@[simp] theorem run_capturedNames (s : Site) (body : List Statement) :
    (capturedNames s body).run a = pure (Rename.capturedNames (s.answering a) body) :=
  run_finalNames a s _

@[simp] theorem run_specifiers (s : Site) : ∀ xs : List ExportSpecifier,
    (specifiers s xs).run a
      = pure (xs.map fun x => { x with binding := Rename.plainName (s.answering a) x.binding })
  | [] => rfl
  | x :: xs => by simp [specifiers, run_specifiers s xs]

mutual
theorem run_kind (s : Site) : ∀ k : DeclarationKind,
    (kind s k).run a = Rename.kind (s.answering a) k
  | .interface _ tps bases ms => by
    simp [kind, Rename.kind, run_typeParameters a _ _ tps, run_heritages a _ bases,
      run_members a _ ms]
  | .classLike _ tps none implemented ms => by
    simp [kind, Rename.kind, run_typeParameters a _ _ tps, run_heritages a _ implemented,
      run_members a _ ms]
  | .classLike _ tps (some base) implemented ms => by
    simp [kind, Rename.kind, run_typeParameters a _ _ tps, run_types a _ base.arguments,
      run_heritages a _ implemented, run_members a _ ms]
  | .function _ tps ps result => by
    simp [kind, Rename.kind, run_typeParameters a _ _ tps, run_parameters a _ ps,
      run_option a _ result]
  | .variableList _ ds => by simp [kind, Rename.kind, run_declarators a s ds]
  | .enumeration .. => rfl
  | .typeAlias _ tps target => by
    simp [kind, Rename.kind, run_typeParameters a _ _ tps, run_type a _ target]
  | .namespaceBlock _ _ body => by simp [kind, Rename.kind, run_statements _ body]

theorem run_declaration (s : Site) : ∀ d : Declaration,
    (declaration s d).run a = Rename.declaration (s.answering a) d
  | ⟨_, _, _, k⟩ => by simp [declaration, Rename.declaration, run_kind s k]

theorem run_statements (s : Site) : ∀ xs : List Statement,
    (statements s xs).run a = Rename.statements (s.answering a) xs
  | [] => rfl
  | x :: xs => by simp [statements, Rename.statements, run_statement s x, run_statements s xs]

theorem run_statement (s : Site) : ∀ x : Statement,
    (statement s x).run a = Rename.statement (s.answering a) x
  | .declaration d => by simp [statement, Rename.statement, run_declaration s d]
  | .exports ⟨_, none, _⟩ | .exportDefault _ | .exportAssignment _ | .verbatim _ _ => by
    simp [statement, Rename.statement]
  | .imports _ | .exports ⟨_, some _, _⟩ | .exportAll .. => rfl
end

end

end Inquire

end DeclBundle
