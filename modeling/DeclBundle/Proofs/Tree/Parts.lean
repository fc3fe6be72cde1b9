import DeclBundle.Tree.Identity
import Mathlib.Data.List.Flatten

/-!
# The parts of a tree

A tree has nodes of several sorts. `Part` is a node of any sort, `Part.children` are the nodes right
below it from front to back, and `Part.parts` is the node with all that stands below it. A walk over
the parts does not depend on how the passes go through a tree, so what a pass visits can be compared
with it: the slots of a tree are the identities of its parts (`Statement.identities_eq_slots`).
-/

namespace DeclBundle

/-- A node of a tree, of whatever sort. -/
inductive Part where
  | statement (statement : Statement)
  | declaration (declaration : Declaration)
  | declarator (declarator : Declarator)
  | heritage (heritage : Heritage)
  | type (type : TypeExpr)
  | typeParameter (parameter : TypeParameter)
  | parameter (parameter : Parameter)
  | element (element : TupleElement)
  | span (span : TemplateSpan)
  | member (member : Member)

namespace Part

/-- What stands right below a signature. -/
@[simp] def ofSignature (tps : List TypeParameter) (ps : List Parameter) (result : Option TypeExpr) :
    List Part :=
  tps.map .typeParameter ++ ps.map .parameter ++ result.toList.map .type

/-- The nodes right below a type. -/
@[simp] def ofType : TypeExpr → List Part
  | .keyword _ | .literal _ | .verbatim _ => []
  | .reference _ arguments | .query _ arguments | .importType _ _ arguments _ =>
    arguments.map .type
  | .array t | .operator _ t | .parenthesized t => [.type t]
  | .tuple elements => elements.map .element
  | .union types | .intersection types => types.map .type
  | .function tps ps result | .construct _ tps ps result => ofSignature tps ps (some result)
  | .object members => members.map .member
  | .indexed object index => [.type object, .type index]
  | .conditional check bound onTrue onFalse =>
    [.type check, .type bound, .type onTrue, .type onFalse]
  | .infer p => [.typeParameter p]
  | .mapped key nameType _ _ target =>
    .typeParameter key :: (nameType.toList.map .type ++ target.toList.map .type)
  | .predicate _ _ target => target.toList.map .type
  | .template _ spans => spans.map .span

/-- The nodes right below a member. -/
@[simp] def ofMember : Member → List Part
  | .property _ _ _ ascription => ascription.toList.map .type
  | .method _ _ _ tps ps result | .call tps ps result | .construct tps ps result =>
    ofSignature tps ps result
  | .index _ ps ascription => ps.map .parameter ++ [.type ascription]
  | .initializer _ ps | .setter _ _ ps => ps.map .parameter
  | .getter _ _ result => result.toList.map .type

/-- The nodes right below a declaration of this kind. -/
@[simp] def ofKind : DeclarationKind → List Part
  | .interface _ tps bases members =>
    tps.map .typeParameter ++ bases.map .heritage ++ members.map .member
  | .classLike _ tps base implemented members =>
    tps.map .typeParameter ++ base.toList.map .heritage ++ implemented.map .heritage
      ++ members.map .member
  | .function _ tps ps result => ofSignature tps ps result
  | .variableList _ declarators => declarators.map .declarator
  | .enumeration _ _ => []
  | .typeAlias _ tps target => tps.map .typeParameter ++ [.type target]
  | .namespaceBlock _ _ body => body.map .statement

/-- The nodes right below a node, from front to back. -/
@[simp] def children : Part → List Part
  | .statement (.declaration d) => [.declaration d]
  | .statement _ => []
  | .declaration d => ofKind d.kind
  | .declarator d => d.ascription.toList.map .type
  | .heritage h => h.arguments.map .type
  | .type t => ofType t
  | .typeParameter p => p.constraint.toList.map .type ++ p.fallback.toList.map .type
  | .parameter p => p.ascription.toList.map .type
  | .element e => [.type e.element]
  | .span s => [.type s.type]
  | .member m => ofMember m

section
attribute [local grind =] statement.sizeOf_spec declaration.sizeOf_spec declarator.sizeOf_spec
  heritage.sizeOf_spec type.sizeOf_spec typeParameter.sizeOf_spec parameter.sizeOf_spec
  element.sizeOf_spec span.sizeOf_spec member.sizeOf_spec

theorem sizeOf_lt_of_mem_ofType {t : TypeExpr} {c : Part} (h : c ∈ ofType t) :
    sizeOf c < 1 + sizeOf t := by
  cases t <;> simp at h <;> grind [→ List.sizeOf_lt_of_mem]

theorem sizeOf_lt_of_mem_ofMember {m : Member} {c : Part} (h : c ∈ ofMember m) :
    sizeOf c < 1 + sizeOf m := by
  cases m <;> simp at h <;> grind [→ List.sizeOf_lt_of_mem]

theorem sizeOf_lt_of_mem_ofKind {k : DeclarationKind} {c : Part} (h : c ∈ ofKind k) :
    sizeOf c < 1 + sizeOf k := by
  cases k <;> simp at h <;> grind [→ List.sizeOf_lt_of_mem]

theorem sizeOf_lt_of_mem_children {p c : Part} (h : c ∈ p.children) : sizeOf c < sizeOf p := by
  cases p with
  | type t => simpa using sizeOf_lt_of_mem_ofType h
  | member m => simpa using sizeOf_lt_of_mem_ofMember h
  | statement s => cases s <;> simp at h; grind
  | declaration d =>
    have := sizeOf_lt_of_mem_ofKind h
    grind [cases Declaration]
  | _ =>
    simp at h
    grind [→ List.sizeOf_lt_of_mem, cases Declarator, cases Heritage, cases TypeParameter,
      cases Parameter, cases TupleElement, cases TemplateSpan]

end

/-- A node with all that stands below it, from front to back. -/
def parts (p : Part) : List Part :=
  p :: p.children.attach.flatMap fun c => c.1.parts
termination_by sizeOf p
decreasing_by exact sizeOf_lt_of_mem_children c.2

theorem parts_eq (p : Part) : p.parts = p :: p.children.flatMap parts := by
  rw [parts, List.flatMap_subtype fun _ _ => rfl, List.unattach_attach]

/-- What holds of a node and of all that stands below it. -/
def Throughout (P : Part → Prop) (p : Part) : Prop := ∀ q ∈ p.parts, P q

theorem throughout_iff {P : Part → Prop} {p : Part} :
    p.Throughout P ↔ P p ∧ ∀ c ∈ p.children, c.Throughout P := by
  rw [Throughout, parts_eq, List.forall_mem_cons]
  simp only [Throughout, List.forall_mem_flatMap]

/-- What a node has if the nodes right below have it, where something holds of all nodes. -/
theorem Throughout.induction {P Q : Part → Prop}
    (step : ∀ p, P p → (∀ c ∈ p.children, Q c) → Q p) (p : Part) (h : p.Throughout P) : Q p :=
  step p (throughout_iff.1 h).1 fun c hc =>
    Throughout.induction step c ((throughout_iff.1 h).2 c hc)
termination_by sizeOf p
decreasing_by exact sizeOf_lt_of_mem_children hc

/-! ## Identities -/

/-- The identity of a node that is a binding position, whether it has been given one or not. -/
def binds : Part → List (Option DeclId)
  | .declaration d => [d.id]
  | .declarator d => [d.id]
  | .typeParameter p => [p.id]
  | _ => []

/-- The identities of the binding positions in a node, a node before what stands below it. -/
def identities (p : Part) : List (Option DeclId) := p.parts.flatMap binds

theorem identities_eq (p : Part) :
    p.identities = p.binds ++ p.children.flatMap identities := by
  rw [identities, parts_eq, List.flatMap_cons, List.flatMap_assoc]
  rfl

open TypeExpr

mutual
theorem identities_type : ∀ t : TypeExpr, (type t).identities = t.slots
  | .keyword _ | .literal _ | .verbatim _ => by
    rw [identities_eq]
    rfl
  | .reference _ ts | .query _ ts | .importType _ _ ts _ | .union ts | .intersection ts => by
    rw [identities_eq]
    exact identities_types ts
  | .array t | .operator _ t | .parenthesized t => by
    rw [identities_eq]
    simp [binds, slots, identities_type t]
  | .tuple es => by
    rw [identities_eq]
    exact identities_elements es
  | .function tps ps t | .construct _ tps ps t => by
    rw [identities_eq]
    simp [binds, slots, identities_typeParameters tps, identities_parameters ps, identities_type t]
  | .object ms => by
    rw [identities_eq]
    exact identities_members ms
  | .indexed t u => by
    rw [identities_eq]
    simp [binds, slots, identities_type t, identities_type u]
  | .conditional t u v w => by
    rw [identities_eq]
    simp [binds, slots, identities_type t, identities_type u, identities_type v, identities_type w]
  | .infer p => by
    rw [identities_eq]
    simp [binds, slots, identities_typeParameter p]
  | .mapped p t _ _ u => by
    rw [identities_eq]
    simp [binds, slots, identities_typeParameter p, identities_option t, identities_option u]
  | .predicate _ _ t => by
    rw [identities_eq]
    exact identities_option t
  | .template _ ss => by
    rw [identities_eq]
    exact identities_spans ss

theorem identities_option : ∀ o : Option TypeExpr,
    (o.toList.map type).flatMap identities = optionSlots o
  | none => rfl
  | some t => by simp [optionSlots, identities_type t]

theorem identities_types : ∀ ts : List TypeExpr, (ts.map type).flatMap identities = listSlots ts
  | [] => rfl
  | t :: ts => by
    rw [List.map_cons, List.flatMap_cons, identities_type t, identities_types ts, listSlots]

theorem identities_typeParameter : ∀ p : TypeParameter, (typeParameter p).identities = oneSlots p
  | ⟨_, _, constraint, fallback, _⟩ => by
    rw [identities_eq]
    simp [binds, oneSlots, identities_option constraint, identities_option fallback]

theorem identities_typeParameters : ∀ ps : List TypeParameter,
    (ps.map typeParameter).flatMap identities = typeParameterSlots ps
  | [] => rfl
  | p :: ps => by
    rw [List.map_cons, List.flatMap_cons, identities_typeParameter p, identities_typeParameters ps,
      typeParameterSlots]

theorem identities_parameters : ∀ ps : List Parameter,
    (ps.map parameter).flatMap identities = parameterSlots ps
  | [] => rfl
  | ⟨_, _, _, _, ascription⟩ :: ps => by
    rw [List.map_cons, List.flatMap_cons, identities_parameters ps, identities_eq, parameterSlots]
    exact congrArg (· ++ _) (identities_option ascription)

theorem identities_elements : ∀ es : List TupleElement,
    (es.map element).flatMap identities = elementSlots es
  | [] => rfl
  | ⟨_, _, _, t⟩ :: es => by
    rw [List.map_cons, List.flatMap_cons, identities_elements es, identities_eq, elementSlots]
    simp [binds, identities_type t]

theorem identities_spans : ∀ ss : List TemplateSpan,
    (ss.map span).flatMap identities = spanSlots ss
  | [] => rfl
  | ⟨t, _⟩ :: ss => by
    rw [List.map_cons, List.flatMap_cons, identities_spans ss, identities_eq, spanSlots]
    simp [binds, identities_type t]

theorem identities_members : ∀ ms : List Member,
    (ms.map member).flatMap identities = memberSlots ms
  | [] => rfl
  | m :: ms => by
    rw [List.map_cons, List.flatMap_cons, identities_member m, identities_members ms, memberSlots]

theorem identities_member : ∀ m : Member, (member m).identities = oneMemberSlots m
  | .property _ _ _ t | .getter _ _ t => by
    rw [identities_eq]
    exact identities_option t
  | .method _ _ _ tps ps t | .call tps ps t | .construct tps ps t => by
    rw [identities_eq]
    simp [binds, oneMemberSlots, identities_typeParameters tps, identities_parameters ps,
      identities_option t]
  | .index _ ps t => by
    rw [identities_eq]
    simp [binds, oneMemberSlots, identities_parameters ps, identities_type t]
  | .initializer _ ps | .setter _ _ ps => by
    rw [identities_eq]
    exact identities_parameters ps
end

theorem identities_heritage (hs : List Heritage) :
    (hs.map heritage).flatMap identities = Heritage.listSlots hs := by
  rw [List.flatMap_map, Heritage.listSlots]
  congr 1
  funext h
  rw [identities_eq]
  exact identities_types h.arguments

theorem identities_declarators (ds : List Declarator) :
    (ds.map declarator).flatMap identities = Declarator.listSlots ds := by
  rw [List.flatMap_map, Declarator.listSlots]
  congr 1
  funext d
  rw [identities_eq]
  exact congrArg (d.id :: ·) (identities_option d.ascription)

mutual
/-- The slots of a statement are the identities of its binding positions. -/
theorem identities_statement : ∀ s : Statement, (statement s).identities = s.slots
  | .declaration d => by
    rw [identities_eq]
    simp [binds, Statement.slots, identities_declaration d]
  | .imports _ | .exports _ | .exportAll _ _ | .exportDefault _ | .exportAssignment _
  | .verbatim _ _ => by
    rw [identities_eq]
    rfl

theorem identities_statements : ∀ ss : List Statement,
    (ss.map statement).flatMap identities = Statement.listSlots ss
  | [] => rfl
  | s :: ss => by
    rw [List.map_cons, List.flatMap_cons, identities_statement s, identities_statements ss,
      Statement.listSlots]

theorem identities_declaration : ∀ d : Declaration, (declaration d).identities = d.slots
  | ⟨_, _, _, kind⟩ => by
    rw [identities_eq]
    exact congrArg (_ :: ·) (identities_kind kind)

theorem identities_kind : ∀ k : DeclarationKind, (ofKind k).flatMap identities = k.slots
  | .interface _ tps bases ms => by
    simp [DeclarationKind.slots, identities_typeParameters tps, identities_heritage bases,
      identities_members ms]
  | .classLike _ tps base implemented ms => by
    simp [DeclarationKind.slots, identities_typeParameters tps, identities_heritage,
      identities_members ms]
  | .function _ tps ps t => by
    simp [DeclarationKind.slots, identities_typeParameters tps, identities_parameters ps,
      identities_option t]
  | .variableList _ ds => identities_declarators ds
  | .enumeration _ _ => rfl
  | .typeAlias _ tps t => by
    simp [DeclarationKind.slots, identities_typeParameters tps, identities_type t]
  | .namespaceBlock _ _ body => identities_statements body
end

end Part

end DeclBundle
