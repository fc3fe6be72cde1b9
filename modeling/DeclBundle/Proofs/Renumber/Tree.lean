import DeclBundle.Proofs.Store

/-!
# Trees under other identities

Changing the identities in a tree changes neither the names that it binds nor those that it refers
to. A tree that is numbered from another place on is the same tree under other identities
(`Statement.renumberList_assignList`).
-/

namespace DeclBundle

/-- The `count` identities from `n` on become those from `n'` on. -/
def Shifts (f : DeclId → DeclId) (n n' : DeclId) (count : Nat) : Prop :=
  ∀ i < count, f (n + i) = n' + i

section
variable {f : DeclId → DeclId} {n n' : DeclId} {j k : Nat}

theorem Shifts.left (h : Shifts f n n' (j + k)) : Shifts f n n' j :=
  fun i hi => h i (Nat.lt_add_right k hi)

theorem Shifts.right (h : Shifts f n n' (j + k)) : Shifts f (n + j) (n' + j) k := fun i hi => by
  rw [Nat.add_assoc, Nat.add_assoc]
  exact h (j + i) (Nat.add_lt_add_left hi j)

theorem Shifts.head (h : Shifts f n n' (k + 1)) : f n = n' := h 0 k.succ_pos

theorem Shifts.tail (h : Shifts f n n' (k + 1)) : Shifts f (n + 1) (n' + 1) k := by
  rw [Nat.add_comm] at h
  exact h.right

end

namespace TypeExpr

variable (f : DeclId → DeclId)

mutual
/-- The type with its identities changed by `f`. -/
def renumber : TypeExpr → TypeExpr
  | .keyword name => .keyword name
  | .literal text => .literal text
  | .verbatim tokens => .verbatim tokens
  | .reference name arguments => .reference name (renumberList arguments)
  | .query name arguments => .query name (renumberList arguments)
  | .importType argument qualifier arguments isTypeOf =>
    .importType argument qualifier (renumberList arguments) isTypeOf
  | .array element => .array (renumber element)
  | .tuple elements => .tuple (renumberElements elements)
  | .union types => .union (renumberList types)
  | .intersection types => .intersection (renumberList types)
  | .function tps ps result =>
    .function (renumberTypeParameters tps) (renumberParameters ps) (renumber result)
  | .construct isAbstract tps ps result =>
    .construct isAbstract (renumberTypeParameters tps) (renumberParameters ps) (renumber result)
  | .object members => .object (renumberMembers members)
  | .operator op target => .operator op (renumber target)
  | .indexed obj index => .indexed (renumber obj) (renumber index)
  | .conditional check bound onTrue onFalse =>
    .conditional (renumber check) (renumber bound) (renumber onTrue) (renumber onFalse)
  | .infer p => .infer (renumberOne p)
  | .mapped key nameType readonly optional target =>
    .mapped (renumberOne key) (renumberOption nameType) readonly optional (renumberOption target)
  | .predicate asserts parameter target => .predicate asserts parameter (renumberOption target)
  | .parenthesized inner => .parenthesized (renumber inner)
  | .template head spans => .template head (renumberSpans spans)

/-- A type that may be missing, renumbered. -/
def renumberOption : Option TypeExpr → Option TypeExpr
  | none => none
  | some t => some (renumber t)

/-- A list of types, renumbered. -/
def renumberList : List TypeExpr → List TypeExpr
  | [] => []
  | t :: ts => renumber t :: renumberList ts

/-- A type parameter, renumbered. -/
def renumberOne : TypeParameter → TypeParameter
  | ⟨id, name, constraint, fallback, keywords⟩ =>
    ⟨id.map f, name, renumberOption constraint, renumberOption fallback, keywords⟩

/-- Type parameters, renumbered. -/
def renumberTypeParameters : List TypeParameter → List TypeParameter
  | [] => []
  | p :: ps => renumberOne p :: renumberTypeParameters ps

/-- Parameters, renumbered in their types. -/
def renumberParameters : List Parameter → List Parameter
  | [] => []
  | ⟨name, modifiers, optional, rest, ascription⟩ :: ps =>
    ⟨name, modifiers, optional, rest, renumberOption ascription⟩ :: renumberParameters ps

/-- The elements of a tuple type, renumbered. -/
def renumberElements : List TupleElement → List TupleElement
  | [] => []
  | ⟨name, optional, rest, element⟩ :: es =>
    ⟨name, optional, rest, renumber element⟩ :: renumberElements es

/-- The types in a template literal type, renumbered. -/
def renumberSpans : List TemplateSpan → List TemplateSpan
  | [] => []
  | ⟨type, text⟩ :: ss => ⟨renumber type, text⟩ :: renumberSpans ss

/-- A list of members, renumbered. -/
def renumberMembers : List Member → List Member
  | [] => []
  | m :: ms => renumberMember m :: renumberMembers ms

/-- A member, renumbered in its signature or its type. -/
def renumberMember : Member → Member
  | .property name modifiers optional ascription =>
    .property name modifiers optional (renumberOption ascription)
  | .method name modifiers optional tps ps result =>
    .method name modifiers optional (renumberTypeParameters tps) (renumberParameters ps)
      (renumberOption result)
  | .call tps ps result =>
    .call (renumberTypeParameters tps) (renumberParameters ps) (renumberOption result)
  | .construct tps ps result =>
    .construct (renumberTypeParameters tps) (renumberParameters ps) (renumberOption result)
  | .index modifiers ps ascription =>
    .index modifiers (renumberParameters ps) (renumber ascription)
  | .initializer modifiers ps => .initializer modifiers (renumberParameters ps)
  | .getter name modifiers result => .getter name modifiers (renumberOption result)
  | .setter name modifiers ps => .setter name modifiers (renumberParameters ps)
end

end TypeExpr

open TypeExpr

section
variable (f : DeclId → DeclId)

/-- A heritage clause, renumbered in its arguments. -/
def Heritage.renumber (h : Heritage) : Heritage :=
  { h with arguments := TypeExpr.renumberList f h.arguments }

/-- A declarator with its own identity and those in its type renumbered. -/
def Declarator.renumber (d : Declarator) : Declarator :=
  { d with id := d.id.map f, ascription := renumberOption f d.ascription }

mutual
/-- The statement with its identities changed by `f`. -/
def Statement.renumber : Statement → Statement
  | .declaration d => .declaration (Declaration.renumber d)
  | s => s

/-- A list of statements, renumbered. -/
def Statement.renumberList : List Statement → List Statement
  | [] => []
  | s :: ss => Statement.renumber s :: Statement.renumberList ss

/-- A declaration with its own identity and those inside renumbered. -/
def Declaration.renumber : Declaration → Declaration
  | ⟨id, modifiers, pos, kind⟩ => ⟨id.map f, modifiers, pos, DeclarationKind.renumber kind⟩

/-- A declaration of any kind, renumbered in its parts. -/
def DeclarationKind.renumber : DeclarationKind → DeclarationKind
  | .interface name tps bases members =>
    .interface name (renumberTypeParameters f tps) (bases.map (Heritage.renumber f))
      (renumberMembers f members)
  | .classLike name tps base implemented members =>
    .classLike name (renumberTypeParameters f tps) (base.map (Heritage.renumber f))
      (implemented.map (Heritage.renumber f)) (renumberMembers f members)
  | .function name tps ps result =>
    .function name (renumberTypeParameters f tps) (renumberParameters f ps)
      (renumberOption f result)
  | .variableList flavor declarators =>
    .variableList flavor (declarators.map (Declarator.renumber f))
  | .enumeration name members => .enumeration name members
  | .typeAlias name tps target =>
    .typeAlias name (renumberTypeParameters f tps) (TypeExpr.renumber f target)
  | .namespaceBlock name moduleKeyword body =>
    .namespaceBlock name moduleKeyword (Statement.renumberList body)
end

theorem TypeExpr.renumberTypeParameters_eq (ps : List TypeParameter) :
    renumberTypeParameters f ps = ps.map (renumberOne f) := by
  induction ps with
  | nil => rfl
  | cons p ps ih => rw [renumberTypeParameters, ih, List.map_cons]

theorem Statement.renumberList_eq (ss : List Statement) :
    Statement.renumberList f ss = ss.map (Statement.renumber f) := by
  induction ss with
  | nil => rfl
  | cons s ss ih => rw [Statement.renumberList, ih, List.map_cons]

end

/-! ## Numbering from another place on -/

section
variable {f : DeclId → DeclId}

namespace TypeExpr

mutual
theorem renumber_assign : ∀ (t : TypeExpr) {n n' : DeclId}, Shifts f n n' t.slots.length →
    (t.assign n).renumber f = t.assign n'
  | .keyword _, _, _, _ | .literal _, _, _, _ | .verbatim _, _, _, _ => rfl
  | .reference _ ts, _, _, h | .query _ ts, _, _, h | .importType _ _ ts _, _, _, h
  | .union ts, _, _, h | .intersection ts, _, _, h => by
    simp only [assign, renumber, renumberList_assignList ts h]
  | .array t, _, _, h | .operator _ t, _, _, h | .parenthesized t, _, _, h => by
    simp only [assign, renumber, renumber_assign t h]
  | .tuple es, _, _, h => by simp only [assign, renumber, renumberElements_assign es h]
  | .function tps ps t, _, _, h | .construct _ tps ps t, _, _, h => by
    simp only [slots, List.length_append, Nat.add_assoc] at h
    simp only [assign, renumber, renumberTypeParameters_assign tps h.left,
      renumberParameters_assign ps h.right.left, renumber_assign t h.right.right]
  | .object ms, _, _, h => by simp only [assign, renumber, renumberMembers_assign ms h]
  | .indexed t u, _, _, h => by
    simp only [slots, List.length_append] at h
    simp only [assign, renumber, renumber_assign t h.left, renumber_assign u h.right]
  | .conditional t u v w, _, _, h => by
    simp only [slots, List.length_append, Nat.add_assoc] at h
    simp only [assign, renumber, renumber_assign t h.left, renumber_assign u h.right.left,
      renumber_assign v h.right.right.left, renumber_assign w h.right.right.right]
  | .infer p, _, _, h => by simp only [assign, renumber, renumberOne_assign p h]
  | .mapped p t _ _ u, _, _, h => by
    simp only [slots, List.length_append, Nat.add_assoc] at h
    simp only [assign, renumber, renumberOne_assign p h.left, renumberOption_assign t h.right.left,
      renumberOption_assign u h.right.right]
  | .predicate _ _ t, _, _, h => by simp only [assign, renumber, renumberOption_assign t h]
  | .template _ ss, _, _, h => by simp only [assign, renumber, renumberSpans_assign ss h]

theorem renumberOption_assign : ∀ (t : Option TypeExpr) {n n' : DeclId},
    Shifts f n n' (optionSlots t).length →
      renumberOption f (assignOption n t) = assignOption n' t
  | none, _, _, _ => rfl
  | some t, _, _, h => by simp only [assignOption, renumberOption, renumber_assign t h]

theorem renumberList_assignList : ∀ (ts : List TypeExpr) {n n' : DeclId},
    Shifts f n n' (listSlots ts).length → renumberList f (assignList n ts) = assignList n' ts
  | [], _, _, _ => rfl
  | t :: ts, _, _, h => by
    simp only [listSlots, List.length_append] at h
    simp only [assignList, renumberList, renumber_assign t h.left,
      renumberList_assignList ts h.right]

theorem renumberOne_assign : ∀ (p : TypeParameter) {n n' : DeclId},
    Shifts f n n' (oneSlots p).length → renumberOne f (assignOne n p) = assignOne n' p
  | ⟨_, _, t, u, _⟩, _, _, h => by
    simp only [oneSlots, List.length_append, List.length_cons, Nat.add_right_comm _ 1] at h
    simp only [assignOne, renumberOne, Option.map_some, h.head,
      renumberOption_assign t h.tail.left, renumberOption_assign u h.tail.right]

theorem renumberTypeParameters_assign : ∀ (ps : List TypeParameter) {n n' : DeclId},
    Shifts f n n' (typeParameterSlots ps).length →
      renumberTypeParameters f (assignTypeParameters n ps) = assignTypeParameters n' ps
  | [], _, _, _ => rfl
  | p :: ps, _, _, h => by
    simp only [typeParameterSlots, List.length_append] at h
    simp only [assignTypeParameters, renumberTypeParameters, renumberOne_assign p h.left,
      renumberTypeParameters_assign ps h.right]

theorem renumberParameters_assign : ∀ (ps : List Parameter) {n n' : DeclId},
    Shifts f n n' (parameterSlots ps).length →
      renumberParameters f (assignParameters n ps) = assignParameters n' ps
  | [], _, _, _ => rfl
  | ⟨_, _, _, _, t⟩ :: ps, _, _, h => by
    simp only [parameterSlots, List.length_append] at h
    simp only [assignParameters, renumberParameters, renumberOption_assign t h.left,
      renumberParameters_assign ps h.right]

theorem renumberElements_assign : ∀ (es : List TupleElement) {n n' : DeclId},
    Shifts f n n' (elementSlots es).length →
      renumberElements f (assignElements n es) = assignElements n' es
  | [], _, _, _ => rfl
  | ⟨_, _, _, t⟩ :: es, _, _, h => by
    simp only [elementSlots, List.length_append] at h
    simp only [assignElements, renumberElements, renumber_assign t h.left,
      renumberElements_assign es h.right]

theorem renumberSpans_assign : ∀ (ss : List TemplateSpan) {n n' : DeclId},
    Shifts f n n' (spanSlots ss).length → renumberSpans f (assignSpans n ss) = assignSpans n' ss
  | [], _, _, _ => rfl
  | ⟨t, _⟩ :: ss, _, _, h => by
    simp only [spanSlots, List.length_append] at h
    simp only [assignSpans, renumberSpans, renumber_assign t h.left,
      renumberSpans_assign ss h.right]

theorem renumberMembers_assign : ∀ (ms : List Member) {n n' : DeclId},
    Shifts f n n' (memberSlots ms).length →
      renumberMembers f (assignMembers n ms) = assignMembers n' ms
  | [], _, _, _ => rfl
  | m :: ms, _, _, h => by
    simp only [memberSlots, List.length_append] at h
    simp only [assignMembers, renumberMembers, renumberMember_assign m h.left,
      renumberMembers_assign ms h.right]

theorem renumberMember_assign : ∀ (m : Member) {n n' : DeclId},
    Shifts f n n' (oneMemberSlots m).length →
      renumberMember f (assignMember n m) = assignMember n' m
  | .property _ _ _ t, _, _, h | .getter _ _ t, _, _, h => by
    simp only [assignMember, renumberMember, renumberOption_assign t h]
  | .method _ _ _ tps ps t, _, _, h | .call tps ps t, _, _, h | .construct tps ps t, _, _, h => by
    simp only [oneMemberSlots, List.length_append, Nat.add_assoc] at h
    simp only [assignMember, renumberMember, renumberTypeParameters_assign tps h.left,
      renumberParameters_assign ps h.right.left, renumberOption_assign t h.right.right]
  | .index _ ps t, _, _, h => by
    simp only [oneMemberSlots, List.length_append] at h
    simp only [assignMember, renumberMember, renumberParameters_assign ps h.left,
      renumber_assign t h.right]
  | .initializer _ ps, _, _, h | .setter _ _ ps, _, _, h => by
    simp only [assignMember, renumberMember, renumberParameters_assign ps h]
end

end TypeExpr

theorem Heritage.renumber_assignList : ∀ (hs : List Heritage) {n n' : DeclId},
    Shifts f n n' (Heritage.listSlots hs).length →
      (Heritage.assignList n hs).map (Heritage.renumber f) = Heritage.assignList n' hs
  | [], _, _, _ => rfl
  | x :: hs, _, _, h => by
    simp only [Heritage.listSlots_cons, List.length_append] at h
    simp only [Heritage.assignList, List.map_cons, Heritage.renumber,
      renumberList_assignList x.arguments h.left, Heritage.renumber_assignList hs h.right]

theorem Declarator.renumber_assignList : ∀ (ds : List Declarator) {n n' : DeclId},
    Shifts f n n' (Declarator.listSlots ds).length →
      (Declarator.assignList n ds).map (Declarator.renumber f) = Declarator.assignList n' ds
  | [], _, _, _ => rfl
  | d :: ds, _, _, h => by
    simp only [Declarator.listSlots_cons, List.length_append, List.length_cons] at h
    simp only [Declarator.assignList, List.map_cons, Declarator.renumber, Option.map_some, h.head,
      renumberOption_assign d.ascription h.tail.left,
      Declarator.renumber_assignList ds h.tail.right]

mutual
theorem Statement.renumber_assign : ∀ (s : Statement) {n n' : DeclId},
    Shifts f n n' s.slots.length → (s.assign n).renumber f = s.assign n'
  | .declaration d, _, _, h => by
    simp only [Statement.assign, Statement.renumber, Declaration.renumber_assign d h]
  | .imports _, _, _, _ | .exports _, _, _, _ | .exportAll .., _, _, _
  | .exportDefault _, _, _, _ | .exportAssignment _, _, _, _ | .verbatim .., _, _, _ => rfl

theorem Statement.renumberList_assignList : ∀ (ss : List Statement) {n n' : DeclId},
    Shifts f n n' (Statement.listSlots ss).length →
      Statement.renumberList f (Statement.assignList n ss) = Statement.assignList n' ss
  | [], _, _, _ => rfl
  | s :: ss, _, _, h => by
    simp only [Statement.listSlots, List.length_append] at h
    simp only [Statement.assignList, Statement.renumberList, Statement.renumber_assign s h.left,
      Statement.renumberList_assignList ss h.right]

theorem Declaration.renumber_assign : ∀ (d : Declaration) {n n' : DeclId},
    Shifts f n n' d.slots.length → (d.assign n).renumber f = d.assign n'
  | ⟨_, _, _, kind⟩, _, _, h => by
    simp only [Declaration.assign, Declaration.renumber, Option.map_some, h.head,
      DeclarationKind.renumber_assign kind h.tail]

theorem DeclarationKind.renumber_assign : ∀ (k : DeclarationKind) {n n' : DeclId},
    Shifts f n n' k.slots.length → (k.assign n).renumber f = k.assign n'
  | .interface _ tps bases ms, _, _, h => by
    simp only [DeclarationKind.slots, List.length_append, Nat.add_assoc] at h
    simp only [DeclarationKind.assign, DeclarationKind.renumber,
      renumberTypeParameters_assign tps h.left, Heritage.renumber_assignList bases h.right.left,
      renumberMembers_assign ms h.right.right]
  | .classLike _ tps base implemented ms, n, n', h => by
    simp only [DeclarationKind.slots, List.length_append, Nat.add_assoc] at h
    have hbase : ∀ {n n' : DeclId}, Shifts f n n' (Heritage.listSlots base.toList).length →
        (base.map fun x => { x with arguments := TypeExpr.assignList n x.arguments }).map
            (Heritage.renumber f)
          = base.map fun x => { x with arguments := TypeExpr.assignList n' x.arguments } := by
      intro n n' h
      cases base with
      | none => rfl
      | some x =>
        simp only [Option.toList_some, Heritage.listSlots_cons, Heritage.listSlots_nil,
          List.append_nil] at h
        simp only [Option.map_some, Heritage.renumber, renumberList_assignList x.arguments h]
    simp only [DeclarationKind.assign, DeclarationKind.renumber,
      renumberTypeParameters_assign tps h.left, hbase h.right.left,
      Heritage.renumber_assignList implemented h.right.right.left,
      renumberMembers_assign ms h.right.right.right]
  | .function _ tps ps t, _, _, h => by
    simp only [DeclarationKind.slots, List.length_append, Nat.add_assoc] at h
    simp only [DeclarationKind.assign, DeclarationKind.renumber,
      renumberTypeParameters_assign tps h.left, renumberParameters_assign ps h.right.left,
      renumberOption_assign t h.right.right]
  | .variableList _ ds, _, _, h => by
    simp only [DeclarationKind.assign, DeclarationKind.renumber,
      Declarator.renumber_assignList ds h]
  | .enumeration _ _, _, _, _ => rfl
  | .typeAlias _ tps t, _, _, h => by
    simp only [DeclarationKind.slots, List.length_append] at h
    simp only [DeclarationKind.assign, DeclarationKind.renumber,
      renumberTypeParameters_assign tps h.left, TypeExpr.renumber_assign t h.right]
  | .namespaceBlock _ _ body, _, _, h => by
    simp only [DeclarationKind.assign, DeclarationKind.renumber,
      Statement.renumberList_assignList body h]
end

end

end DeclBundle
