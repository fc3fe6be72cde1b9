import DeclBundle.Tree.Identity

/-!
# Numbered trees

The identities of a tree that was numbered from `n` on are `n`, `n + 1`, … in the order of the walk,
as many as the tree has binding positions (`Statement.listSlots_assignList`). Those of its top-level
declarations and declarators are some of them, in the same order.
-/

namespace DeclBundle

/-- As many identities as asked for, one after the other from `n` on. -/
def consecutive (n : DeclId) (count : Nat) : List (Option DeclId) :=
  (List.range' n count).map some

@[simp] theorem consecutive_zero (n : DeclId) : consecutive n 0 = [] := rfl

@[simp] theorem consecutive_succ (n : DeclId) (k : Nat) :
    consecutive n (k + 1) = some n :: consecutive (n + 1) k := rfl

theorem consecutive_add (n : DeclId) (j k : Nat) :
    consecutive n (j + k) = consecutive n j ++ consecutive (n + j) k := by
  unfold consecutive
  rw [← List.map_append, List.range'_append_1]

theorem nodup_consecutive (n : DeclId) (k : Nat) : (consecutive n k).Nodup := by
  refine List.nodup_iff_pairwise_ne.2 (List.pairwise_map.2 ?_)
  exact (List.nodup_iff_pairwise_ne.1 (List.nodup_range' (s := n) (n := k))).imp
    fun h he => h (Option.some.inj he)

theorem mem_consecutive {n : DeclId} {k : Nat} {id : Option DeclId} :
    id ∈ consecutive n k ↔ ∃ i, id = some i ∧ n ≤ i ∧ i < n + k := by
  simp only [consecutive, List.mem_map, List.mem_range'_1]
  constructor
  · rintro ⟨i, hi, rfl⟩
    exact ⟨i, rfl, hi⟩
  · rintro ⟨i, rfl, hi⟩
    exact ⟨i, hi, rfl⟩

namespace TypeExpr

mutual
theorem slots_assign (n : DeclId) :
    ∀ t : TypeExpr, (t.assign n).slots = consecutive n t.slots.length
  | .keyword _ | .literal _ | .verbatim _ => rfl
  | .reference _ ts | .query _ ts | .importType _ _ ts _ | .union ts | .intersection ts => by
    simpa only [assign, slots] using listSlots_assignList n ts
  | .array t | .operator _ t | .parenthesized t => by
    simpa only [assign, slots] using slots_assign n t
  | .tuple es => by simpa only [assign, slots] using elementSlots_assign n es
  | .function tps ps t | .construct _ tps ps t => by
    simp only [assign, slots, typeParameterSlots_assign, parameterSlots_assign, slots_assign,
      List.length_append, consecutive_add, Nat.add_assoc,
      List.append_assoc]
  | .object ms => by simpa only [assign, slots] using memberSlots_assign n ms
  | .indexed t u => by
    simp only [assign, slots, slots_assign, List.length_append, consecutive_add]
  | .conditional t u v w => by
    simp only [assign, slots, slots_assign, List.length_append, consecutive_add, Nat.add_assoc,
      List.append_assoc]
  | .infer p => by simpa only [assign, slots] using oneSlots_assign n p
  | .mapped p t _ _ u => by
    simp only [assign, slots, oneSlots_assign, optionSlots_assign, List.length_append,
      consecutive_add, Nat.add_assoc,
      List.append_assoc]
  | .predicate _ _ t => by simpa only [assign, slots] using optionSlots_assign n t
  | .template _ ss => by simpa only [assign, slots] using spanSlots_assign n ss

theorem optionSlots_assign (n : DeclId) :
    ∀ t : Option TypeExpr, optionSlots (assignOption n t) = consecutive n (optionSlots t).length
  | none => rfl
  | some t => by simpa only [assignOption, optionSlots] using slots_assign n t

theorem listSlots_assignList (n : DeclId) :
    ∀ ts : List TypeExpr, listSlots (assignList n ts) = consecutive n (listSlots ts).length
  | [] => rfl
  | t :: ts => by
    simp only [assignList, listSlots, slots_assign, listSlots_assignList, List.length_append,
      consecutive_add]

theorem oneSlots_assign (n : DeclId) :
    ∀ p : TypeParameter, oneSlots (assignOne n p) = consecutive n (oneSlots p).length
  | ⟨_, _, t, u, _⟩ => by
    simp only [assignOne, oneSlots, optionSlots_assign, List.cons_append, List.length_cons,
      List.length_append, consecutive_succ, consecutive_add]

theorem typeParameterSlots_assign (n : DeclId) : ∀ ps : List TypeParameter,
    typeParameterSlots (assignTypeParameters n ps) = consecutive n (typeParameterSlots ps).length
  | [] => rfl
  | p :: ps => by
    simp only [assignTypeParameters, typeParameterSlots, oneSlots_assign,
      typeParameterSlots_assign, List.length_append, consecutive_add]

theorem parameterSlots_assign (n : DeclId) : ∀ ps : List Parameter,
    parameterSlots (assignParameters n ps) = consecutive n (parameterSlots ps).length
  | [] => rfl
  | ⟨_, _, _, _, t⟩ :: ps => by
    simp only [assignParameters, parameterSlots, optionSlots_assign, parameterSlots_assign,
      List.length_append, consecutive_add]

theorem elementSlots_assign (n : DeclId) : ∀ es : List TupleElement,
    elementSlots (assignElements n es) = consecutive n (elementSlots es).length
  | [] => rfl
  | ⟨_, _, _, t⟩ :: es => by
    simp only [assignElements, elementSlots, slots_assign, elementSlots_assign,
      List.length_append, consecutive_add]

theorem spanSlots_assign (n : DeclId) : ∀ ss : List TemplateSpan,
    spanSlots (assignSpans n ss) = consecutive n (spanSlots ss).length
  | [] => rfl
  | ⟨t, _⟩ :: ss => by
    simp only [assignSpans, spanSlots, slots_assign, spanSlots_assign, List.length_append,
      consecutive_add]

theorem memberSlots_assign (n : DeclId) : ∀ ms : List Member,
    memberSlots (assignMembers n ms) = consecutive n (memberSlots ms).length
  | [] => rfl
  | m :: ms => by
    simp only [assignMembers, memberSlots, oneMemberSlots_assign, memberSlots_assign,
      List.length_append, consecutive_add]

theorem oneMemberSlots_assign (n : DeclId) :
    ∀ m : Member, oneMemberSlots (assignMember n m) = consecutive n (oneMemberSlots m).length
  | .property _ _ _ t | .getter _ _ t => by
    simpa only [assignMember, oneMemberSlots] using optionSlots_assign n t
  | .method _ _ _ tps ps t | .call tps ps t | .construct tps ps t => by
    simp only [assignMember, oneMemberSlots, typeParameterSlots_assign, parameterSlots_assign,
      optionSlots_assign, List.length_append, consecutive_add, Nat.add_assoc,
      List.append_assoc]
  | .index _ ps t => by
    simp only [assignMember, oneMemberSlots, parameterSlots_assign, slots_assign,
      List.length_append, consecutive_add]
  | .initializer _ ps | .setter _ _ ps => by
    simpa only [assignMember, oneMemberSlots] using parameterSlots_assign n ps
end

end TypeExpr

open TypeExpr

theorem Heritage.listSlots_nil : Heritage.listSlots [] = [] := rfl

theorem Heritage.listSlots_cons (h : Heritage) (hs : List Heritage) :
    Heritage.listSlots (h :: hs) = TypeExpr.listSlots h.arguments ++ Heritage.listSlots hs := rfl

theorem Heritage.listSlots_assignList (n : DeclId) : ∀ hs : List Heritage,
    Heritage.listSlots (Heritage.assignList n hs) = consecutive n (Heritage.listSlots hs).length
  | [] => rfl
  | h :: hs => by
    simp only [Heritage.assignList, Heritage.listSlots_cons, TypeExpr.listSlots_assignList,
      Heritage.listSlots_assignList, List.length_append, consecutive_add]

theorem Declarator.listSlots_cons (d : Declarator) (ds : List Declarator) :
    Declarator.listSlots (d :: ds)
      = d.id :: (optionSlots d.ascription ++ Declarator.listSlots ds) := rfl

theorem Declarator.listSlots_assignList (n : DeclId) : ∀ ds : List Declarator,
    Declarator.listSlots (Declarator.assignList n ds)
      = consecutive n (Declarator.listSlots ds).length
  | [] => rfl
  | d :: ds => by
    simp only [Declarator.assignList, Declarator.listSlots_cons, optionSlots_assign,
      Declarator.listSlots_assignList, List.length_cons, List.length_append, consecutive_succ,
      consecutive_add]

mutual
theorem Statement.slots_assign (n : DeclId) :
    ∀ s : Statement, (s.assign n).slots = consecutive n s.slots.length
  | .declaration d => by simpa only [Statement.assign, Statement.slots] using d.slots_assign n
  | .imports _ | .exports _ | .exportAll _ _ | .exportDefault _ | .exportAssignment _
  | .verbatim _ _ => rfl

/-- The identities of numbered statements are consecutive. -/
theorem Statement.listSlots_assignList (n : DeclId) : ∀ ss : List Statement,
    Statement.listSlots (Statement.assignList n ss) = consecutive n (Statement.listSlots ss).length
  | [] => rfl
  | s :: ss => by
    simp only [Statement.assignList, Statement.listSlots, Statement.slots_assign,
      Statement.listSlots_assignList, List.length_append, consecutive_add]

theorem Declaration.slots_assign (n : DeclId) :
    ∀ d : Declaration, (d.assign n).slots = consecutive n d.slots.length
  | ⟨_, _, _, kind⟩ => by
    simp only [Declaration.assign, Declaration.slots, kind.slots_assign, List.length_cons,
      consecutive_succ]

theorem DeclarationKind.slots_assign (n : DeclId) :
    ∀ k : DeclarationKind, (k.assign n).slots = consecutive n k.slots.length
  | .interface _ tps bases ms => by
    simp only [DeclarationKind.assign, DeclarationKind.slots, typeParameterSlots_assign,
      Heritage.listSlots_assignList, memberSlots_assign, List.length_append, consecutive_add,
      Nat.add_assoc,
      List.append_assoc]
  | .classLike _ tps base implemented ms => by
    have hb : ∀ k, Heritage.listSlots (base.map fun h =>
        { h with arguments := TypeExpr.assignList k h.arguments }).toList
          = consecutive k (Heritage.listSlots base.toList).length := by
      intro k
      cases base with
      | none => rfl
      | some h =>
        simp only [Option.map_some, Option.toList_some, Heritage.listSlots_cons,
          Heritage.listSlots_nil, TypeExpr.listSlots_assignList, List.append_nil]
    simp only [DeclarationKind.assign, DeclarationKind.slots, typeParameterSlots_assign, hb,
      Heritage.listSlots_assignList, memberSlots_assign, List.length_append, consecutive_add,
      Nat.add_assoc, List.append_assoc]
  | .function _ tps ps t => by
    simp only [DeclarationKind.assign, DeclarationKind.slots, typeParameterSlots_assign,
      parameterSlots_assign, optionSlots_assign, List.length_append, consecutive_add,
      Nat.add_assoc,
      List.append_assoc]
  | .variableList _ ds => by
    simpa only [DeclarationKind.assign, DeclarationKind.slots]
      using Declarator.listSlots_assignList n ds
  | .enumeration _ _ => rfl
  | .typeAlias _ tps t => by
    simp only [DeclarationKind.assign, DeclarationKind.slots, typeParameterSlots_assign,
      TypeExpr.slots_assign, List.length_append, consecutive_add]
  | .namespaceBlock _ _ body => by
    simpa only [DeclarationKind.assign, DeclarationKind.slots]
      using Statement.listSlots_assignList n body
end

end DeclBundle
