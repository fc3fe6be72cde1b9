import DeclBundle.Proofs.Names.Finished
import DeclBundle.Proofs.Names.Naming
import DeclBundle.Proofs.Tree.Parts

/-!
# Identities that are noted

Renaming notes the final names of nested bindings under their identities. It notes an identity no
more often than it is the identity of a binding position in the tree (`Naming.noted_statement_le`),
so where all positions have identities of their own none is noted twice.
-/

namespace DeclBundle

/-- How often a part notes a name for an identity. -/
def Named.noted (x : Named α) (i : DeclId) : Nat := (x.nested.map Prod.fst).count i

namespace Named

variable (i : DeclId)

@[simp] theorem noted_pure (a : α) : (pure a : Named α).noted i = 0 := rfl

@[simp] theorem noted_bind (x : Named α) (f : α → Named β) :
    (x >>= f).noted i = x.noted i + (f x.value).noted i := by
  simp [noted]

@[simp] theorem noted_note (id : Option DeclId) (name : String) :
    (note id name).noted i = [id].count (some i) := by
  cases id <;> simp [noted, note, List.count_cons]

end Named

namespace Rename

open TypeExpr

variable (i : DeclId)

mutual
theorem noted_type_le (s : Site) : ∀ t : TypeExpr, (type s t).noted i ≤ t.slots.count (some i)
  | .keyword _ | .literal _ | .verbatim _ => Nat.le_refl 0
  | .reference _ ts | .query _ ts | .importType _ _ ts _ | .union ts | .intersection ts => by
    simpa [type, slots] using noted_types_le s ts
  | .array t | .operator _ t | .parenthesized t => by
    simpa [type, slots] using noted_type_le s t
  | .tuple es => by simpa [type, slots] using noted_elements_le s es
  | .function tps ps t | .construct _ tps ps t => by
    have htps := fun s names => noted_typeParameters_le s names tps
    have hps := fun s => noted_parameters_le s ps
    have ht := fun s => noted_type_le s t
    simp only [type, slots, Named.noted_bind, Named.noted_pure, List.count_append]
    grind
  | .object ms => by simpa [type, slots] using noted_members_le s ms
  | .indexed t u => by
    have ht := noted_type_le s t
    have hu := noted_type_le s u
    simp only [type, slots, Named.noted_bind, Named.noted_pure, List.count_append]
    omega
  | .conditional t u v w => by
    have ht := noted_type_le s t
    have hu := fun s => noted_type_le s u
    have hv := fun s => noted_type_le s v
    have hw := noted_type_le s w
    simp only [type, slots, Named.noted_bind, Named.noted_pure, List.count_append]
    grind
  | .infer ⟨id, name, constraint, fallback, _⟩ => by
    have hc := noted_option_le s constraint
    have hf := noted_option_le s fallback
    have hid : List.count (some i) [if (s.finalName? name .type).isSome then id else none]
        ≤ List.count (some i) [id] := by
      split <;> simp
    simp only [type, slots, oneSlots, Named.noted_bind, Named.noted_pure, Named.noted_note,
      List.count_append, List.count_cons, List.count_nil] at hid ⊢
    omega
  | .mapped ⟨id, name, constraint, fallback, _⟩ t _ _ u => by
    have hc := noted_option_le s constraint
    have hf := noted_option_le s fallback
    have ht := noted_option_le (s.enterTypes [name]).2 t
    have hu := noted_option_le (s.enterTypes [name]).2 u
    simp only [type, slots, oneSlots, Named.noted_bind, Named.noted_pure, Named.noted_note,
      List.count_append, List.count_cons, List.count_nil]
    omega
  | .predicate _ _ t => by simpa [type, slots] using noted_option_le s t
  | .template _ ss => by simpa [type, slots] using noted_spans_le s ss

theorem noted_option_le (s : Site) : ∀ t : Option TypeExpr,
    (option s t).noted i ≤ (optionSlots t).count (some i)
  | none => Nat.le_refl 0
  | some t => by simpa [option, optionSlots] using noted_type_le s t

theorem noted_types_le (s : Site) : ∀ ts : List TypeExpr,
    (types s ts).noted i ≤ (listSlots ts).count (some i)
  | [] => Nat.le_refl 0
  | t :: ts => by
    have ht := noted_type_le s t
    have hts := noted_types_le s ts
    simp only [types, listSlots, Named.noted_bind, Named.noted_pure, List.count_append]
    omega

theorem noted_elements_le (s : Site) : ∀ es : List TupleElement,
    (elements s es).noted i ≤ (elementSlots es).count (some i)
  | [] => Nat.le_refl 0
  | ⟨_, _, _, t⟩ :: es => by
    have ht := noted_type_le s t
    have hes := noted_elements_le s es
    simp only [elements, elementSlots, Named.noted_bind, Named.noted_pure, List.count_append]
    omega

theorem noted_typeParameters_le (s : Site) (names : List String) : ∀ ps : List TypeParameter,
    (typeParameters s names ps).noted i ≤ (typeParameterSlots ps).count (some i)
  | [] => Nat.le_refl 0
  | ⟨id, _, constraint, fallback, _⟩ :: ps => by
    have hc := noted_option_le s constraint
    have hf := noted_option_le s fallback
    have hps := noted_typeParameters_le s names.tail ps
    simp only [typeParameters, typeParameterSlots, oneSlots, Named.noted_bind, Named.noted_pure,
      Named.noted_note, List.count_append, List.count_cons, List.count_nil]
    omega

theorem noted_parameters_le (s : Site) : ∀ ps : List Parameter,
    (parameters s ps).noted i ≤ (parameterSlots ps).count (some i)
  | [] => Nat.le_refl 0
  | ⟨_, _, _, _, ascription⟩ :: ps => by
    have ha := noted_option_le s ascription
    have hps := noted_parameters_le s ps
    simp only [parameters, parameterSlots, Named.noted_bind, Named.noted_pure, List.count_append]
    omega

theorem noted_spans_le (s : Site) : ∀ ss : List TemplateSpan,
    (spans s ss).noted i ≤ (spanSlots ss).count (some i)
  | [] => Nat.le_refl 0
  | ⟨t, _⟩ :: ss => by
    have ht := noted_type_le s t
    have hss := noted_spans_le s ss
    simp only [spans, spanSlots, Named.noted_bind, Named.noted_pure, List.count_append]
    omega

theorem noted_members_le (s : Site) : ∀ ms : List Member,
    (members s ms).noted i ≤ (memberSlots ms).count (some i)
  | [] => Nat.le_refl 0
  | m :: ms => by
    have hm := noted_member_le s m
    have hms := noted_members_le s ms
    simp only [members, memberSlots, Named.noted_bind, Named.noted_pure, List.count_append]
    omega

theorem noted_member_le (s : Site) : ∀ m : Member,
    (member s m).noted i ≤ (oneMemberSlots m).count (some i)
  | .property _ _ _ t | .getter _ _ t => by simpa [member, oneMemberSlots] using noted_option_le s t
  | .method _ _ _ tps ps t | .call tps ps t | .construct tps ps t => by
    have htps := fun s names => noted_typeParameters_le s names tps
    have hps := fun s => noted_parameters_le s ps
    have ht := fun s => noted_option_le s t
    simp only [member, oneMemberSlots, Named.noted_bind, Named.noted_pure, List.count_append]
    grind
  | .index _ ps t => by
    have hps := noted_parameters_le s ps
    have ht := noted_type_le s t
    simp only [member, oneMemberSlots, Named.noted_bind, Named.noted_pure, List.count_append]
    omega
  | .initializer _ ps | .setter _ _ ps => by
    simpa [member, oneMemberSlots] using noted_parameters_le s ps
end

theorem noted_heritages_le (s : Site) : ∀ hs : List Heritage,
    (heritages s hs).noted i ≤ (Heritage.listSlots hs).count (some i)
  | [] => Nat.le_refl 0
  | h :: hs => by
    have hh := noted_types_le i s h.arguments
    have hhs := noted_heritages_le s hs
    simp only [heritages, heritage, Heritage.listSlots, Named.noted_bind, Named.noted_pure,
      List.flatMap_cons, List.count_append] at hhs ⊢
    omega

/-- The identities of the declarators themselves are not noted here. -/
theorem noted_declarators_le (s : Site) : ∀ ds : List Declarator,
    (declarators s ds).noted i + (ds.map (·.id)).count (some i)
      ≤ (Declarator.listSlots ds).count (some i)
  | [] => Nat.le_refl 0
  | d :: ds => by
    have hd := noted_option_le i s d.ascription
    have hds := noted_declarators_le s ds
    simp only [declarators, Declarator.listSlots, Named.noted_bind, Named.noted_pure,
      List.flatMap_cons, List.map_cons, List.count_append, List.count_cons] at hds ⊢
    omega

/-! ## Members that are renamed -/

theorem noted_renameDeclarators_le (r : Table String String) : ∀ ds : List Declarator,
    (renameDeclarators r ds).noted i ≤ (ds.map (·.id)).count (some i)
  | [] => Nat.le_refl 0
  | d :: ds => by
    have hds := noted_renameDeclarators_le r ds
    have hd : (renameDeclarator r d).noted i ≤ [d.id].count (some i) := by
      unfold renameDeclarator
      split <;> simp
    simp only [renameDeclarators, Named.noted_bind, Named.noted_pure, List.map_cons,
      List.count_cons, List.count_nil] at hd ⊢
    omega

theorem noted_renameMember_le (r : Table String String) (st : Statement) :
    (renameMember r st).noted i ≤ (Shake.boundIds [st]).count (some i) := by
  cases st with
  | declaration d =>
    obtain ⟨id, modifiers, pos, k⟩ := d
    simp only [renameMember]
    split
    · exact Nat.zero_le _
    · cases k with
      | variableList flavor ds =>
        simpa [Shake.boundIds, Declaration.boundIds] using noted_renameDeclarators_le i r ds
      | _ => simp [Shake.boundIds, Declaration.boundIds]
  | _ => exact Nat.zero_le _

theorem noted_renameStatements_le (r : Table String String) (body : List Statement) :
    (renameStatements r body).noted i ≤ (Shake.boundIds body).count (some i) := by
  induction body with
  | nil => exact Nat.le_refl 0
  | cons st body ih =>
    have hst := noted_renameMember_le i r st
    simp only [renameStatements, Shake.boundIds, Named.noted_bind, Named.noted_pure,
      List.flatMap_cons, List.flatMap_nil, List.append_nil, List.count_append] at hst ih ⊢
    omega

theorem noted_finishBody_le (r : Table String String) (body : List Statement) :
    (finishBody r body).noted i ≤ (Shake.boundIds body).count (some i) := by
  unfold finishBody
  split
  · exact Nat.zero_le _
  · simpa using noted_renameStatements_le i r body

theorem boundIds_statements (s : Site) (body : List Statement) :
    Shake.boundIds (statements s body).value = Shake.boundIds body := by
  induction body with
  | nil => rfl
  | cons st body ih =>
    have hst : Shake.boundIds [(statement s st).value] = Shake.boundIds [st] := by
      cases st with
      | declaration d => simpa [Shake.boundIds, statement] using Naming.boundIds_rename s d
      | exports x =>
        obtain ⟨specifiers, source, typeOnly⟩ := x
        cases source <;> rfl
      | _ => rfl
    simp only [statements, Shake.boundIds, Named.value_bind, Named.value_pure, List.flatMap_cons,
      List.flatMap_nil, List.append_nil] at hst ih ⊢
    rw [hst, ih]

/-! ## Declarations -/

mutual
theorem noted_kind_le (s : Site) : ∀ k : DeclarationKind,
    (kind s k).noted i + (k.declarators.map (·.id)).count (some i) ≤ k.slots.count (some i)
  | .interface _ tps bases ms => by
    have htps := fun s names => noted_typeParameters_le i s names tps
    have hbases := fun s => noted_heritages_le i s bases
    have hms := fun s => noted_members_le i s ms
    simp only [kind, DeclarationKind.slots, DeclarationKind.declarators, Named.noted_bind,
      Named.noted_pure, List.count_append, List.map_nil, List.count_nil]
    grind
  | .classLike _ tps base implemented ms => by
    have htps := fun s names => noted_typeParameters_le i s names tps
    have himplemented := fun s => noted_heritages_le i s implemented
    have hms := fun s => noted_members_le i s ms
    cases base with
    | none =>
      simp only [kind, DeclarationKind.slots, DeclarationKind.declarators, Named.noted_bind,
        Named.noted_pure, List.count_append, List.map_nil, List.count_nil]
      grind
    | some h =>
      have hh := fun s => noted_types_le i s h.arguments
      have hslots : Heritage.listSlots (some h).toList = listSlots h.arguments := List.append_nil _
      simp only [kind, DeclarationKind.slots, DeclarationKind.declarators, Named.noted_bind,
        Named.noted_pure, List.count_append, List.map_nil, List.count_nil, hslots]
      grind
  | .function _ tps ps t => by
    have htps := fun s names => noted_typeParameters_le i s names tps
    have hps := fun s => noted_parameters_le i s ps
    have ht := fun s => noted_option_le i s t
    simp only [kind, DeclarationKind.slots, DeclarationKind.declarators, Named.noted_bind,
      Named.noted_pure, List.count_append, List.map_nil, List.count_nil]
    grind
  | .variableList _ ds => by
    have hds := noted_declarators_le i s ds
    simpa [kind, DeclarationKind.slots, DeclarationKind.declarators] using hds
  | .enumeration _ _ => Nat.le_refl 0
  | .typeAlias _ tps t => by
    have htps := fun s names => noted_typeParameters_le i s names tps
    have ht := fun s => noted_type_le i s t
    simp only [kind, DeclarationKind.slots, DeclarationKind.declarators, Named.noted_bind,
      Named.noted_pure, List.count_append, List.map_nil, List.count_nil]
    grind
  | .namespaceBlock _ _ body => by
    have hbody := fun s => noted_statements_le s body
    have hfinish := fun r s => noted_finishBody_le i r (statements s body).value
    simp only [boundIds_statements] at hfinish
    simp only [kind, DeclarationKind.slots, DeclarationKind.declarators, Named.noted_bind,
      Named.noted_pure, List.map_nil, List.count_nil]
    grind

theorem noted_declaration_le (s : Site) : ∀ d : Declaration,
    (declaration s d).noted i + d.boundIds.count (some i) ≤ d.slots.count (some i)
  | ⟨id, _, _, k⟩ => by
    have hk := noted_kind_le s k
    cases k <;> simp only [declaration, Declaration.boundIds, Declaration.slots,
      DeclarationKind.declarators, Named.noted_bind, Named.noted_pure, List.map_nil,
      List.count_cons, List.count_nil] at hk ⊢ <;> omega

/-- Nor are the identities of the members of a body, until it is finished. -/
theorem noted_statements_le (s : Site) : ∀ body : List Statement,
    (statements s body).noted i + (Shake.boundIds body).count (some i)
      ≤ (Statement.listSlots body).count (some i)
  | [] => Nat.le_refl 0
  | st :: body => by
    have hst := noted_statement_le s st
    have hbody := noted_statements_le s body
    simp only [statements, Shake.boundIds, Statement.listSlots, Named.noted_bind,
      Named.noted_pure, List.flatMap_cons, List.flatMap_nil, List.append_nil,
      List.count_append] at hst hbody ⊢
    omega

theorem noted_statement_le (s : Site) : ∀ st : Statement,
    (statement s st).noted i + (Shake.boundIds [st]).count (some i) ≤ st.slots.count (some i)
  | .declaration d => by
    simpa [statement, Shake.boundIds, Statement.slots] using noted_declaration_le s d
  | .exports ⟨_, none, _⟩ | .exports ⟨_, some _, _⟩ | .exportDefault _ | .exportAssignment _
  | .verbatim _ _ | .imports _ | .exportAll _ _ => Nat.le_refl 0
end

end Rename

namespace Naming

theorem slots_underFinalName (n : FinalNames) (d : Declaration) :
    (underFinalName n d).slots = d.slots := by
  obtain ⟨id, modifiers, pos, k⟩ := d
  cases k with
  | variableList flavor ds =>
    simp [underFinalName, Declaration.slots, DeclarationKind.slots, Declarator.listSlots,
      renameDeclarator, List.flatMap_map]
  | _ =>
    simp only [underFinalName]
    split <;> rfl

/-- A statement notes an identity no more often than its binding positions have it. -/
theorem noted_statement_le (s : Site) (n : FinalNames) (i : DeclId) (st : Statement) :
    (statement s n st).noted i ≤ st.slots.count (some i) := by
  cases st with
  | declaration d =>
    have hd := Rename.noted_declaration_le i s (underFinalName n d)
    rw [slots_underFinalName] at hd
    simpa [statement, Statement.slots] using Nat.le_of_add_right_le hd
  | _ => exact Nat.zero_le _

end Naming

end DeclBundle
