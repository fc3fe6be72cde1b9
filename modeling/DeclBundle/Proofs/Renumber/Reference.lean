import DeclBundle.Proofs.Renumber.Tree

/-!
# References under other identities

What a declaration binds and refers to does not depend on the identities in it, so its analysis is
the same under other identities (`Declaration.analyses_renumber`).
-/

namespace DeclBundle

open TypeExpr

variable (f : DeclId → DeclId)

namespace TypeExpr

theorem name_renumberOne (p : TypeParameter) : (renumberOne f p).name = p.name := by
  cases p
  rfl

theorem names_renumberTypeParameters (ps : List TypeParameter) :
    (renumberTypeParameters f ps).map (·.name) = ps.map (·.name) := by
  rw [renumberTypeParameters_eq, List.map_map]
  exact List.map_congr_left fun p _ => name_renumberOne f p

theorem names_renumberParameters (ps : List Parameter) :
    (renumberParameters f ps).map (·.name) = ps.map (·.name) := by
  induction ps with
  | nil => rfl
  | cons p ps ih =>
    cases p
    simp only [renumberParameters, List.map_cons, ih]

theorem typeBinders_renumber (ps : List TypeParameter) :
    Free.typeBinders (renumberTypeParameters f ps) = Free.typeBinders ps := by
  have h := congrArg (List.map (·, Space.type)) (names_renumberTypeParameters f ps)
  rwa [List.map_map, List.map_map] at h

theorem valueBinders_renumber (ps : List Parameter) :
    Free.valueBinders (renumberParameters f ps) = Free.valueBinders ps := by
  have h := congrArg (List.map (·, Space.value)) (names_renumberParameters f ps)
  rwa [List.map_map, List.map_map] at h

mutual
theorem inferredNames_renumber : ∀ t : TypeExpr, (t.renumber f).inferredNames = t.inferredNames
  | .keyword _ | .literal _ | .verbatim _ | .conditional .. | .mapped .. | .predicate .. => rfl
  | .infer ⟨_, _, _, _, _⟩ => rfl
  | .reference _ ts | .query _ ts | .importType _ _ ts _ | .union ts | .intersection ts => by
    simp only [renumber, inferredNames, inferredInTypes_renumber ts]
  | .array t | .operator _ t | .parenthesized t => by
    simp only [renumber, inferredNames, inferredNames_renumber t]
  | .tuple es => by simp only [renumber, inferredNames, inferredInElements_renumber es]
  | .function _ ps t | .construct _ _ ps t => by
    simp only [renumber, inferredNames, inferredInParameters_renumber ps, inferredNames_renumber t]
  | .indexed t u => by
    simp only [renumber, inferredNames, inferredNames_renumber t, inferredNames_renumber u]
  | .template _ ss => by simp only [renumber, inferredNames, inferredInSpans_renumber ss]
  | .object ms => by simp only [renumber, inferredNames, inferredInMembers_renumber ms]

theorem inferredInOption_renumber : ∀ t : Option TypeExpr,
    inferredInOption (renumberOption f t) = inferredInOption t
  | none => rfl
  | some t => inferredNames_renumber t

theorem inferredInTypes_renumber : ∀ ts : List TypeExpr,
    inferredInTypes (renumberList f ts) = inferredInTypes ts
  | [] => rfl
  | t :: ts => by
    simp only [renumberList, inferredInTypes, inferredNames_renumber t, inferredInTypes_renumber ts]

theorem inferredInElements_renumber : ∀ es : List TupleElement,
    inferredInElements (renumberElements f es) = inferredInElements es
  | [] => rfl
  | ⟨_, _, _, t⟩ :: es => by
    simp only [renumberElements, inferredInElements, inferredNames_renumber t,
      inferredInElements_renumber es]

theorem inferredInParameters_renumber : ∀ ps : List Parameter,
    inferredInParameters (renumberParameters f ps) = inferredInParameters ps
  | [] => rfl
  | ⟨_, _, _, _, t⟩ :: ps => by
    simp only [renumberParameters, inferredInParameters, inferredInOption_renumber t,
      inferredInParameters_renumber ps]

theorem inferredInSpans_renumber : ∀ ss : List TemplateSpan,
    inferredInSpans (renumberSpans f ss) = inferredInSpans ss
  | [] => rfl
  | ⟨t, _⟩ :: ss => by
    simp only [renumberSpans, inferredInSpans, inferredNames_renumber t,
      inferredInSpans_renumber ss]

theorem inferredInMembers_renumber : ∀ ms : List Member,
    inferredInMembers (renumberMembers f ms) = inferredInMembers ms
  | [] => rfl
  | m :: ms => by
    simp only [renumberMembers, inferredInMembers, inferredInMember_renumber m,
      inferredInMembers_renumber ms]

theorem inferredInMember_renumber : ∀ m : Member,
    inferredInMember (renumberMember f m) = inferredInMember m
  | .property _ _ _ t => inferredInOption_renumber t
  | .method .. | .call .. | .construct .. | .index .. | .initializer .. | .getter .. | .setter .. =>
    rfl
end

end TypeExpr

namespace Free

mutual
theorem inType_renumber (bound : List Binder) : ∀ t : TypeExpr,
    inType bound (t.renumber f) = inType bound t
  | .keyword _ | .literal _ | .verbatim _ => rfl
  | .reference _ ts | .query _ ts | .importType _ _ ts _ | .union ts | .intersection ts => by
    simp only [renumber, inType, inTypes_renumber bound ts]
  | .array t | .operator _ t | .parenthesized t => by
    simp only [renumber, inType, inType_renumber bound t]
  | .tuple es => by simp only [renumber, inType, inElements_renumber bound es]
  | .function tps ps t | .construct _ tps ps t => by
    simp only [renumber, inType, typeBinders_renumber, valueBinders_renumber,
      inTypeParameters_renumber _ tps, inParameters_renumber _ ps, inType_renumber _ t]
  | .object ms => by simp only [renumber, inType, inMembers_renumber bound ms]
  | .indexed t u => by
    simp only [renumber, inType, inType_renumber bound t, inType_renumber bound u]
  | .conditional t u v w => by
    simp only [renumber, inType, inferredNames_renumber, inType_renumber _ t, inType_renumber _ u,
      inType_renumber _ v, inType_renumber _ w]
  | .infer p => by simp only [renumber, inType, inTypeParameter_renumber bound p]
  | .mapped p t _ _ u => by
    simp only [renumber, inType, name_renumberOne, inTypeParameter_renumber _ p,
      inOption_renumber _ t, inOption_renumber _ u]
  | .predicate _ _ t => by simp only [renumber, inType, inOption_renumber bound t]
  | .template _ ss => by simp only [renumber, inType, inSpans_renumber bound ss]

theorem inOption_renumber (bound : List Binder) : ∀ t : Option TypeExpr,
    inOption bound (renumberOption f t) = inOption bound t
  | none => rfl
  | some t => inType_renumber bound t

theorem inTypes_renumber (bound : List Binder) : ∀ ts : List TypeExpr,
    inTypes bound (renumberList f ts) = inTypes bound ts
  | [] => rfl
  | t :: ts => by
    simp only [renumberList, inTypes, inType_renumber bound t, inTypes_renumber bound ts]

theorem inTypeParameter_renumber (bound : List Binder) : ∀ p : TypeParameter,
    inTypeParameter bound (renumberOne f p) = inTypeParameter bound p
  | ⟨_, _, t, u, _⟩ => by
    simp only [renumberOne, inTypeParameter, inOption_renumber bound t, inOption_renumber bound u]

theorem inTypeParameters_renumber (bound : List Binder) : ∀ ps : List TypeParameter,
    inTypeParameters bound (renumberTypeParameters f ps) = inTypeParameters bound ps
  | [] => rfl
  | p :: ps => by
    simp only [renumberTypeParameters, inTypeParameters, inTypeParameter_renumber bound p,
      inTypeParameters_renumber bound ps]

theorem inParameters_renumber (bound : List Binder) : ∀ ps : List Parameter,
    inParameters bound (renumberParameters f ps) = inParameters bound ps
  | [] => rfl
  | ⟨_, _, _, _, t⟩ :: ps => by
    simp only [renumberParameters, inParameters, inOption_renumber bound t,
      inParameters_renumber bound ps]

theorem inElements_renumber (bound : List Binder) : ∀ es : List TupleElement,
    inElements bound (renumberElements f es) = inElements bound es
  | [] => rfl
  | ⟨_, _, _, t⟩ :: es => by
    simp only [renumberElements, inElements, inType_renumber bound t, inElements_renumber bound es]

theorem inSpans_renumber (bound : List Binder) : ∀ ss : List TemplateSpan,
    inSpans bound (renumberSpans f ss) = inSpans bound ss
  | [] => rfl
  | ⟨t, _⟩ :: ss => by
    simp only [renumberSpans, inSpans, inType_renumber bound t, inSpans_renumber bound ss]

theorem inMembers_renumber (bound : List Binder) : ∀ ms : List Member,
    inMembers bound (renumberMembers f ms) = inMembers bound ms
  | [] => rfl
  | m :: ms => by
    simp only [renumberMembers, inMembers, inMember_renumber bound m, inMembers_renumber bound ms]

theorem inMember_renumber (bound : List Binder) : ∀ m : Member,
    inMember bound (renumberMember f m) = inMember bound m
  | .property _ _ _ t | .getter _ _ t => by
    simp only [renumberMember, inMember, inOption_renumber bound t]
  | .method _ _ _ tps ps t | .call tps ps t | .construct tps ps t => by
    simp only [renumberMember, inMember, typeBinders_renumber, valueBinders_renumber,
      inTypeParameters_renumber _ tps, inParameters_renumber _ ps, inOption_renumber _ t]
  | .index _ ps t => by
    simp only [renumberMember, inMember, inParameters_renumber bound ps, inType_renumber bound t]
  | .initializer _ ps | .setter _ _ ps => by
    simp only [renumberMember, inMember, inParameters_renumber bound ps]
end

theorem inHeritage_renumber (bound : List Binder) (x : Heritage) :
    inHeritage bound (x.renumber f) = inHeritage bound x := by
  simp only [Heritage.renumber, inHeritage, inTypes_renumber]

theorem inHeritages_renumber (bound : List Binder) (xs : List Heritage) :
    (xs.map (Heritage.renumber f)).flatMap (inHeritage bound) = xs.flatMap (inHeritage bound) := by
  simp only [List.flatMap_map, inHeritage_renumber]

theorem memberNames_renumber (s : Statement) : memberNames (s.renumber f) = memberNames s := by
  cases s with
  | declaration d =>
    obtain ⟨id, modifiers, pos, kind⟩ := d
    cases kind <;>
      simp [Statement.renumber, Declaration.renumber, DeclarationKind.renumber, memberNames,
        DeclarationKind.name?, Declarator.renumber]
  | _ => rfl

theorem bodyBinders_renumber (body : List Statement) :
    bodyBinders (Statement.renumberList f body) = bodyBinders body := by
  simp only [bodyBinders, Statement.renumberList_eq, List.flatMap_map]
  refine List.flatMap_congr fun s _ => ?_
  cases s with
  | declaration d =>
    have h := memberNames_renumber f (.declaration d)
    rw [Statement.renumber] at h
    simp only [Statement.renumber, h]
  | _ => rfl

mutual
theorem inKind_renumber (bound : List Binder) : ∀ k : DeclarationKind,
    inKind bound (k.renumber f) = inKind bound k
  | .interface _ tps bases ms => by
    simp only [DeclarationKind.renumber, inKind, typeBinders_renumber,
      inTypeParameters_renumber _ _ tps, inHeritages_renumber, inMembers_renumber _ _ ms]
  | .classLike _ tps base implemented ms => by
    simp only [DeclarationKind.renumber, inKind, typeBinders_renumber,
      inTypeParameters_renumber _ _ tps, inHeritages_renumber, inMembers_renumber _ _ ms]
    cases base with
    | none => rfl
    | some x => simp only [Option.map_some, Option.toList_some, List.flatMap_cons, Heritage.renumber,
        inTypes_renumber]
  | .function _ tps ps t => by
    simp only [DeclarationKind.renumber, inKind, typeBinders_renumber, valueBinders_renumber,
      inTypeParameters_renumber _ _ tps, inParameters_renumber _ _ ps, inOption_renumber _ _ t]
  | .variableList _ ds => by
    simp only [DeclarationKind.renumber, inKind, List.flatMap_map, Declarator.renumber,
      inOption_renumber]
  | .enumeration _ _ => rfl
  | .typeAlias _ tps t => by
    simp only [DeclarationKind.renumber, inKind, typeBinders_renumber,
      inTypeParameters_renumber _ _ tps, inType_renumber _ _ t]
  | .namespaceBlock _ _ body => by
    simp only [DeclarationKind.renumber, inKind, bodyBinders_renumber, inBody_renumber _ body]

theorem inDeclaration_renumber (bound : List Binder) : ∀ d : Declaration,
    inDeclaration bound (d.renumber f) = inDeclaration bound d
  | ⟨_, _, _, k⟩ => by
    simp only [Declaration.renumber, inDeclaration, inKind_renumber bound k]

theorem inBody_renumber (bound : List Binder) : ∀ body : List Statement,
    inBody bound (Statement.renumberList f body) = inBody bound body
  | [] => rfl
  | s :: ss => by
    simp only [Statement.renumberList, inBody, inStatement_renumber bound s,
      inBody_renumber bound ss]

theorem inStatement_renumber (bound : List Binder) : ∀ s : Statement,
    inStatement bound (s.renumber f) = inStatement bound s
  | .declaration d => by
    simp only [Statement.renumber, inStatement, inDeclaration_renumber bound d]
  | .imports _ | .exports _ | .exportAll .. | .exportDefault _ | .exportAssignment _
  | .verbatim .. => rfl
end

end Free

/-! ## Top-level declarations -/

theorem Analysis.declaration_renumber (d : Declaration) :
    Analysis.declaration (d.renumber f) = Analysis.declaration d := by
  rw [Analysis.declaration, Free.inDeclaration_renumber, Analysis.declaration]

theorem Analysis.declarator_renumber (d : Declarator) :
    Analysis.declarator (d.renumber f) = Analysis.declarator d := by
  rw [Analysis.declarator, Declarator.renumber, Free.inOption_renumber, Analysis.declarator]

namespace Declaration

theorem tag_renumber (d : Declaration) : (d.renumber f).tag = d.tag := by
  obtain ⟨id, modifiers, pos, kind⟩ := d
  cases kind <;> rfl

theorem modifiers_renumber (d : Declaration) : (d.renumber f).modifiers = d.modifiers := by
  obtain ⟨id, modifiers, pos, kind⟩ := d
  rfl

theorem analyses_renumber (d : Declaration) :
    (d.renumber f).analyses = d.analyses.map fun b => (b.1.map f, b.2) := by
  have hd := Analysis.declaration_renumber f d
  obtain ⟨id, modifiers, pos, kind⟩ := d
  cases kind with
  | variableList flavor ds =>
    simp only [renumber, DeclarationKind.renumber, analyses, List.map_map]
    exact List.map_congr_left fun v _ => Prod.ext rfl (Analysis.declarator_renumber f v)
  | _ =>
    simp only [renumber, DeclarationKind.renumber] at hd
    simp only [renumber, DeclarationKind.renumber, analyses, hd, List.map_cons, List.map_nil]

theorem bindings_renumber (d : Declaration) (path : String) :
    (d.renumber f).bindings path = (d.bindings path).map fun b => (b.1.map f, b.2) := by
  obtain ⟨id, modifiers, pos, kind⟩ := d
  cases kind with
  | variableList flavor ds =>
    simp only [renumber, DeclarationKind.renumber, bindings, List.map_map]
    rfl
  | _ => rfl

theorem boundIds_renumber (d : Declaration) :
    (d.renumber f).boundIds = d.boundIds.map (Option.map f) := by
  obtain ⟨id, modifiers, pos, kind⟩ := d
  cases kind with
  | variableList flavor ds =>
    simp only [renumber, DeclarationKind.renumber, boundIds, List.map_map]
    rfl
  | _ => rfl

end Declaration

end DeclBundle
