import DeclBundle.Proofs.Names.Bodies
import DeclBundle.Proofs.Renumber.Rename

/-!
# Namespace bodies under other numbers

The members of a namespace body that give way to names outside are the same under other numbers, and
so is all that follows from it: what a declaration becomes under its final names does not depend on
the identities in it (`Rename.declaration_renumber`).
-/

namespace DeclBundle

open TypeExpr

/-- The import types at places name modules in `K`. -/
def NamePlace.ImportsIn (K : String → Prop) (ps : List NamePlace) : Prop :=
  Spot.ImportsIn K (ps.map (·.spot))

namespace NamePlace

variable {K : String → Prop}

theorem importsIn_append {ps qs : List NamePlace} :
    ImportsIn K (ps ++ qs) ↔ ImportsIn K ps ∧ ImportsIn K qs := by
  rw [ImportsIn, List.map_append, Spot.importsIn_append, ImportsIn, ImportsIn]

theorem importsIn_map_within {body : List Statement} {ps : List NamePlace} :
    ImportsIn K (ps.map (within body)) ↔ ImportsIn K ps := by
  rw [ImportsIn, List.map_map, ImportsIn]
  rfl

theorem importsIn_ofSpots {ps : List Spot} : ImportsIn K (ofSpots ps) ↔ Spot.ImportsIn K ps := by
  rw [ImportsIn, ofSpots, List.map_map, Function.comp_def, List.map_id']

end NamePlace

theorem Mention.reported_eq_importType {bound : List Binder} {specifier : String}
    {qualifier : Option String} : ∀ {m : Mention},
      m.reported bound = some (.importType specifier qualifier) →
        ∃ isTypeOf, m = .importType specifier qualifier isTypeOf
  | .name root space, h => by
    simp only [reported, reportedName] at h
    split at h <;> cases h
  | .key root, h => by
    simp only [reported, reportedName] at h
    split at h
    · cases h
    · split at h <;> cases h
  | .importType _ _ isTypeOf, h => by
    cases h
    exact ⟨isTypeOf, rfl⟩

namespace Rename

variable (f : DeclId → DeclId) {ρ : Renumbering} {K : String → Prop} {s s' : Site}

section
variable (h : s.Like ρ K s')
include h

theorem heritage_renumber (x : Heritage) (hi : Spot.ImportsIn K (Spot.inHeritage x)) :
    (heritage s' (x.renumber f)).value = (heritage s x).value.renumber f := by
  simp only [Spot.inHeritage, Spot.importsIn_append] at hi
  simp only [heritage, Heritage.renumber, Named.value_bind, Named.value_pure, entity_congr h,
    types_renumber f x.arguments h hi.2]

theorem heritages_renumber : ∀ xs : List Heritage,
    Spot.ImportsIn K (xs.flatMap Spot.inHeritage) →
      (heritages s' (xs.map (Heritage.renumber f))).value
        = (heritages s xs).value.map (Heritage.renumber f)
  | [], _ => rfl
  | x :: xs, hi => by
    rw [List.flatMap_cons, Spot.importsIn_append] at hi
    simp only [heritages, List.map_cons, Named.value_bind, Named.value_pure,
      heritage_renumber f h x hi.1, heritages_renumber xs hi.2]

theorem declarators_renumber : ∀ ds : List Declarator,
    Spot.ImportsIn K (ds.flatMap fun d => Spot.inOption d.ascription) →
      (declarators s' (ds.map (Declarator.renumber f))).value
        = (declarators s ds).value.map (Declarator.renumber f)
  | [], _ => rfl
  | d :: ds, hi => by
    rw [List.flatMap_cons, Spot.importsIn_append] at hi
    have hd := option_renumber f d.ascription h hi.1
    simp only [declarators, List.map_cons, Named.value_bind, Named.value_pure, Declarator.renumber,
      hd, declarators_renumber ds hi.2]

/-- What a body refers to goes by the same final names. -/
theorem capturedNames_renumber {body : List Statement}
    (hi : NamePlace.ImportsIn K (NamePlace.inBody body)) :
    capturedNames s' (Statement.renumberList f body) = capturedNames s body := by
  simp only [capturedNames, Free.bodyBinders_renumber, Free.inBody_renumber]
  refine List.filterMap_congr fun r hr => h.reference? fun specifier qualifier he => ?_
  subst he
  rw [Analysis.references_ofOccurrences, List.mem_eraseDups, NamePlace.references_inBody] at hr
  obtain ⟨p, hp, hr⟩ := List.mem_filterMap.1 hr
  obtain ⟨isTypeOf, hm⟩ := Mention.reported_eq_importType hr
  exact hi p.spot (List.mem_map.2 ⟨p, hp, rfl⟩) specifier qualifier isTypeOf hm

end

/-! ## Members that give way -/

section
variable (renamed : Table String String)

theorem isRenamed_renumber (st : Statement) :
    isRenamed renamed (st.renumber f) = isRenamed renamed st := by
  rw [isRenamed, Free.memberNames_renumber, isRenamed]

theorem renameDeclarators_renumber : ∀ ds : List Declarator,
    (renameDeclarators renamed (ds.map (Declarator.renumber f))).value
      = (renameDeclarators renamed ds).value.map (Declarator.renumber f)
  | [] => rfl
  | d :: ds => by
    have hd : (renameDeclarator renamed (d.renumber f)).value
        = (renameDeclarator renamed d).value.renumber f := by
      simp only [renameDeclarator, Declarator.renumber]
      cases renamed.get? d.name <;> rfl
    simp only [renameDeclarators, List.map_cons, Named.value_bind, Named.value_pure, hd,
      renameDeclarators_renumber ds]

theorem renamedKind_renumber (k : DeclarationKind) :
    renamedKind renamed (k.renumber f) = (renamedKind renamed k).renumber f := by
  cases k with
  | variableList flavor ds =>
    simp only [DeclarationKind.renumber, renamedKind, renameDeclarators_renumber]
  | _ => rfl

theorem renameMember_renumber (st : Statement) :
    (renameMember renamed (st.renumber f)).value = (renameMember renamed st).value.renumber f := by
  cases st with
  | declaration d =>
    obtain ⟨id, modifiers, pos, k⟩ := d
    have hrenamed := isRenamed_renumber f renamed (.declaration ⟨id, modifiers, pos, k⟩)
    by_cases hr : isRenamed renamed (.declaration ⟨id, modifiers, pos, k⟩) = true
    · rw [hr] at hrenamed
      rw [value_renameMember renamed hr]
      refine (value_renameMember renamed hrenamed).trans ?_
      simp only [Statement.renumber, Declaration.renumber, renamedKind_renumber]
    · have hr' : isRenamed renamed
          ((Statement.declaration ⟨id, modifiers, pos, k⟩).renumber f) ≠ true := by
        rwa [hrenamed]
      simp only [Statement.renumber] at hr' ⊢
      simp [renameMember, hr, hr', Statement.renumber]
  | _ => rfl

theorem renameStatements_renumber (body : List Statement) :
    (renameStatements renamed (Statement.renumberList f body)).value
      = Statement.renumberList f (renameStatements renamed body).value := by
  induction body with
  | nil => rfl
  | cons st body ih =>
    simp only [renameStatements, Statement.renumberList, Named.value_bind, Named.value_pure,
      renameMember_renumber, ih]

theorem lostExports_renumber (body : List Statement) :
    lostExports renamed (Statement.renumberList f body) = lostExports renamed body := by
  simp only [lostExports, Statement.renumberList_eq, List.flatMap_map]
  congr 2
  refine List.flatMap_congr fun st _ => ?_
  cases st with
  | declaration d =>
    have hr := isRenamed_renumber f renamed (.declaration d)
    have hn := Free.memberNames_renumber f (.declaration d)
    rw [Statement.renumber] at hr hn
    simp only [Statement.renumber, hr, hn, Declaration.modifiers_renumber]
  | _ => rfl

theorem finishBody_renumber (body : List Statement) :
    (finishBody renamed (Statement.renumberList f body)).value
      = Statement.renumberList f (finishBody renamed body).value := by
  unfold finishBody
  split
  · rfl
  · simp only [Named.value_bind, Named.value_pure, renameStatements_renumber, lostExports_renumber]
    rw [Statement.renumberList_eq, Statement.renumberList_eq, List.map_append]
    split <;> rfl

end

/-! ## Declarations -/

mutual
theorem kind_renumber : ∀ (k : DeclarationKind) {s s' : Site}, s.Like ρ K s' →
    NamePlace.ImportsIn K (NamePlace.inKind k) →
      (kind s' (k.renumber f)).value = (kind s k).value.renumber f
  | .interface _ tps bases ms, _, _, h, hi => by
    simp only [NamePlace.inKind, NamePlace.importsIn_ofSpots, Spot.inKind,
      Spot.importsIn_map_under, Spot.importsIn_append] at hi
    have hin := h.enterTypes (tps.map (·.name))
    simp only [kind, DeclarationKind.renumber, Named.value_bind, Named.value_pure,
      names_renumberTypeParameters, h.names_enterTypes,
      typeParameters_renumber f tps _ hin hi.1.1, heritages_renumber f hin bases hi.1.2,
      members_renumber f ms hin hi.2]
  | .classLike _ tps none implemented ms, _, _, h, hi => by
    simp only [NamePlace.inKind, NamePlace.importsIn_ofSpots, Spot.inKind,
      Spot.importsIn_map_under, Spot.importsIn_append] at hi
    have hin := h.enterTypes (tps.map (·.name))
    simp only [kind, DeclarationKind.renumber, Named.value_bind, Named.value_pure, Option.map_none,
      names_renumberTypeParameters, h.names_enterTypes,
      typeParameters_renumber f tps _ hin hi.2.1.1.1,
      heritages_renumber f hin implemented hi.2.1.2, members_renumber f ms hin hi.2.2]
  | .classLike _ tps (some x) implemented ms, _, _, h, hi => by
    simp only [NamePlace.inKind, NamePlace.importsIn_ofSpots, Spot.inKind,
      Spot.importsIn_map_under, Spot.importsIn_append, Option.toList_some, List.flatMap_cons,
      List.flatMap_nil, List.append_nil] at hi
    have hin := h.enterTypes (tps.map (·.name))
    simp only [kind, DeclarationKind.renumber, Named.value_bind, Named.value_pure, Option.map_some,
      Heritage.renumber, names_renumberTypeParameters, h.names_enterTypes, entity_congr h,
      typeParameters_renumber f tps _ hin hi.2.1.1.1, types_renumber f x.arguments hin hi.2.1.1.2,
      heritages_renumber f hin implemented hi.2.1.2, members_renumber f ms hin hi.2.2]
  | .function _ tps ps t, _, _, h, hi => by
    simp only [NamePlace.inKind, NamePlace.importsIn_ofSpots, Spot.inKind,
      Spot.importsIn_signature, Spot.importsIn_append] at hi
    have hin := h.enterTypes (tps.map (·.name))
    have hbody := hin.enterParameters (ps.map (·.name))
    simp only [kind, DeclarationKind.renumber, Named.value_bind, Named.value_pure,
      names_renumberTypeParameters, names_renumberParameters, h.names_enterTypes,
      typeParameters_renumber f tps _ hin hi.1, parameters_renumber f ps hbody hi.2.1,
      option_renumber f t hbody hi.2.2]
  | .variableList _ ds, _, _, h, hi => by
    simp only [NamePlace.inKind, NamePlace.importsIn_ofSpots, Spot.inKind] at hi
    simp only [kind, DeclarationKind.renumber, Named.value_bind, Named.value_pure,
      declarators_renumber f h ds hi]
  | .enumeration _ _, _, _, _, _ => rfl
  | .typeAlias _ tps t, _, _, h, hi => by
    simp only [NamePlace.inKind, NamePlace.importsIn_ofSpots, Spot.inKind,
      Spot.importsIn_map_under, Spot.importsIn_append] at hi
    have hin := h.enterTypes (tps.map (·.name))
    simp only [kind, DeclarationKind.renumber, Named.value_bind, Named.value_pure,
      names_renumberTypeParameters, h.names_enterTypes, typeParameters_renumber f tps _ hin hi.1,
      type_renumber f t hin hi.2]
  | .namespaceBlock _ _ body, s, _, h, hi => by
    rw [NamePlace.inKind, NamePlace.importsIn_map_within] at hi
    have hin := h.enterBody (capturedNames s body) ((Free.bodyBinders body).map Prod.fst)
    simp only [kind, DeclarationKind.renumber, Named.value_bind, Named.value_pure,
      Free.bodyBinders_renumber, capturedNames_renumber f h hi, h.renamed_enterBody,
      statements_renumber body hin hi, finishBody_renumber]

theorem declaration_renumber : ∀ (d : Declaration) {s s' : Site}, s.Like ρ K s' →
    NamePlace.ImportsIn K (NamePlace.inDeclaration d) →
      (declaration s' (d.renumber f)).value = (declaration s d).value.renumber f
  | ⟨_, _, _, k⟩, _, _, h, hi => by
    simp only [declaration, Declaration.renumber, Named.value_bind, Named.value_pure,
      kind_renumber k h hi]

theorem statements_renumber : ∀ (body : List Statement) {s s' : Site}, s.Like ρ K s' →
    NamePlace.ImportsIn K (NamePlace.inBody body) →
      (statements s' (Statement.renumberList f body)).value
        = Statement.renumberList f (statements s body).value
  | [], _, _, _, _ => rfl
  | st :: body, _, _, h, hi => by
    rw [NamePlace.inBody, NamePlace.importsIn_append] at hi
    simp only [statements, Statement.renumberList, Named.value_bind, Named.value_pure,
      statement_renumber st h hi.1, statements_renumber body h hi.2]

theorem statement_renumber : ∀ (st : Statement) {s s' : Site}, s.Like ρ K s' →
    NamePlace.ImportsIn K (NamePlace.inStatement st) →
      (statement s' (st.renumber f)).value = (statement s st).value.renumber f
  | .declaration d, _, _, h, hi => by
    simp only [statement, Statement.renumber, Named.value_bind, Named.value_pure,
      declaration_renumber d h hi]
  | .exports ⟨_, none, _⟩, _, _, h, _ | .exportDefault _, _, _, h, _
  | .exportAssignment _, _, _, h, _ => by
    simp only [statement, Statement.renumber, Named.value_pure, plainName_congr h]
  | .verbatim _ _, _, _, h, _ => by
    simp only [statement, Statement.renumber, Named.value_pure, tokens_congr h]
  | .imports _, _, _, _, _ | .exports ⟨_, some _, _⟩, _, _, _, _ | .exportAll .., _, _, _, _ => rfl
end

end Rename

end DeclBundle
