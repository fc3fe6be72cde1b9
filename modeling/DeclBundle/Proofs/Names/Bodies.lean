import DeclBundle.Proofs.Names.Frames
import DeclBundle.Proofs.Names.Naming

/-!
# Namespace bodies under final names

The members of a body are renamed after all that stands in it, and the exports they lose are put
back at the end. Neither changes what the body refers to: a member has the same places under its new
name, and the list at the end names members only (`Rename.references_finishBody`). The references of
a renamed declaration are therefore those of its places (`mem_references_rename`).
-/

namespace DeclBundle

namespace Rename

variable (r : Table String String)

theorem newName_of_not_mem {name : String} (h : name ∉ r.keys) : newName r name = name := by
  rw [newName, Table.get?_eq_none.2 h, Option.getD_none]

/-! ## What members are called -/

theorem memberNames_declarators (s : Site) (ds : List Declarator) :
    (declarators s ds).value.map (·.name) = ds.map (·.name) := by
  simpa [Function.comp_def] using congrArg (List.map Prod.snd) (Naming.declarators_introduced s ds)

theorem memberNames_statement (s : Site) (st : Statement) :
    Free.memberNames (statement s st).value = Free.memberNames st := by
  cases st with
  | declaration d =>
    obtain ⟨id, modifiers, pos, k⟩ := d
    cases k with
    | variableList flavor ds => exact memberNames_declarators s ds
    | classLike name tps base implemented members => cases base <;> rfl
    | _ => rfl
  | exports e =>
    obtain ⟨specifiers, source, typeOnly⟩ := e
    cases source <;> rfl
  | _ => rfl

theorem bodyBinders_cons (s : Statement) (ss : List Statement) :
    Free.bodyBinders (s :: ss) = Free.bodyBinders [s] ++ Free.bodyBinders ss := by
  simp [Free.bodyBinders]

theorem both_of_mem_bodyBinders {body : List Statement} {b : Binder}
    (h : b ∈ Free.bodyBinders body) : b.2 = .both := by
  obtain ⟨s, -, hb⟩ := List.mem_flatMap.1 h
  cases s <;>
  · obtain ⟨x, -, rfl⟩ := List.mem_map.1 hb
    rfl

theorem bodyBinders_eq_members (body : List Statement) :
    Free.bodyBinders body = (Frame.members body).map (·, .both) := by
  rw [Frame.members, List.map_map]
  conv_lhs => rw [← List.map_id (Free.bodyBinders body)]
  exact List.map_congr_left fun b hb => Prod.ext rfl (both_of_mem_bodyBinders hb)

theorem bodyBinders_of_not_imports {s : Statement} (h : ∀ i, s ≠ .imports i) :
    Free.bodyBinders [s] = (Free.memberNames s).map (·, .both) := by
  cases s with
  | imports i => exact absurd rfl (h i)
  | _ => simp [Free.bodyBinders]

theorem bodyBinders_statement (s : Site) (st : Statement) :
    Free.bodyBinders [(statement s st).value] = Free.bodyBinders [st] := by
  cases st with
  | imports i => rfl
  | exports e =>
    obtain ⟨specifiers, source, typeOnly⟩ := e
    cases source <;> rfl
  | _ =>
    rw [bodyBinders_of_not_imports, bodyBinders_of_not_imports, memberNames_statement] <;>
      exact fun _ h => nomatch h

theorem bodyBinders_statements (s : Site) (body : List Statement) :
    Free.bodyBinders (statements s body).value = Free.bodyBinders body := by
  induction body with
  | nil => rfl
  | cons st body ih =>
    rw [statements, Named.value_bind, Named.value_bind, Named.value_pure, bodyBinders_cons,
      bodyBinders_statement, ih, ← bodyBinders_cons]

theorem memberNames_renameDeclarators : ∀ ds : List Declarator,
    (renameDeclarators r ds).value.map (·.name) = ds.map fun d => newName r d.name
  | [] => rfl
  | d :: ds => by
    simp only [renameDeclarators, Named.value_bind, Named.value_pure, List.map_cons,
      memberNames_renameDeclarators ds, renameDeclarator, newName]
    cases r.get? d.name <;> rfl

theorem inOption_renameDeclarators (bound : List Binder) : ∀ ds : List Declarator,
    (renameDeclarators r ds).value.flatMap (fun d => Free.inOption bound d.ascription)
      = ds.flatMap fun d => Free.inOption bound d.ascription
  | [] => rfl
  | d :: ds => by
    simp only [renameDeclarators, Named.value_bind, Named.value_pure, List.flatMap_cons,
      inOption_renameDeclarators bound ds, renameDeclarator]
    cases r.get? d.name <;> rfl

/-- A declaration under the names that `r` gives. -/
def renamedKind : DeclarationKind → DeclarationKind
  | .variableList flavor ds => .variableList flavor (renameDeclarators r ds).value
  | kind => kind.setName (newName r (kind.name?.getD ""))

theorem value_renameMember {d : Declaration} (h : isRenamed r (.declaration d) = true) :
    (renameMember r (.declaration d)).value
      = .declaration ⟨d.id, d.modifiers.erase .exported, d.pos, renamedKind r d.kind⟩ := by
  obtain ⟨id, modifiers, pos, k⟩ := d
  simp only [renameMember, h]
  cases k <;> rfl

/-- A declaration under the new names of its members has the same occurrences. -/
theorem renameMember_declaration (d : Declaration) :
    ∃ d', (renameMember r (.declaration d)).value = .declaration d'
      ∧ Free.memberNames (.declaration d') = (Free.memberNames (.declaration d)).map (newName r)
      ∧ ∀ bound, Free.inDeclaration bound d' = Free.inDeclaration bound d := by
  by_cases hr : isRenamed r (.declaration d) = true
  · obtain ⟨id, modifiers, pos, k⟩ := d
    refine ⟨_, value_renameMember r hr, ?_, fun bound => ?_⟩
    · cases k with
      | variableList flavor ds =>
        simp [Free.memberNames, renamedKind, memberNames_renameDeclarators r ds]
      | classLike name tps base implemented members | function name tps ps result =>
        cases name with
        | none => simp [isRenamed, Free.memberNames, DeclarationKind.name?] at hr
        | some name => rfl
      | _ => rfl
    · cases k with
      | variableList flavor ds => exact inOption_renameDeclarators r bound ds
      | _ => rfl
  · have hkept : ∀ x ∈ Free.memberNames (.declaration d), newName r x = x := by
      intro x hx
      refine newName_of_not_mem r fun hk => hr ?_
      exact List.any_eq_true.2 ⟨x, hx, Table.contains_iff.2 hk⟩
    refine ⟨d, by simp [renameMember, hr], ?_, fun bound => rfl⟩
    rw [List.map_congr_left hkept, List.map_id']

theorem inStatement_renameMember (bound : List Binder) (s : Statement) :
    Free.inStatement bound (renameMember r s).value = Free.inStatement bound s := by
  cases s with
  | declaration d =>
    obtain ⟨d', hd, -, hin⟩ := renameMember_declaration r d
    rw [hd]
    exact hin bound
  | _ => rfl

theorem bodyBinders_renameMember (s : Statement) :
    Free.bodyBinders [(renameMember r s).value]
      = (Free.bodyBinders [s]).map fun b => (newName r b.1, .both) := by
  cases s with
  | declaration d =>
    obtain ⟨d', hd, hn, -⟩ := renameMember_declaration r d
    rw [hd, bodyBinders_of_not_imports (s := .declaration d') (by simp),
      bodyBinders_of_not_imports (s := .declaration d) (by simp), hn, List.map_map, List.map_map]
    rfl
  | imports i =>
    simp [renameMember, Free.bodyBinders, ImportStatement.bindings, Option.toList_map,
      Function.comp_def]
  | _ => rfl

theorem bodyBinders_renameStatements (body : List Statement) :
    Free.bodyBinders (renameStatements r body).value
      = (Free.bodyBinders body).map fun b => (newName r b.1, .both) := by
  induction body with
  | nil => rfl
  | cons s ss ih =>
    rw [renameStatements, Named.value_bind, Named.value_bind, Named.value_pure, bodyBinders_cons,
      bodyBinders_renameMember, ih, ← List.map_append, ← bodyBinders_cons]

theorem inBody_renameStatements (bound : List Binder) (body : List Statement) :
    Free.inBody bound (renameStatements r body).value = Free.inBody bound body := by
  induction body with
  | nil => rfl
  | cons s ss ih =>
    simp only [renameStatements, Named.value_bind, Named.value_pure, Free.inBody,
      inStatement_renameMember, ih]

theorem bodyBinders_append (body body' : List Statement) :
    Free.bodyBinders (body ++ body') = Free.bodyBinders body ++ Free.bodyBinders body' :=
  List.flatMap_append

theorem inBody_append (bound : List Binder) : ∀ body body' : List Statement,
    Free.inBody bound (body ++ body') = Free.inBody bound body ++ Free.inBody bound body'
  | [], _ => rfl
  | s :: ss, body' => by
    simp only [List.cons_append, Free.inBody, inBody_append bound ss body', List.append_assoc]

theorem bodyBinders_finishBody (body : List Statement) :
    Free.bodyBinders (finishBody r body).value
      = (Frame.members body).map fun m => (newName r m, .both) := by
  rw [finishBody]
  split
  · rename_i he
    have hr : ∀ m ∈ Frame.members body, (newName r m, Space.both) = (m, .both) := by
      intro m _
      have hnone : m ∉ r.keys := by
        rw [Table.keys, List.isEmpty_iff.1 he]
        exact List.not_mem_nil
      rw [newName_of_not_mem r hnone]
    rw [List.map_congr_left hr, ← bodyBinders_eq_members]
    rfl
  · rw [Named.value_bind, Named.value_pure, bodyBinders_append, bodyBinders_renameStatements,
      bodyBinders_eq_members body, List.map_map]
    split <;> exact List.append_nil _

theorem mem_members_of_lostExports {body : List Statement} {x : ExportSpecifier}
    (h : x ∈ lostExports r body) : ∃ m ∈ Frame.members body, x.binding = newName r m := by
  obtain ⟨name, hname, rfl⟩ := List.mem_map.1 h
  obtain ⟨s, hs, hm⟩ := List.mem_flatMap.1 (List.mem_eraseDups.1 hname)
  cases s with
  | declaration d =>
    refine ⟨name, List.mem_map.2 ⟨(name, .both), ?_, rfl⟩, rfl⟩
    refine List.mem_flatMap.2 ⟨_, hs, List.mem_map.2 ⟨name, ?_, rfl⟩⟩
    simp only at hm
    split at hm
    · exact hm
    · simp at hm
  | _ => simp at hm

/-- Finishing a body leaves its references, under binders that hold the new names of its
members. -/
theorem references_finishBody (body : List Statement) {bound : List Binder}
    (h : ∀ m ∈ Frame.members body, (newName r m, .both) ∈ bound) :
    Occurrence.references (Free.inBody bound (finishBody r body).value)
      = Occurrence.references (Free.inBody bound body) := by
  rw [finishBody]
  split
  · rfl
  · rw [Named.value_bind, Named.value_pure, inBody_append, inBody_renameStatements]
    split
    · rw [Free.inBody, List.append_nil]
    · have hnone : Free.inBody bound [.exports ⟨lostExports r body, none, false⟩] = [] := by
        simp only [Free.inBody, Free.inStatement, List.append_nil]
        refine List.flatMap_eq_nil_iff.2 fun x hx => ?_
        obtain ⟨m, hm, hb⟩ := mem_members_of_lostExports r hx
        have hbound : Free.isBound bound x.binding .both = true :=
          List.any_eq_true.2 ⟨_, h m hm, by simp [hb, Space.covers]⟩
        simp [Free.useName, hbound]
      rw [hnone, List.append_nil]

end Rename

/-- The references of a finished body are those of the body before its members are renamed. -/
theorem Frame.references_enterBody (f : Frame) (body : List Statement) :
    let inner := (Rename.statements (f.enterBody body).site body).value
    let final := (Rename.finishBody (f.renamedMembers body) inner).value
    Occurrence.references (Free.inBody (Free.bodyBinders final ++ f.after) final)
      = Occurrence.references (Free.inBody (f.enterBody body).after inner) := by
  intro inner final
  have hm : members inner = members body :=
    congrArg (List.map Prod.fst) (Rename.bodyBinders_statements _ body)
  have hafter : Free.bodyBinders final ++ f.after = (f.enterBody body).after := by
    rw [Rename.bodyBinders_finishBody, hm]
    rfl
  rw [hafter]
  refine Rename.references_finishBody _ inner fun m hmem => ?_
  rw [hm] at hmem
  exact List.mem_append_left _ (List.mem_map.2 ⟨m, hmem, rfl⟩)

namespace NamePlace

@[simp] theorem found_comp_within (f : Frame) (body : List Statement) :
    found f ∘ within body = found (f.enterBody body) := rfl

theorem filterMap_found_ofSpots (f : Frame) (ps : List Spot) :
    (ofSpots ps).filterMap (found f) = ps.filterMap (Spot.found f) := by
  rw [ofSpots, List.filterMap_map]
  rfl

mutual
theorem found_inKind (f : Frame) : ∀ kind : DeclarationKind,
    Occurrence.references (Free.inKind f.after (Rename.kind f.site kind).value)
      = (inKind kind).filterMap (found f)
  | .namespaceBlock _ _ body => by
    rw [inKind, List.filterMap_map, found_comp_within, ← found_inBody _ body]
    exact f.references_enterBody body
  | .interface .. | .classLike .. | .function .. | .variableList .. | .enumeration ..
  | .typeAlias .. => by
    rw [inKind, filterMap_found_ofSpots]
    · exact Spot.found_inKind f _ fun _ _ _ h => nomatch h
    · exact fun _ _ _ h => nomatch h

theorem found_inDeclaration (f : Frame) : ∀ d : Declaration,
    Occurrence.references (Free.inDeclaration f.after (Rename.declaration f.site d).value)
      = (inDeclaration d).filterMap (found f)
  | ⟨_, _, _, kind⟩ => found_inKind f kind

theorem found_inBody (f : Frame) : ∀ body : List Statement,
    Occurrence.references (Free.inBody f.after (Rename.statements f.site body).value)
      = (inBody body).filterMap (found f)
  | [] => rfl
  | s :: ss => by
    simp [Rename.statements, Free.inBody, inBody, found_inStatement f s, found_inBody f ss]

theorem found_inStatement (f : Frame) : ∀ s : Statement,
    Occurrence.references (Free.inStatement f.after (Rename.statement f.site s).value)
      = (inStatement s).filterMap (found f)
  | .declaration d => found_inDeclaration f d
  | .exports ⟨specifiers, none, _⟩ => by
    rw [inStatement, filterMap_found_ofSpots]
    simp only [Rename.statement, Named.value_pure, Free.inStatement, Occurrence.references_flatMap,
      Spot.references_useName]
    induction specifiers with
    | nil => rfl
    | cons x xs ih =>
      rw [List.map_cons, List.flatMap_cons, ih, List.map_cons, ← List.singleton_append,
        List.filterMap_append, Spot.filterMap_found_singleton]
      rfl
  | .exportDefault expression | .exportAssignment expression => by
    rw [inStatement, filterMap_found_ofSpots, Spot.filterMap_found_singleton]
    exact Spot.references_useName f.after .both (Rename.plainName f.site expression)
  | .verbatim tokens _ => by
    rw [inStatement, filterMap_found_ofSpots]
    exact Spot.found_ofTokens f tokens
  | .imports _ | .exports ⟨_, some _, _⟩ | .exportAll .. => rfl
end

end NamePlace

/-- The references of a renamed declaration are what is found at its places. -/
theorem mem_references_rename {s : Site} {d : Declaration} {r : Reference} :
    r ∈ (Analysis.declaration (Rename.declaration s d).value).references
      ↔ ∃ p ∈ NamePlace.inDeclaration d, p.found { site := s } = some r := by
  rw [Analysis.declaration, Analysis.references_ofOccurrences, List.mem_eraseDups,
    ← List.mem_filterMap, ← NamePlace.found_inDeclaration]

end DeclBundle
