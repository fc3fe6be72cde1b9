import DeclBundle.Proofs.Names.Bodies

/-!
# Finished bodies

A body is finished by renaming its statements, one by one, and by a list for the exports that are
lost (`Rename.value_finishBody`). Which exports are lost depends on the names and the modifiers of
the body, which renaming what stands in it leaves (`Rename.lostExports_statements`).
-/

namespace DeclBundle

namespace Rename

variable (r : Table String String)

/-! ## Lists of statements -/

theorem value_statements (s : Site) (body : List Statement) :
    (statements s body).value = body.map fun st => (statement s st).value := by
  induction body with
  | nil => rfl
  | cons st body ih =>
    rw [statements, Named.value_bind, Named.value_bind, Named.value_pure, ih, List.map_cons]

theorem value_renameStatements (body : List Statement) :
    (renameStatements r body).value = body.map fun st => (renameMember r st).value := by
  induction body with
  | nil => rfl
  | cons st body ih =>
    rw [renameStatements, Named.value_bind, Named.value_bind, Named.value_pure, ih, List.map_cons]

/-! ## Exports that are lost -/

/-- The names that a statement no longer exports by its modifier. -/
def lostNames : Statement → List String
  | .declaration d =>
    if d.modifiers.exported && isRenamed r (.declaration d) then Free.memberNames (.declaration d)
    else []
  | _ => []

theorem lostExports_eq (body : List Statement) :
    lostExports r body
      = (body.flatMap (lostNames r)).eraseDups.map fun name => ⟨newName r name, name⟩ := by
  simp only [lostExports]
  congr 3
  funext st
  cases st <;> rfl

theorem isRenamed_statement (s : Site) (st : Statement) :
    isRenamed r (statement s st).value = isRenamed r st := by
  rw [isRenamed, memberNames_statement, isRenamed]

theorem lostNames_statement (s : Site) (st : Statement) :
    lostNames r (statement s st).value = lostNames r st := by
  cases st with
  | declaration d =>
    have hm := memberNames_statement s (.declaration d)
    have hr := isRenamed_statement r s (.declaration d)
    obtain ⟨id, modifiers, pos, k⟩ := d
    change (if modifiers.exported && isRenamed r (statement s (.declaration _)).value
      then Free.memberNames (statement s (.declaration _)).value else []) = _
    rw [hm, hr]
    rfl
  | exports e =>
    obtain ⟨specifiers, source, typeOnly⟩ := e
    cases source <;> rfl
  | _ => rfl

theorem lostExports_statements (s : Site) (body : List Statement) :
    lostExports r (statements s body).value = lostExports r body := by
  rw [lostExports_eq, lostExports_eq, value_statements, List.flatMap_map]
  simp only [lostNames_statement]

/-- What is lost was exported by the modifier of a declaration with a renamed member, and is given
the name that it has now. -/
theorem mem_lostExports {body : List Statement} {x : ExportSpecifier} (h : x ∈ lostExports r body) :
    x.binding = newName r x.exported ∧ ∃ d, .declaration d ∈ body ∧ d.modifiers.exported = true
      ∧ isRenamed r (.declaration d) = true ∧ x.exported ∈ Free.memberNames (.declaration d) := by
  rw [lostExports_eq] at h
  obtain ⟨name, hname, rfl⟩ := List.mem_map.1 h
  obtain ⟨st, hst, hm⟩ := List.mem_flatMap.1 (List.mem_eraseDups.1 hname)
  cases st with
  | declaration d =>
    rw [lostNames] at hm
    split at hm
    · rename_i hc
      obtain ⟨hexported, hrenamed⟩ := (Bool.and_eq_true _ _).mp hc
      exact ⟨rfl, d, hst, hexported, hrenamed, hm⟩
    · exact absurd hm List.not_mem_nil
  | _ => exact absurd hm List.not_mem_nil

/-! ## Where nothing is renamed -/

variable {r}

theorem isRenamed_of_isEmpty (h : r.rows.isEmpty = true) (st : Statement) :
    isRenamed r st = false := by
  refine Bool.eq_false_iff.2 fun hr => ?_
  obtain ⟨m, -, hm⟩ := List.any_eq_true.1 hr
  rw [Table.contains_iff, Table.keys, List.isEmpty_iff.1 h] at hm
  exact absurd hm List.not_mem_nil

theorem newName_of_isEmpty (h : r.rows.isEmpty = true) : newName r = id := by
  funext name
  refine newName_of_not_mem r ?_
  rw [Table.keys, List.isEmpty_iff.1 h]
  exact List.not_mem_nil

theorem renameMember_of_isEmpty (h : r.rows.isEmpty = true) (st : Statement) :
    renameMember r st = pure st := by
  cases st with
  | declaration d => simp [renameMember, isRenamed_of_isEmpty h]
  | imports i => simp [renameMember, newName_of_isEmpty h]
  | _ => rfl

theorem lostExports_of_isEmpty (h : r.rows.isEmpty = true) (body : List Statement) :
    lostExports r body = [] := by
  have hnone : ∀ st, lostNames r st = [] := by
    intro st
    cases st with
    | declaration d => simp [lostNames, isRenamed_of_isEmpty h]
    | _ => rfl
  rw [lostExports_eq, List.flatMap_eq_nil_iff.2 fun st _ => hnone st]
  rfl

/-- The list that puts lost exports back, if there are any. -/
def restored (r : Table String String) (body : List Statement) : List Statement :=
  if (lostExports r body).isEmpty then [] else [.exports ⟨lostExports r body, none, false⟩]

theorem value_finishBody (r : Table String String) (body : List Statement) :
    (finishBody r body).value
      = body.map (fun st => (renameMember r st).value) ++ restored r body := by
  rw [finishBody]
  split
  · rename_i h
    simp [renameMember_of_isEmpty h, restored, lostExports_of_isEmpty h]
  · rw [← value_renameStatements]
    rfl

/-- A body of a namespace under final names, at the site of the namespace. -/
def bodyAt (s : Site) (body : List Statement) : List Statement :=
  let entered := s.enterBody (capturedNames s body) (Frame.members body)
  (body.map fun st => (renameMember entered.1 (statement entered.2 st).value).value)
    ++ restored entered.1 body

theorem value_finishBody_statements (s : Site) (body : List Statement) :
    (finishBody (s.enterBody (capturedNames s body) (Frame.members body)).1
      (statements (s.enterBody (capturedNames s body) (Frame.members body)).2 body).value).value
        = bodyAt s body := by
  rw [value_finishBody, restored, lostExports_statements, value_statements, List.map_map]
  rfl

theorem value_kind_namespaceBlock (s : Site) (name : String) (moduleKeyword : Bool)
    (body : List Statement) :
    (kind s (.namespaceBlock name moduleKeyword body)).value
      = .namespaceBlock name moduleKeyword (bodyAt s body) :=
  congrArg _ (value_finishBody_statements s body)

/-- The members of a renamed body are those of the body under the names that they have in it. -/
theorem members_bodyAt (s : Site) (body : List Statement) :
    Frame.members (bodyAt s body) = (Frame.members body).map
      (newName (s.enterBody (capturedNames s body) (Frame.members body)).1) := by
  have hm : ∀ inner, Frame.members (statements inner body).value = Frame.members body :=
    fun inner => congrArg (List.map Prod.fst) (bodyBinders_statements inner body)
  rw [← value_finishBody_statements, Frame.members, bodyBinders_finishBody, hm, List.map_map]
  rfl

end Rename

end DeclBundle
