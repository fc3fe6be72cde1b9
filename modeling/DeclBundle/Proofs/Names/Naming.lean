import DeclBundle.Ambient
import DeclBundle.Proofs.Reference.Places
import DeclBundle.Proofs.Store

/-!
# Declarations under their final names

Naming and what follows it give every top-level binding its final name and leave its identity
(`introduced_written`).
-/

namespace DeclBundle

/-- The names that a top-level declaration introduces, each with its identity. -/
def Declaration.introduced (d : Declaration) : List (Option DeclId × String) :=
  match d.kind with
  | .variableList _ declarators => declarators.map fun v => (v.id, v.name)
  | _ => d.name?.toList.map (d.id, ·)

/-- The names that a top-level statement introduces, each with its identity. -/
def Statement.introduced : Statement → List (Option DeclId × String)
  | .declaration d => d.introduced
  | _ => []

namespace Naming

variable (n : FinalNames)

theorem declarators_introduced (s : Site) : ∀ ds : List Declarator,
    (Rename.declarators s ds).value.map (fun v => (v.id, v.name)) = ds.map fun v => (v.id, v.name)
  | [] => rfl
  | d :: ds => by
    simp only [Rename.declarators, Named.value_bind, Named.value_pure, List.map_cons,
      declarators_introduced s ds]

/-- Renaming what is inside a declaration leaves the names that it introduces. -/
theorem rename_introduced (s : Site) (d : Declaration) :
    (Rename.declaration s d).value.introduced = d.introduced := by
  obtain ⟨id, modifiers, pos, kind⟩ := d
  cases kind with
  | variableList flavor ds => exact declarators_introduced s ds
  | classLike name tps base implemented members => cases base <;> rfl
  | _ => rfl

/-- The identity of a binding and its final name, if it has one. -/
def finalEntry (b : TopBinding) : Option DeclId × Option String := (some b.id, n.get? b.id)

/-- A declaration whose bindings all have identities and final names introduces these. -/
theorem introduced_underFinalName {module : ModuleId} {path : String} {d : Declaration}
    (h : ∀ i ∈ d.boundIds, ∃ id name, i = some id ∧ n.get? id = some name) :
    (underFinalName n d).introduced.map (Prod.map id some)
      = ((Statement.declaration d).topBindings module path).map (finalEntry n) := by
  obtain ⟨id, modifiers, pos, kind⟩ := d
  cases kind with
  | variableList flavor ds =>
    simp only [underFinalName, Declaration.introduced, Statement.topBindings, Declaration.boundIds]
      at h ⊢
    induction ds with
    | nil => rfl
    | cons v vs ih =>
      obtain ⟨vid, vname, ascription, initializer⟩ := v
      obtain ⟨i, name, rfl, hn⟩ := h vid (by simp)
      have ih' := ih fun i hi => h i (List.mem_cons_of_mem _ hi)
      simpa [renameDeclarator, finalEntry, hn] using ih'
  | _ =>
    obtain ⟨i, name, rfl, hn⟩ := h id (by simp [Declaration.boundIds])
    simp [underFinalName, Declaration.introduced, Statement.topBindings, hn, Declaration.setName,
      DeclarationKind.setName, Declaration.name?, DeclarationKind.name?, finalEntry]

theorem boundIds_underFinalName (d : Declaration) : (underFinalName n d).boundIds = d.boundIds := by
  obtain ⟨id, modifiers, pos, kind⟩ := d
  cases kind with
  | variableList flavor ds =>
    simp [underFinalName, Declaration.boundIds, renameDeclarator, Function.comp_def]
  | _ =>
    simp only [underFinalName]
    split <;> rfl

theorem boundIds_rename (s : Site) (d : Declaration) :
    (Rename.declaration s d).value.boundIds = d.boundIds := by
  obtain ⟨id, modifiers, pos, kind⟩ := d
  cases kind with
  | variableList flavor ds =>
    have h := congrArg (List.map Prod.fst) (declarators_introduced s ds)
    simp only [List.map_map, Function.comp_def] at h
    exact h
  | classLike name tps base implemented members => cases base <;> rfl
  | _ => rfl

/-- A top-level statement of a module as it is written. -/
def written (s : Site) (st : Statement) : Statement :=
  match (statement s n st).value with
  | .declaration d => .declaration (Ambient.stripped (Ambient.declared d))
  | other => other

/-- A module with every statement as the names write it at its site. -/
def writtenTree (l : Linker) (n : FinalNames) (t : ModuleTree) : ModuleTree :=
  ⟨t.module, t.path, t.statements.map (written n (site l n t.module))⟩

theorem introduced_ambient (d : Declaration) :
    (Ambient.stripped (Ambient.declared d)).introduced = d.introduced := by
  unfold Ambient.stripped Ambient.declared
  split <;> rfl

/-- The names that a statement introduces as it is written. -/
theorem introduced_written (s : Site) {module : ModuleId} {path : String} {st : Statement}
    (h : ∀ d, st = .declaration d →
      ∀ i ∈ d.boundIds, ∃ id name, i = some id ∧ n.get? id = some name) :
    (written n s st).introduced.map (Prod.map id some)
      = (st.topBindings module path).map (finalEntry n) := by
  cases st with
  | declaration d =>
    rw [← introduced_underFinalName n (h d rfl)]
    simp only [written, statement, Named.value_bind, Named.value_pure, Statement.introduced,
      introduced_ambient, rename_introduced]
  | _ => rfl

end Naming

/-! ## Places of named declarations -/

namespace NamePlace

theorem inDeclaration_underFinalName (n : FinalNames) (d : Declaration) :
    inDeclaration (Naming.underFinalName n d) = inDeclaration d := by
  obtain ⟨id, modifiers, pos, kind⟩ := d
  cases kind with
  | variableList flavor ds =>
    simp only [Naming.underFinalName, inDeclaration, inKind, Spot.inKind, List.flatMap_map]
    rfl
  | _ =>
    simp only [Naming.underFinalName]
    split <;> rfl

/-- What stands at a place of a declaration is one of the references that are analysed in it. -/
theorem exists_analysis {d : Declaration} {p : NamePlace} (hp : p ∈ inDeclaration d) {r : Reference}
    (hr : p.reported [] = some r) : ∃ ia ∈ d.analyses, r ∈ ia.2.references := by
  obtain ⟨id, modifiers, pos, kind⟩ := d
  cases kind with
  | variableList flavor ds =>
    obtain ⟨spot, hs, rfl⟩ := List.mem_map.1 hp
    obtain ⟨v, hv, hs⟩ := List.mem_flatMap.1 hs
    refine ⟨_, List.mem_map.2 ⟨v, hv, rfl⟩, ?_⟩
    rw [Analysis.declarator, Analysis.references_ofOccurrences, List.mem_eraseDups,
      Spot.references_inOption]
    exact List.mem_filterMap.2 ⟨spot, hs, hr⟩
  | _ => exact ⟨_, List.mem_singleton.2 rfl, mem_references_declaration.2 ⟨p, hp, hr⟩⟩

end NamePlace

end DeclBundle
