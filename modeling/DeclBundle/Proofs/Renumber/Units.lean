import DeclBundle.Proofs.Reach.Within
import DeclBundle.Proofs.Renumber.Basic
import DeclBundle.Proofs.Renumber.Reference

/-!
# Stores under other numbers

A store embeds into another when the other has all its units, under other numbers, and some modules
`S` see the same there: what their units name is the same module or library (`Store.Embeds`). Those
modules are all of a store whose units are put in another order, and the modules of one bundle in a
store that gets other units.
-/

namespace DeclBundle

/-- A unit with all its identities renumbered. -/
def DeclUnit.renumber (f : DeclId → DeclId) (u : DeclUnit) : DeclUnit :=
  { u with statements := Statement.renumberList f u.statements }

/-- A top-level binding with its identity and its module renumbered. -/
def TopBinding.renumber (ρ : Renumbering) (b : TopBinding) : TopBinding :=
  { b with id := ρ.decl b.id, module := ρ.module b.module }

section
variable (f : DeclId → DeclId)

theorem Statement.analyses_renumber (s : Statement) : (s.renumber f).analyses = s.analyses := by
  cases s with
  | declaration d =>
    simp only [Statement.renumber, Statement.analyses, Declaration.analyses_renumber, List.map_map]
    rfl
  | _ => rfl

theorem Statement.importTypes_renumber (s : Statement) :
    (s.renumber f).importTypes = s.importTypes := by
  rw [Statement.importTypes, Statement.analyses_renumber, Statement.importTypes]

theorem Statement.sources_renumber (s : Statement) : (s.renumber f).sources = s.sources := by
  cases s <;> rfl

theorem DeclUnit.specifiers_renumber (u : DeclUnit) : (u.renumber f).specifiers = u.specifiers := by
  simp only [DeclUnit.specifiers, DeclUnit.renumber, Statement.renumberList_eq, List.flatMap_map,
    Statement.sources_renumber, Statement.importTypes_renumber]

end

section
variable (ρ : Renumbering) (m : ModuleId) (path : String)

theorem Statement.topBindings_renumber (s : Statement) :
    (s.renumber ρ.decl).topBindings (ρ.module m) path
      = (s.topBindings m path).map (TopBinding.renumber ρ) := by
  cases s with
  | declaration d =>
    have hd := Analysis.declaration_renumber ρ.decl d
    obtain ⟨id, modifiers, pos, kind⟩ := d
    cases kind with
    | variableList flavor ds =>
      simp only [Statement.renumber, Declaration.renumber, DeclarationKind.renumber,
        Statement.topBindings, List.filterMap_map, List.map_filterMap]
      refine List.filterMap_congr fun v _ => ?_
      have hv := Analysis.declarator_renumber ρ.decl v
      obtain ⟨vid, name, ascription, initializer⟩ := v
      simp only [Declarator.renumber] at hv
      simp only [Function.comp_apply, Declarator.renumber, hv]
      cases vid <;> rfl
    | _ =>
      simp only [Declaration.renumber, DeclarationKind.renumber] at hd
      simp only [Statement.renumber, Declaration.renumber, DeclarationKind.renumber,
        Statement.topBindings, hd]
      cases id <;> rfl
  | _ => rfl

theorem topBindings_renumber (ss : List Statement) :
    topBindings (ρ.module m) path (Statement.renumberList ρ.decl ss)
      = (topBindings m path ss).map (TopBinding.renumber ρ) := by
  simp only [topBindings, Statement.renumberList_eq, List.flatMap_map, List.map_flatMap,
    Statement.topBindings_renumber]

end

/-- The store `s'` has the units of `s` under other numbers, and the modules `S` of `s` see the same
there. -/
structure Store.Embeds (ρ : Renumbering) (s s' : Store) (S : ModuleId → Prop) : Prop
    extends s.SelfContained S where
  built' : s'.Built
  unit : ∀ m, s'.get? (ρ.module m) = (s.get? m).map (DeclUnit.renumber ρ.decl)
  lookup : ∀ {m u x}, S m → s.get? m = some u → x ∈ u.specifiers →
    s'.lookup x = (s.lookup x).map ρ.module

namespace Store.Embeds

variable {ρ : Renumbering} {s s' : Store} {S : ModuleId → Prop} (h : s.Embeds ρ s' S)
  {options : Options} {m : ModuleId} {u : DeclUnit}
include h

theorem binding {b : TopBinding} (hb : b ∈ s.bindings) : b.renumber ρ ∈ s'.bindings := by
  obtain ⟨u, hu, hb⟩ := Store.mem_bindings.1 hb
  refine Store.mem_bindings.2 ⟨u.renumber ρ.decl, ?_, ?_⟩
  · exact (h.unit b.module).trans (congrArg _ hu)
  · exact topBindings_renumber ρ b.module u.path u.statements ▸ List.mem_map.2 ⟨b, hb, rfl⟩

theorem decl? {b : TopBinding} (hb : b ∈ s.bindings) :
    (s'.linker options).decl? (ρ.decl b.id) = some (b.summary.renumber ρ) :=
  h.built'.decl?_of_mem options (h.binding hb)

theorem provider (hm : S m) (hu : s.get? m = some u) {x : String} (hx : x ∈ u.specifiers) :
    s'.provider x = (s.provider x).renumber ρ := by
  rw [Store.provider, h.lookup hm hu hx, Store.provider]
  cases s.lookup x <;> rfl

/-- A module draws from the same modules in both stores. -/
theorem neighbours (hm : S m) {d' : ModuleId} :
    d' ∈ (s'.graph options).neighbours (s'.linker options) (ρ.module m)
      ↔ ∃ d ∈ (s.graph options).neighbours (s.linker options) m, ρ.module d = d' := by
  simp only [Store.mem_neighbours, h.unit, Option.map_eq_some_iff]
  constructor
  · rintro ⟨_, ⟨u, hu, rfl⟩, x, hx, hd⟩
    rw [DeclUnit.specifiers_renumber] at hx
    rw [h.lookup hm hu hx, Option.map_eq_some_iff] at hd
    obtain ⟨d, hd, rfl⟩ := hd
    exact ⟨d, ⟨u, hu, x, hx, hd⟩, rfl⟩
  · rintro ⟨d, ⟨u, hu, x, hx, hd⟩, rfl⟩
    refine ⟨_, ⟨u, hu, rfl⟩, x, (DeclUnit.specifiers_renumber ρ.decl u).symm ▸ hx, ?_⟩
    rw [h.lookup hm hu hx, hd, Option.map_some]

/-- The modules that a bundle draws from are the same in both stores. -/
theorem mem_sourceModules {entry m' : ModuleId} (he : S entry) :
    m' ∈ (s'.graph options).sourceModules (s'.linker options) (ρ.module entry)
      ↔ ∃ m ∈ (s.graph options).sourceModules (s.linker options) entry, ρ.module m = m' := by
  have hS : ∀ {m}, Reaches ((s.graph options).neighbours (s.linker options)) [entry] m → S m :=
    fun hr => h.of_mem_sourceModules he
      ((DependencyGraph.mem_sourceModules _ _ (s.length_importTypeModules options)).2 hr)
  simp only [DependencyGraph.mem_sourceModules _ _ (s.length_importTypeModules options),
    DependencyGraph.mem_sourceModules _ _ (s'.length_importTypeModules options)]
  constructor
  · intro hr
    induction hr with
    | root hr => exact ⟨entry, .root List.mem_cons_self, (List.mem_singleton.1 hr).symm⟩
    | step _ hs ih =>
      obtain ⟨m, hm, rfl⟩ := ih
      obtain ⟨d, hd, rfl⟩ := (h.neighbours (hS hm)).1 hs
      exact ⟨d, .step hm hd, rfl⟩
  · rintro ⟨m, hr, rfl⟩
    induction hr with
    | root hr =>
      rw [List.mem_singleton.1 hr]
      exact .root List.mem_cons_self
    | step hm hd ih => exact .step ih ((h.neighbours (hS hm)).2 ⟨_, hd, rfl⟩)

end Store.Embeds

end DeclBundle
