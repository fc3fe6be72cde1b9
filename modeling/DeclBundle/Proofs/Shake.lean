import DeclBundle.Proofs.Store
import DeclBundle.Shake

/-!
# What shaking leaves

Shaking keeps the top-level bindings that are reached, each as it was (`topBindings_shaken`).
-/

namespace DeclBundle

namespace Shake

variable (r : Reach)

theorem topBindings_statement? (module : ModuleId) (path : String) (s : Statement) :
    (statement? r s).toList.flatMap (Statement.topBindings module path)
      = (s.topBindings module path).filter (·.id ∈ r.decls) := by
  cases s with
  | declaration d =>
    obtain ⟨id, modifiers, pos, kind⟩ := d
    cases kind with
    | variableList flavor ds =>
      have hf : ∀ vs : List Declarator, (vs.filter fun v => keeps r v.id).filterMap (fun v =>
            v.id.map fun id =>
              (⟨id, module, path, v.name, .variableList, .declarator v⟩ : TopBinding))
          = (vs.filterMap fun v => v.id.map fun id =>
              (⟨id, module, path, v.name, .variableList, .declarator v⟩ : TopBinding)).filter
            (·.id ∈ r.decls) := by
        intro vs
        induction vs with
        | nil => rfl
        | cons v vs ih =>
          obtain ⟨vid, name, ascription, initializer⟩ := v
          cases vid with
          | none => simpa [keeps] using ih
          | some i =>
            by_cases hi : i ∈ r.decls <;> simpa [keeps, Reach.contains, hi] using ih
      have hs := hf ds
      simp only [statement?, Statement.topBindings]
      split
      · rename_i he
        rw [he] at hs
        exact hs
      · simpa [Statement.topBindings] using hs
    | _ =>
      cases id with
      | none => simp [statement?, Statement.topBindings, keeps]
      | some i =>
        by_cases hi : i ∈ r.decls <;>
          simp [statement?, Statement.topBindings, keeps, Reach.contains, hi]
  | _ => simp [statement?, Statement.topBindings]

theorem topBindings_shaken (module : ModuleId) (path : String) (ss : List Statement) :
    topBindings module path (ss.filterMap (statement? r))
      = (topBindings module path ss).filter (·.id ∈ r.decls) := by
  induction ss with
  | nil => rfl
  | cons s ss ih =>
    have hs := topBindings_statement? r module path s
    simp only [topBindings, List.flatMap_cons, List.filter_append] at ih ⊢
    rw [← ih, ← hs, List.filterMap_cons]
    cases statement? r s <;> simp

variable {r} {store : Store} {ms : List ModuleId} {t : ModuleTree}

theorem mem_modules : t ∈ modules store ms r
    ↔ t.module ∈ ms ∧ ∃ u, store.get? t.module = some u ∧ t = unit r t.module u := by
  simp only [modules, units, List.mem_map, List.mem_filterMap, Option.map_eq_some_iff]
  constructor
  · rintro ⟨⟨m, u⟩, ⟨m', hm, u', hu, he⟩, rfl⟩
    cases he
    exact ⟨hm, u, hu, rfl⟩
  · rintro ⟨hm, u, hu, ht⟩
    exact ⟨(t.module, u), ⟨t.module, hm, u, hu, rfl⟩, ht.symm⟩

theorem mem_topBindings_modules {b : TopBinding} :
    (∃ t ∈ modules store ms r, b ∈ topBindings t.module t.path t.statements)
      ↔ b ∈ store.bindings ∧ b.module ∈ ms ∧ b.id ∈ r.decls := by
  rw [Store.mem_bindings]
  constructor
  · rintro ⟨t, ht, hb⟩
    obtain ⟨hm, u, hu, he⟩ := mem_modules.1 ht
    obtain ⟨hbm, -⟩ := module_of_mem_topBindings hb
    rw [he] at hb
    simp only [unit, topBindings_shaken, List.mem_filter, decide_eq_true_eq] at hb
    rw [hbm]
    exact ⟨⟨u, hu, hb.1⟩, hm, hb.2⟩
  · rintro ⟨⟨u, hu, hb⟩, hm, hr⟩
    refine ⟨unit r b.module u, mem_modules.2 ⟨hm, u, hu, rfl⟩, ?_⟩
    simp only [unit, topBindings_shaken, List.mem_filter, decide_eq_true_eq]
    exact ⟨hb, hr⟩

theorem mem_statements_modules {s : Statement} (ht : t ∈ modules store ms r)
    (hs : s ∈ t.statements) : t.module ∈ ms ∧ ∃ u, store.get? t.module = some u ∧ t.path = u.path
      ∧ ∃ s₀ ∈ u.statements, statement? r s₀ = some s := by
  obtain ⟨hm, u, hu, he⟩ := mem_modules.1 ht
  rw [he] at hs
  obtain ⟨s₀, hs₀, h⟩ := List.mem_filterMap.1 hs
  exact ⟨hm, u, hu, by rw [he, unit], s₀, hs₀, h⟩

theorem statement?_eq_imports {s : Statement} {i : ImportStatement} :
    statement? r s = some (.imports i) ↔ s = .imports i := by
  constructor
  · intro h
    cases s with
    | declaration d =>
      obtain ⟨id, modifiers, pos, kind⟩ := d
      cases kind <;> simp only [statement?] at h <;> split at h <;> cases h
    | _ => exact Option.some.inj h
  · rintro rfl
    rfl

/-- Imports stay. -/
theorem imports_mem_modules {m : ModuleId} {i : ImportStatement} :
    (∃ t ∈ modules store ms r, t.module = m ∧ .imports i ∈ t.statements)
      ↔ m ∈ ms ∧ ∃ u, store.get? m = some u ∧ .imports i ∈ u.statements := by
  constructor
  · rintro ⟨t, ht, rfl, hi⟩
    obtain ⟨hm, u, hu, -, s, hs, he⟩ := mem_statements_modules ht hi
    exact ⟨hm, u, hu, statement?_eq_imports.1 he ▸ hs⟩
  · rintro ⟨hm, u, hu, hi⟩
    exact ⟨unit r m u, mem_modules.2 ⟨hm, u, hu, rfl⟩, rfl,
      List.mem_filterMap.2 ⟨_, hi, statement?_eq_imports.2 rfl⟩⟩

/-- A declaration that is left is one of the unit with some of what it bound. -/
theorem analyses_statement? {s : Statement} {d : Declaration}
    (h : statement? r s = some (.declaration d)) :
    ∃ d₀, s = .declaration d₀ ∧ ∀ b ∈ d.analyses, b ∈ d₀.analyses := by
  cases s with
  | declaration d₀ =>
    refine ⟨d₀, rfl, ?_⟩
    obtain ⟨id, modifiers, pos, kind⟩ := d₀
    cases kind with
    | variableList flavor ds =>
      simp only [statement?] at h
      split at h
      · cases h
      · cases h
        intro b hb
        simp only [Declaration.analyses, List.mem_map] at hb ⊢
        obtain ⟨v, hv, rfl⟩ := hb
        exact ⟨v, (List.mem_filter.1 hv).1, rfl⟩
    | _ =>
      simp only [statement?] at h
      split at h
      · cases h
        exact fun b hb => hb
      · cases h
  | _ => cases h

theorem boundIds_statement? {s : Statement} {d : Declaration}
    (h : statement? r s = some (.declaration d)) :
    ∃ d₀, s = .declaration d₀ ∧ ∀ i ∈ d.boundIds, i ∈ d₀.boundIds := by
  obtain ⟨d₀, rfl, hsub⟩ := analyses_statement? h
  refine ⟨d₀, rfl, ?_⟩
  rw [d.boundIds_eq, d₀.boundIds_eq]
  exact List.map_subset _ hsub

end Shake

end DeclBundle
