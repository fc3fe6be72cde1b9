import DeclBundle.Proofs.Bundle.Imports
import DeclBundle.Proofs.Bundle.Stages

/-!
# Bundles are closed

A reference in a bundle that resolves to something has a final name, and the bundle introduces it:
by a declaration of the symbol that the reference means, by the block of a namespace, or by the
imports of a library (`closed_bundle`).

The modules of a bundle hold all that is looked up in them, so a symbol that is referred to lies in
one of them, and with it all its declarations survive.
-/

namespace DeclBundle

/-- How a file introduces the name of what a reference means. -/
def OutputFile.Introduces (f : OutputFile) (m : MergeInput) (name : String) : Resolution → Prop
  | .declaration id => ∃ p ∈ f.statements, p.origin ≠ none
      ∧ ∃ c ∈ m.linker.symbolDecls id, (some c, name) ∈ p.statement.introduced
  | .namespaceOf module => ∃ p ∈ f.statements, p.origin = none
      ∧ ∃ id, p.statement = m.namespaceStatement module name id
  | .external ref => ∃ i ∈ f.imports, (ref.specifier, ref.remote.name, name) ∈ i.locals
  | .unresolved => False

namespace Bundler

/-- The references of a bundle: those of the declarations and variables that survive, and those of
the text in its modules. -/
inductive Uses (b : Bundler) (entry : Entry) (entryId module : ModuleId) (r : Reference) : Prop
  | declaration {t : ModuleTree} {d : Declaration} {id : Option DeclId} {a : Analysis}
    (ht : t ∈ b.shaken entry entryId) (hm : t.module = module) (hd : .declaration d ∈ t.statements)
    (ha : (id, a) ∈ d.analyses) (hr : r ∈ a.references)
  | verbatim {u : DeclUnit} {tokens : List Token} {pos : Option Position}
    (hm : module ∈ b.sources entryId) (hu : b.store.get? module = some u)
    (hs : .verbatim tokens pos ∈ u.statements) (hr : r ∈ (Analysis.verbatim tokens).references)

variable {store : Store} (hb : store.Built) (options : Options) (entry : Entry)
  (entryId : ModuleId)

/-- The edges of an analysis in a module, all of which the bundle takes in. -/
structure Covers (b : Bundler) (entry : Entry) (entryId : ModuleId) (e : Edges) : Prop where
  targets : ∀ {t}, t ∈ e.targets → t ∈ b.reached entry entryId
  globals : ∀ {x}, x ∈ e.globals → x ∈ (b.reached entry entryId).globals

include hb in
theorem edgesOf_survivor {c : TopBinding}
    (hc : c ∈ (ofStore store options).survivors entry entryId) :
    (ofStore store options).references.edgesOf c.id = c.edges (store.linker options) := by
  obtain ⟨hs, -, -⟩ := (mem_survivors options entry entryId).1 hc
  rw [DependencyGraph.edgesOf]
  exact congrArg (·.getD {}) (hb.edgesOf_of_mem (store.linker options) hs)

theorem verbatimEdges_ofStore {m : ModuleId} {u : DeclUnit} (hu : store.get? m = some u) :
    (ofStore store options).references.verbatimEdges m
      = DependencyGraph.unitVerbatim (store.linker options) m u := by
  simp only [Store.get?] at hu
  simp [ofStore, DependencyGraph.build, DependencyGraph.verbatimEdges, hu]

include hb in
theorem covers_survivor {c : TopBinding}
    (hc : c ∈ (ofStore store options).survivors entry entryId) :
    (ofStore store options).Covers entry entryId (c.edges (store.linker options)) := by
  obtain ⟨-, -, hid⟩ := (mem_survivors options entry entryId).1 hc
  have he := edgesOf_survivor hb options entry entryId hc
  refine ⟨fun ht => ?_, fun hx => ?_⟩
  · exact successors_reached _ entry entryId hid (he ▸ ht)
  · exact (mem_globals_reached _ entry entryId).2 (.inl ⟨c.id, hid, he ▸ hx⟩)

theorem covers_verbatim {m : ModuleId} {u : DeclUnit} {tokens : List Token} {pos : Option Position}
    (hm : m ∈ (ofStore store options).sources entryId) (hu : store.get? m = some u)
    (hs : .verbatim tokens pos ∈ u.statements) :
    (ofStore store options).Covers entry entryId
      (Edges.ofAnalysis (store.linker options) m u.path (.verbatim tokens)) := by
  have he := verbatimEdges_ofStore options hu
  refine ⟨fun ht => ?_, fun hx => ?_⟩
  · refine verbatim_reached _ entry entryId hm ?_
    rw [he, DependencyGraph.unitVerbatim, Edges.targets_foldl, List.flatMap_map]
    exact List.mem_append_right _ (List.mem_flatMap.2 ⟨_, hs, ht⟩)
  · refine (mem_globals_reached _ entry entryId).2 (.inr ⟨m, hm, ?_⟩)
    rw [he, DependencyGraph.unitVerbatim, Edges.globals_foldl, List.flatMap_map]
    exact List.mem_append_right _ (List.mem_flatMap.2 ⟨_, hs, hx⟩)

include hb in
/-- A reference of a bundle belongs to an analysis of one of its modules, and the bundle takes in
all that this analysis refers to. -/
theorem Uses.analysed {m : ModuleId} {r : Reference}
    (h : (ofStore store options).Uses entry entryId m r) :
    ∃ u st a path, m ∈ (ofStore store options).sources entryId ∧ store.get? m = some u
      ∧ st ∈ u.statements ∧ a ∈ st.analyses ∧ r ∈ a.references
      ∧ (ofStore store options).Covers entry entryId
          (Edges.ofAnalysis (store.linker options) m path a) := by
  cases h with
  | declaration ht hm hd ha hr =>
    obtain ⟨c, hc, -, rfl, hcm⟩ := survivor_of_analyses hb options entry entryId ht hd ha
    obtain ⟨hs, hsrc, -⟩ := (mem_survivors options entry entryId).1 hc
    obtain ⟨u, hu, hcu⟩ := Store.mem_bindings.1 hs
    obtain ⟨st, hst, hcu⟩ := List.mem_flatMap.1 hcu
    rw [← hm, ← hcm]
    exact ⟨u, st, _, c.path, hsrc, hu, hst, Statement.analysis_mem_analyses hcu, hr,
      covers_survivor hb options entry entryId hc⟩
  | verbatim hm hu hs hr =>
    exact ⟨_, _, _, _, hm, hu, hs, List.mem_singleton.2 rfl, hr,
      covers_verbatim options entry entryId hm hu hs⟩

include hb in
/-- What a reference of a bundle means lies in the modules of the bundle. -/
theorem Uses.within {m : ModuleId} {r : Reference}
    (h : (ofStore store options).Uses entry entryId m r) :
    ((store.linker options).resolveReference m r).Within (store.linker options)
      (· ∈ (ofStore store options).sources entryId) := by
  obtain ⟨u, st, a, path, hm, hu, hst, ha, hr, -⟩ := h.analysed hb
  have hS := @Store.closed_sourceModules store options entryId
  cases r with
  | name name => exact Linker.within_resolveLocal hS hm name
  | importType specifier qualifier =>
    simp only [Linker.resolveReference]
    split
    · trivial
    · rename_i target name hl
      exact Linker.within_resolveExport hS
        (Store.target_mem_sourceModules hm hu hst ha hr hl) name
    · rename_i target hl
      exact Store.target_mem_sourceModules hm hu hst ha hr hl

include hb in
/-- A name of a bundle that nothing provides is one of the globals that are reached. -/
theorem Uses.mem_globals {m : ModuleId} {x : String}
    (h : (ofStore store options).Uses entry entryId m (.name x))
    (hr : ((store.linker options).resolveLocal m x).1 = .unresolved) :
    x ∈ ((ofStore store options).reached entry entryId).globals := by
  obtain ⟨u, st, a, path, -, -, -, -, hra, hc⟩ := h.analysed hb
  exact hc.globals (Edges.mem_globals_ofAnalysis hra hr)

/-! ## Each kind of resolution -/

include hb in
/-- A symbol of the modules of a bundle that is reached has a final name, which its declarations
carry. -/
theorem introduces_declaration {id : DeclId}
    (hw : (Resolution.declaration id).Within (store.linker options)
      (· ∈ (ofStore store options).sources entryId))
    (ht : ∀ t ∈ (store.linker options).targets (.declaration id),
      t ∈ (ofStore store options).reached entry entryId) :
    ∃ name, ((ofStore store options).names entry entryId).resolved? (store.linker options)
        (.declaration id) = some name
      ∧ ((ofStore store options).bundleModule entry entryId).file.Introduces
          ((ofStore store options).mergeInput entry entryId) name (.declaration id) := by
  obtain ⟨c, hc, rfl, hm⟩ := Store.binding_of_within hw
  have hr : .declaration c.id ∈ (ofStore store options).reached entry entryId :=
    ht _ (hb.targets_of_mem options hc hc rfl rfl)
  have hs := (mem_survivors options entry entryId).2 ⟨hc, hm, hr⟩
  obtain ⟨name, -, hname⟩ := topLevel_of_survivor hb options entry entryId hs
  obtain ⟨p, hp, ho, hpi⟩ := introduced_of_survivor hb options entry entryId hs hname
  refine ⟨name, ?_, p, hp, ho, c.id, Store.mem_symbolDecls_self options hb hc, hpi⟩
  simp only [FinalNames.resolved?, hb.decl?_of_mem options hc]
  exact hname

include hb in
theorem introduces_namespace {m : ModuleId}
    (hr : .namespaceOf m ∈ (ofStore store options).reached entry entryId) :
    ∃ name, ((ofStore store options).names entry entryId).resolved? (store.linker options)
        (.namespaceOf m) = some name
      ∧ ((ofStore store options).bundleModule entry entryId).file.Introduces
          ((ofStore store options).mergeInput entry entryId) name (.namespaceOf m) := by
  have hs := sound_names hb options entry entryId
  obtain ⟨id, hid⟩ := hs.exists_namespace hr
  obtain ⟨name, hn⟩ := hs.exists_name (o := .namespaceOf m) hid
  refine ⟨name, by simp [FinalNames.resolved?, hid, hn], ?_⟩
  obtain ⟨blockId, hblock⟩ := ((ofStore store options).mergeInput entry entryId).namespace_mem_merge
    (Table.mem_rows_of_get? hid) hn
  refine ⟨{ statement := _ }, ?_, rfl, blockId, rfl⟩
  rw [statements_bundleModule]
  exact List.mem_append_right _ (List.mem_map.2 ⟨_, hblock, rfl⟩)

include hb in
theorem introduces_external {ref : LibraryBinding}
    (hr : .import_ ref ∈ (ofStore store options).reached entry entryId) :
    ∃ name, ((ofStore store options).names entry entryId).resolved? (store.linker options)
        (.external ref) = some name
      ∧ ((ofStore store options).bundleModule entry entryId).file.Introduces
          ((ofStore store options).mergeInput entry entryId) name (.external ref) := by
  have hs := sound_names hb options entry entryId
  obtain ⟨id, hid⟩ := hs.exists_external hr
  obtain ⟨name, hn⟩ := hs.exists_name (o := .library ref) hid
  refine ⟨name, by simp [FinalNames.resolved?, hid, hn], ?_⟩
  have hentry : (ref.specifier, ref.remote.name, name)
      ∈ ((ofStore store options).names entry entryId).externals.rows.filterMap
          (importRow? ((ofStore store options).names entry entryId)) :=
    List.mem_filterMap.2 ⟨(ref, id), Table.mem_rows_of_get? hid, by simp [importRow?, hn]⟩
  rw [← (locals_libraryImports hs.externals_nodup).mem_iff] at hentry
  exact List.mem_flatMap.1 hentry

include hb in
/-- What lies in the modules of a bundle and is reached has a final name that the bundle
introduces. -/
theorem introduces_of_within {r : Resolution} (hr : r ≠ .unresolved)
    (hw : r.Within (store.linker options) (· ∈ (ofStore store options).sources entryId))
    (ht : ∀ t ∈ (store.linker options).targets r,
      t ∈ (ofStore store options).reached entry entryId) :
    ∃ name, ((ofStore store options).names entry entryId).resolved? (store.linker options) r
        = some name
      ∧ ((ofStore store options).bundleModule entry entryId).file.Introduces
          ((ofStore store options).mergeInput entry entryId) name r := by
  cases r with
  | declaration id => exact introduces_declaration hb options entry entryId hw ht
  | namespaceOf target =>
    exact introduces_namespace hb options entry entryId (ht _ (List.mem_singleton.2 rfl))
  | external ref =>
    exact introduces_external hb options entry entryId (ht _ (List.mem_singleton.2 rfl))
  | unresolved => exact absurd rfl hr

include hb in
/-- What a reference of a bundle means has a final name that the bundle introduces. -/
theorem introduces_of_uses {m : ModuleId} {r : Reference}
    (h : (ofStore store options).Uses entry entryId m r)
    (hr : (store.linker options).resolveReference m r ≠ .unresolved) :
    ∃ name, ((ofStore store options).names entry entryId).resolved? (store.linker options)
        ((store.linker options).resolveReference m r) = some name
      ∧ ((ofStore store options).bundleModule entry entryId).file.Introduces
          ((ofStore store options).mergeInput entry entryId) name
          ((store.linker options).resolveReference m r) := by
  obtain ⟨u, st, a, path, -, -, -, -, hra, hc⟩ := h.analysed hb
  exact introduces_of_within hb options entry entryId hr (h.within hb) fun t ht =>
    hc.targets (Edges.mem_targets_ofAnalysis hra hr ht)

/-- Every reference of a bundle that resolves has a final name, and the bundle introduces it as what
the reference means. -/
theorem closed_bundle {store : Store} (hb : store.Built) (options : Options) (entry : Entry)
    {bundle : Bundle} (h : (ofStore store options).bundle entry = .ok bundle) :
    ∃ entryId, store.lookup entry.module = some entryId ∧
      ∀ module r, (ofStore store options).Uses entry entryId module r →
        (store.linker options).resolveReference module r ≠ .unresolved →
          ∃ name, bundle.naming.names.resolved? (store.linker options)
              ((store.linker options).resolveReference module r) = some name
            ∧ bundle.file.Introduces ((ofStore store options).mergeInput entry entryId) name
                ((store.linker options).resolveReference module r) := by
  obtain ⟨entryId, hid, rfl⟩ := bundle_ok _ entry h
  exact ⟨entryId, hid, fun module r hu hr => introduces_of_uses hb options entry entryId hu hr⟩

/-- Text in one module that uses what another declares, under another name. -/
def textUnits : List DeclUnit :=
  [⟨"a.ts", [.imports ⟨"b.ts", none, none, [⟨"T", "U"⟩], false⟩, .verbatim [.identifier "U"] none]⟩,
    ⟨"b.ts", [.declaration ⟨none, { exported := true }, none, .interface "T" [] [] []⟩]⟩]

theorem closed_bundle_text : ∃ store bundle, Store.ofUnits textUnits = .ok store
    ∧ (ofStore store {}).bundle ⟨"a.ts", "a.d.ts", none⟩ = .ok bundle
    ∧ ∃ name, bundle.naming.names.resolved? (store.linker {}) (.declaration 0) = some name
      ∧ bundle.file.Introduces ((ofStore store {}).mergeInput ⟨"a.ts", "a.d.ts", none⟩ 0) name
          (.declaration 0) := by
  have hb := @Store.built_ofUnits textUnits _ rfl
  refine ⟨_, _, rfl, rfl, ?_⟩
  obtain ⟨entryId, hid, h⟩ := closed_bundle hb {} ⟨"a.ts", "a.d.ts", none⟩ rfl
  cases (Option.some.inj hid : 0 = entryId)
  exact h 0 (.name "U")
    (.verbatim (Store.entry_mem_sourceModules 0) rfl (List.mem_cons_of_mem _ List.mem_cons_self)
      (List.mem_singleton.2 rfl))
    (by decide)

end Bundler

end DeclBundle
