import DeclBundle.Proofs.Bundle.Reported

/-!
# Broken references are reported

A reference goes through an import of its module, or it is an import type of a module in the store.
Where it leads nowhere, the edges that it belongs to have a report (`Linker.Broken.exists_fault`).
The bundle takes in the reports of what survives and of the text in its modules
(`Bundler.Uses.diagnosed`), so no broken reference of a bundle goes without one
(`Bundler.reports_broken`).
-/

namespace DeclBundle

/-- A reference by an import of its module, or to a module in the store by an import type. -/
def Reference.isImported (l : Linker) (m : ModuleId) : Reference → Bool
  | .name x => l.importsName m x
  | .importType specifier _ => (l.lookup specifier).isSome

namespace Linker

variable {l : Linker} {m : ModuleId} {r : Reference}

/-- A reference of this kind that leads nowhere. -/
structure Broken (l : Linker) (m : ModuleId) (r : Reference) : Prop where
  imported : r.isImported l m = true
  unresolved : l.resolveReference m r = .unresolved

/-- What is wrong with a broken reference in a module. -/
inductive Fault (l : Linker) (m : ModuleId) : Reference → Cause → Prop
  | cycle {name : String} (h : l.findLocal m name = .cycle) :
    Fault l m (.name name) (.reexportCycle name)
  | missing {name : String} {scope : ModuleTables} {row : ImportRow} (hs : l.scope? m = some scope)
    (hi : scope.imports.get? name = some row) (h : l.findLocal m name = .notFound) :
    Fault l m (.name name) (.unresolvedImport row.remote.name (l.refName row.source))
  | importType (specifier : String) (qualifier : Option String) :
    Fault l m (.importType specifier qualifier) (.unresolvedImport (qualifier.getD "*") specifier)

/-- Every fault is an error, with the code of an import or of a cycle. -/
theorem Fault.isError {cause : Cause} (h : l.Fault m r cause) (path : String) :
    (cause.report path).isError = true
      ∧ ((cause.report path).code = 9001 ∨ (cause.report path).code = 9003) := by
  cases h with
  | cycle => exact ⟨rfl, .inr rfl⟩
  | missing => exact ⟨rfl, .inl rfl⟩
  | importType => exact ⟨rfl, .inl rfl⟩

theorem findLocal_ne_found {name : String} (h : (l.resolveLocal m name).1 = .unresolved)
    (r : Resolution) : l.findLocal m name ≠ .found r := by
  intro hf
  have hr : r = .unresolved := by simpa [resolveLocal, hf] using h
  unfold findLocal at hf
  split at hf
  · cases hf
  · exact ne_unresolved_of_chaseLocal hf hr

theorem exists_importRow {name : String} (h : l.importsName m name = true) :
    ∃ scope row, l.scope? m = some scope ∧ scope.imports.get? name = some row := by
  rw [importsName, Option.any_eq_true] at h
  obtain ⟨scope, hs, hi⟩ := h
  obtain ⟨row, hrow⟩ := Table.mem_keys.1 (Table.contains_iff.1 hi)
  exact ⟨scope, row, hs, hrow⟩

/-- A broken reference is reported with its fault. -/
theorem Broken.exists_fault (h : l.Broken m r) : ∃ cause, l.Fault m r cause
    ∧ cause.report (l.modulePath m)
      ∈ (Edges.ofReference l m (l.modulePath m) r).diagnostics := by
  obtain ⟨himported, hr⟩ := h
  cases r with
  | name name =>
    cases hf : l.findLocal m name with
    | found r => exact absurd hf (findLocal_ne_found hr r)
    | cycle =>
      refine ⟨_, .cycle hf, ?_⟩
      simp [Edges.ofReference, Edges.ofName, resolveLocal, hf, cycleReport]
    | notFound =>
      obtain ⟨scope, row, hs, hrow⟩ := exists_importRow himported
      refine ⟨_, .missing hs hrow hf, ?_⟩
      simp [Edges.ofReference, Edges.ofName, resolveLocal, hf, hs, hrow]
  | importType specifier qualifier =>
    obtain ⟨target, hl⟩ := Option.isSome_iff_exists.1 himported
    refine ⟨_, .importType specifier qualifier, ?_⟩
    cases qualifier with
    | none => simp [resolveReference, hl] at hr
    | some name => simp_all [resolveReference, Edges.ofReference, Edges.ofImportType]

end Linker

theorem Store.modulePath_linker {s : Store} (options : Options) {m : ModuleId} {u : DeclUnit}
    (hu : s.get? m = some u) : (s.linker options).modulePath m = u.path := by
  rw [Linker.modulePath, scope?_linker, hu]
  exact (tablesOf_spec m u).2.2.1

namespace Bundler

section
variable (b : Bundler) (entry : Entry) (entryId : ModuleId)

theorem mem_diagnostics_of_reached {id : DeclId} (hid : id ∈ (b.reached entry entryId).decls)
    {d : Diagnostic} (hd : d ∈ (b.references.edgesOf id).diagnostics) :
    d ∈ (b.bundleModule entry entryId).diagnostics := by
  have hreached : d ∈ (b.reached entry entryId).diagnostics :=
    (b.references.mem_diagnostics_closure b.linker).2 ⟨id, hid, hd⟩
  exact List.mem_eraseDups.2 (List.mem_append_right _ hreached)

theorem mem_diagnostics_of_verbatim {m : ModuleId} (hm : m ∈ b.sources entryId) {d : Diagnostic}
    (hd : d ∈ (b.references.verbatimEdges m).diagnostics) :
    d ∈ (b.bundleModule entry entryId).diagnostics := by
  have hreports : d ∈ (b.reach entryId (b.sources entryId) (b.asked entry entryId)).2 :=
    List.mem_append_right _ (List.mem_flatMap.2 ⟨_, List.mem_map.2 ⟨m, hm, rfl⟩, hd⟩)
  exact List.mem_eraseDups.2 (List.mem_append_left _ (List.mem_append_right _ hreports))

end

variable {store : Store} (hb : store.Built) (options : Options) (entry : Entry)
  (entryId : ModuleId)

include hb in
/-- The reports of the analysis that a reference of a bundle belongs to are reports of the
bundle. -/
theorem Uses.diagnosed {m : ModuleId} {r : Reference}
    (h : (ofStore store options).Uses entry entryId m r) :
    ∃ u a, store.get? m = some u ∧ r ∈ a.references
      ∧ ∀ d ∈ (Edges.ofAnalysis (store.linker options) m u.path a).diagnostics,
          d ∈ ((ofStore store options).bundleModule entry entryId).diagnostics := by
  cases h with
  | declaration ht hm hd ha hr =>
    obtain ⟨c, hc, -, rfl, hcm⟩ := survivor_of_analyses hb options entry entryId ht hd ha
    obtain ⟨hs, -, hid⟩ := (mem_survivors options entry entryId).1 hc
    obtain ⟨u, hu, hcu⟩ := Store.mem_bindings.1 hs
    rw [← hm, ← hcm]
    refine ⟨u, c.analysis, hu, hr, fun d hd => ?_⟩
    refine mem_diagnostics_of_reached _ entry entryId hid ?_
    rw [edgesOf_survivor hb options entry entryId hc, TopBinding.edges,
      (module_of_mem_topBindings hcu).2]
    exact hd
  | @verbatim u tokens pos hm hu hs hr =>
    have he : (ofStore store options).references.verbatimEdges m = _ :=
      verbatimEdges_ofStore options hu
    refine ⟨u, .verbatim tokens, hu, hr, fun d hd => ?_⟩
    refine mem_diagnostics_of_verbatim _ entry entryId hm ?_
    rw [he, DependencyGraph.unitVerbatim, Edges.diagnostics_foldl, List.flatMap_map]
    exact List.mem_append_right _ (List.mem_flatMap.2 ⟨_, hs, hd⟩)

/-- Every broken reference of a bundle is reported, as an error about its module that says what is
wrong, and a name is a global then. -/
theorem reports_broken {store : Store} (hb : store.Built) (options : Options) (entry : Entry)
    {bundle : Bundle} (h : (ofStore store options).bundle entry = .ok bundle) :
    ∃ entryId, store.lookup entry.module = some entryId ∧
      ∀ module r, (ofStore store options).Uses entry entryId module r →
        (store.linker options).Broken module r →
          (∃ u cause, store.get? module = some u ∧ (store.linker options).Fault module r cause
              ∧ cause.report u.path ∈ bundle.diagnostics
              ∧ (cause.report u.path).isError = true
              ∧ ((cause.report u.path).code = 9001 ∨ (cause.report u.path).code = 9003))
            ∧ bundle.hasErrors = true
            ∧ ∀ name, r = .name name →
                name ∈ ((ofStore store options).reached entry entryId).globals := by
  obtain ⟨entryId, hid, rfl⟩ := bundle_ok _ entry h
  refine ⟨entryId, hid, fun module r huses hbroken => ?_⟩
  obtain ⟨u, a, hu, hr, hd⟩ := huses.diagnosed hb
  obtain ⟨cause, hfault, hreport⟩ := hbroken.exists_fault
  rw [Store.modulePath_linker options hu] at hreport
  have hmem := hd _ (Edges.mem_diagnostics_ofAnalysis hr hreport)
  obtain ⟨herror, hcode⟩ := hfault.isError u.path
  refine ⟨⟨u, cause, hu, hfault, hmem, herror, hcode⟩, hasErrors_of_mem hmem herror, ?_⟩
  rintro name rfl
  exact huses.mem_globals hb options entry entryId hbroken.unresolved

/-- Text that uses an import which its source does not provide. -/
def danglingUnits : List DeclUnit :=
  [⟨"a.ts",
      [.imports ⟨"b.ts", none, none, [⟨"Gone", "G"⟩], false⟩, .verbatim [.identifier "G"] none]⟩,
    ⟨"b.ts", []⟩]

theorem reports_broken_dangling : ∃ store bundle, Store.ofUnits danglingUnits = .ok store
    ∧ (ofStore store {}).bundle ⟨"a.ts", "a.d.ts", none⟩ = .ok bundle
    ∧ bundle.hasErrors = true
    ∧ "G" ∈ ((ofStore store {}).reached ⟨"a.ts", "a.d.ts", none⟩ 0).globals := by
  have hb := @Store.built_ofUnits danglingUnits _ rfl
  refine ⟨_, _, rfl, rfl, ?_⟩
  obtain ⟨entryId, hid, h⟩ := reports_broken hb {} ⟨"a.ts", "a.d.ts", none⟩ rfl
  cases (Option.some.inj hid : 0 = entryId)
  obtain ⟨-, herrors, hglobal⟩ := h 0 (.name "G")
    (.verbatim (Store.entry_mem_sourceModules 0) rfl (List.mem_cons_of_mem _ List.mem_cons_self)
      (List.mem_singleton.2 rfl))
    ⟨by decide, by decide⟩
  exact ⟨herrors, hglobal "G" rfl⟩

end Bundler

end DeclBundle
