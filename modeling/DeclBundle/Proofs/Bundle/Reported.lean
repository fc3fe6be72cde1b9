import DeclBundle.Proofs.Bundle.Clause
import DeclBundle.Proofs.Link.Derivation

/-!
# Exports that a bundle lacks

A row of the entry that is asked for and is missing in the clause resolves to nothing, and then the
surface reports it (`Linker.report_of_unresolved_row`). An export assignment goes another way: what
it names is looked up inside the module. There a name that is imported is reported when it leads
nowhere (`Linker.reported_of_unresolved`), but one that the module neither declares nor imports is
taken for a global. So an assignment is dropped without a word exactly for such a name
(`Bundler.dropped_exports`).
-/

namespace DeclBundle

/-- The module declares or imports the name. -/
def ModuleTables.Knows (s : ModuleTables) (name : String) : Prop :=
  name ∈ s.symbols.keys ∨ name ∈ s.imports.keys

namespace Linker

variable {l : Linker} {m : ModuleId} {name : String} {scope : ModuleTables} {r : Resolution}

/-! ## Rows of the export table -/

theorem isError_report_unresolvedExport (name path : String) :
    ((Cause.unresolvedExport name).report path).isError = true := rfl

theorem mem_reports_foldl_addExplicit {d : Diagnostic} :
    ∀ (names : List String) {acc : Table String Resolution × List Diagnostic}, d ∈ acc.2 →
      d ∈ (names.foldl (l.addExplicit scope) acc).2
  | [], _, h => h
  | _ :: names, _, h =>
    mem_reports_foldl_addExplicit names (List.mem_append_left _ (List.mem_append_left _ h))

theorem report_mem_foldl_addExplicit (hr : (l.resolveExport scope.module name).1 = .unresolved) :
    ∀ {names : List String} {acc : Table String Resolution × List Diagnostic}, name ∈ names →
      (Cause.unresolvedExport name).report scope.path
        ∈ (names.foldl (l.addExplicit scope) acc).2
  | x :: names, acc, h => by
    rw [List.foldl_cons]
    rcases List.mem_cons.1 h with rfl | h
    · refine mem_reports_foldl_addExplicit names ?_
      simp [addExplicit, hr]
    · exact report_mem_foldl_addExplicit hr h

variable {store : Store} {options : Options}

/-- A row that resolves to nothing is reported with the surface. -/
theorem report_of_unresolved_row (hs : (store.linker options).scope? m = some scope)
    (hn : name ∈ scope.exports.keys)
    (hr : ((store.linker options).resolveExport m name).1 = .unresolved) :
    (Cause.unresolvedExport name).report scope.path
      ∈ ((store.linker options).surface m).2 := by
  obtain ⟨es, hl⟩ := lists_walkSurface Walk.start hs
  have hreports : ((store.linker options).surface m).2 = _ := hl.reports
  rw [hreports]
  rw [← Store.module_scope options hs] at hr
  exact List.mem_append_left _ (List.mem_append_left _ (report_mem_foldl_addExplicit hr hn))

/-! ## Names used inside a module -/

theorem ne_unresolved_of_follow {source : Provider} {remote : Remote}
    (h : follow l.findExport source remote = .found r) : r ≠ .unresolved := by
  have hd : ∀ {target name}, l.findExport target name = .found r → r ≠ .unresolved := by
    intro target name hf
    obtain ⟨hops, -, d⟩ := derives_of_found hf
    exact d.ne_unresolved
  cases source with
  | external specifier =>
    cases h
    exact Resolution.noConfusion
  | internal target =>
    cases remote with
    | all =>
      cases h
      exact Resolution.noConfusion
    | default => exact hd h
    | named name => exact hd h

theorem ne_unresolved_of_chaseLocal (h : chaseLocal l.findExport scope name = .found r) :
    r ≠ .unresolved := by
  unfold chaseLocal at h
  split at h
  · cases h
    exact Resolution.noConfusion
  · split at h
    · exact ne_unresolved_of_follow h
    · cases h

/-- A name that the module knows is reported when it leads nowhere. One that is no symbol is an
import. -/
theorem reported_of_unresolved (hs : l.scope? m = some scope) (hne : scope.NonemptySymbols)
    (hk : scope.Knows name) (hr : (l.resolveLocal m name).1 = .unresolved) :
    ∃ d ∈ (l.resolveLocal m name).2, d.isError = true := by
  have hf : l.findLocal m name = chaseLocal l.findExport scope name := by
    rw [findLocal, hs]
  unfold resolveLocal at hr ⊢
  rw [hf] at hr ⊢
  cases hc : chaseLocal l.findExport scope name with
  | found r' =>
    rw [hc] at hr
    exact absurd hr (ne_unresolved_of_chaseLocal hc)
  | cycle => exact ⟨_, List.mem_singleton.2 rfl, rfl⟩
  | notFound =>
    have hi : name ∈ scope.imports.keys := by
      refine hk.resolve_left fun hsym => ?_
      obtain ⟨ids, hg⟩ := Table.mem_keys.1 hsym
      cases ids with
      | nil => exact hne hg
      | cons id ids => simp [chaseLocal, hg] at hc
    obtain ⟨row, hrow⟩ := Table.mem_keys.1 hi
    simp only [hs, Option.bind_some, hrow]
    exact ⟨_, List.mem_singleton.2 rfl, rfl⟩

/-- A name that the module does not know stays unresolved without a report. -/
theorem resolveLocal_of_not_knows (hs : l.scope? m = some scope) (hk : ¬ scope.Knows name) :
    l.resolveLocal m name = (.unresolved, []) := by
  have hsym : scope.symbols.get? name = none := Table.get?_eq_none.2 fun h => hk (.inl h)
  have himp : scope.imports.get? name = none := Table.get?_eq_none.2 fun h => hk (.inr h)
  simp [resolveLocal, findLocal, chaseLocal, hs, hsym, himp]

end Linker

/-- A module that is looked up has tables. -/
theorem Store.exists_scope {s : Store} (options : Options) {path : String} {m : ModuleId}
    (h : s.lookup path = some m) : ∃ scope, (s.linker options).scope? m = some scope := by
  obtain ⟨u, hu⟩ : ∃ u, s.get? m = some u := ⟨_, List.getElem?_eq_getElem (lookup_lt h)⟩
  rw [scope?_linker, hu]
  exact ⟨_, rfl⟩

theorem Store.nonemptySymbols_scope {s : Store} {options : Options} {m : ModuleId}
    {scope : ModuleTables} (h : (s.linker options).scope? m = some scope) :
    scope.NonemptySymbols := by
  rw [scope?_linker, Option.map_eq_some_iff] at h
  obtain ⟨u, -, rfl⟩ := h
  exact (tablesOf_spec m u).2.1

namespace Bundler

section
variable (b : Bundler) (entry : Entry) (entryId : ModuleId)

theorem mem_diagnostics_of_surface {d : Diagnostic} (h : d ∈ (b.linker.surface entryId).2) :
    d ∈ (b.bundleModule entry entryId).diagnostics := by
  refine List.mem_eraseDups.2 ?_
  exact List.mem_append_left _ (List.mem_append_left _ (List.mem_append_left _ h))

theorem mem_diagnostics_of_assignment {d : Diagnostic} (h : d ∈ (b.assignmentTargets entryId).2) :
    d ∈ (b.bundleModule entry entryId).diagnostics := by
  refine List.mem_eraseDups.2 (List.mem_append_left _ (List.mem_append_right _ ?_))
  exact List.mem_append_left _ (List.mem_append_left _ h)

theorem hasErrors_of_mem {bundle : Bundle} {d : Diagnostic} (h : d ∈ bundle.diagnostics)
    (hd : d.isError = true) : bundle.hasErrors = true :=
  List.any_eq_true.2 ⟨d, h, hd⟩

theorem assignmentTargets_eq {b : Bundler} {entryId : ModuleId} {scope : ModuleTables}
    {expression : String} (hs : b.linker.scope? entryId = some scope)
    (he : scope.exportAssignment = some expression) :
    b.assignmentTargets entryId = (b.linker.targets (b.linker.resolveLocal entryId expression).1,
      (b.linker.resolveLocal entryId expression).2) := by
  simp [assignmentTargets, hs, he]

theorem assignment_eq {m : MergeInput} {scope : ModuleTables} {expression : String}
    (hs : m.linker.scope? m.entry = some scope) (he : scope.exportAssignment = some expression) :
    m.assignment = m.nameOf (m.linker.resolveLocal m.entry expression).1 := by
  simp [MergeInput.assignment, hs, he]

end

variable {store : Store} (hb : store.Built) (options : Options) (entry : Entry)
  {entryId : ModuleId} {scope : ModuleTables} {expression : String}

include hb in
/-- What the entry assigns as its export has a final name if it resolves to something. -/
theorem exists_assignment (hs : (store.linker options).scope? entryId = some scope)
    (he : scope.exportAssignment = some expression)
    (hr : ((store.linker options).resolveLocal entryId expression).1 ≠ .unresolved) :
    ∃ binding, ((ofStore store options).mergeInput entry entryId).assignment = some binding := by
  have hw := Linker.within_resolveLocal (@Store.closed_sourceModules store options entryId)
    (Store.entry_mem_sourceModules entryId) expression
  obtain ⟨binding, hn, -⟩ := introduces_of_within hb options entry entryId hr hw fun t ht => by
    rw [mem_reached, DependencyGraph.mem_closure]
    refine .root (List.mem_append_left _ (List.mem_append_right _ ?_))
    have ha := assignmentTargets_eq (b := ofStore store options) hs he
    exact (congrArg Prod.fst ha).symm ▸ ht
  exact ⟨binding, (assignment_eq (m := (ofStore store options).mergeInput entry entryId) hs he).trans
    hn⟩

/-- A row of the entry that is asked for is in the clause, or it is reported that nothing was found
for it. The export assignment is in the clause exactly if what it names resolves; where it is not,
there is an error, or else the entry neither declares nor imports the name, and then the assignment
is dropped and looking it up reports nothing. -/
theorem dropped_exports {store : Store} (hb : store.Built) (options : Options) (entry : Entry)
    {bundle : Bundle} (h : (ofStore store options).bundle entry = .ok bundle) :
    ∃ entryId scope, store.lookup entry.module = some entryId
      ∧ (store.linker options).scope? entryId = some scope
      ∧ (∀ name ∈ scope.exports.keys, entry.exports.all (name ∈ ·) = true →
          name ∉ bundle.file.exports.entries.map (·.exported) →
            (Cause.unresolvedExport name).report scope.path ∈ bundle.diagnostics
              ∧ bundle.hasErrors = true)
      ∧ ∀ expression, scope.exportAssignment = some expression →
          (bundle.file.exports.assignment = none
              ↔ ((store.linker options).resolveLocal entryId expression).1 = .unresolved)
            ∧ (bundle.file.exports.assignment = none →
                bundle.hasErrors = true ∨ ¬ scope.Knows expression)
            ∧ (¬ scope.Knows expression → bundle.file.exports.assignment = none
                ∧ (ofStore store options).assignmentTargets entryId = ([], [])) := by
  obtain ⟨entryId, hid, rfl⟩ := bundle_ok _ entry h
  obtain ⟨scope, hs⟩ := Store.exists_scope options hid
  have hexports := exports_bundleModule (ofStore store options) entry entryId
  refine ⟨entryId, scope, hid, hs, fun name hn hasked hmissing => ?_, fun expression he => ?_⟩
  · have hw : (name, ((store.linker options).resolveExport entryId name).1)
        ∈ entry.wanted ((store.linker options).surface entryId).1 :=
      List.mem_filter.2 ⟨Linker.row_mem_surface hs hn, hasked⟩
    have hr : ((store.linker options).resolveExport entryId name).1 = .unresolved := by
      by_contra hr
      obtain ⟨binding, hbind⟩ := clauseBinding_of_wanted hb options entry entryId hw hr
      refine hmissing (List.mem_map.2 ⟨⟨binding, name⟩, ?_, rfl⟩)
      rw [hexports]
      refine MergeInput.mem_clause (m := (ofStore store options).mergeInput entry entryId) ?_ hbind
      have ha : ((ofStore store options).mergeInput entry entryId).surface
          = entry.wanted ((store.linker options).surface entryId).1 := asked_eq _ entry entryId
      rw [ha]
      exact hw
    have hd := mem_diagnostics_of_surface (ofStore store options) entry entryId
      (Linker.report_of_unresolved_row hs hn hr)
    exact ⟨hd, hasErrors_of_mem hd (Linker.isError_report_unresolvedExport _ _)⟩
  · have hassign : ((ofStore store options).bundleModule entry entryId).file.exports.assignment
        = ((ofStore store options).mergeInput entry entryId).assignment := by
      rw [hexports]
      rfl
    have hiff : ((ofStore store options).bundleModule entry entryId).file.exports.assignment = none
        ↔ ((store.linker options).resolveLocal entryId expression).1 = .unresolved := by
      rw [hassign]
      constructor
      · intro hnone
        by_contra hr
        obtain ⟨binding, hsome⟩ := exists_assignment hb options entry hs he hr
        rw [hnone] at hsome
        cases hsome
      · intro hr
        rw [assignment_eq (m := (ofStore store options).mergeInput entry entryId) hs he]
        exact congrArg _ hr
    refine ⟨hiff, fun hnone => ?_, fun hk => ?_⟩
    · by_cases hk : scope.Knows expression
      · obtain ⟨d, hd, herr⟩ := Linker.reported_of_unresolved hs
          (Store.nonemptySymbols_scope hs) hk (hiff.1 hnone)
        refine .inl (hasErrors_of_mem ?_ herr)
        refine mem_diagnostics_of_assignment (ofStore store options) entry entryId ?_
        rw [assignmentTargets_eq (b := ofStore store options) hs he]
        exact hd
      · exact .inr hk
    · have hl := Linker.resolveLocal_of_not_knows hs hk
      refine ⟨hiff.2 (congrArg Prod.fst hl), ?_⟩
      rw [assignmentTargets_eq (b := ofStore store options) hs he]
      exact congrArg (fun x => ((store.linker options).targets x.1, x.2)) hl

/-- A module whose row and whose assignment name nothing. -/
def brokenUnits : List DeclUnit :=
  [⟨"a.ts", [.exports ⟨[⟨"Gone", "X"⟩], none, false⟩, .exportAssignment "Missing"]⟩]

/-- The store of `brokenUnits`. -/
def brokenStore : Store := ((Store.ofUnits brokenUnits).toOption).getD {}

theorem sources_broken : (ofStore brokenStore {}).sources 0 = [0] :=
  List.mergeSort_of_pairwise (l := [0]) (by decide)

/-- The row is reported, the assignment is not. -/
theorem dropped_exports_broken : ∃ bundle, Store.ofUnits brokenUnits = .ok brokenStore
    ∧ (ofStore brokenStore {}).bundle ⟨"a.ts", "a.d.ts", none⟩ = .ok bundle
    ∧ bundle.file.exports.entries = []
    ∧ (Cause.unresolvedExport "X").report "a.ts" ∈ bundle.diagnostics
    ∧ bundle.file.exports.assignment = none
    ∧ (ofStore brokenStore {}).assignmentTargets 0 = ([], []) := by
  have hu : Store.ofUnits brokenUnits = .ok brokenStore := rfl
  obtain ⟨entryId, scope, hid, hs, hrows, hassign⟩ :=
    dropped_exports (Store.built_ofUnits hu) {} ⟨"a.ts", "a.d.ts", none⟩ rfl
  cases (Option.some.inj hid : 0 = entryId)
  cases (show some (Linker.tablesOf brokenStore 0 (brokenStore.units[0])) = some scope from hs)
  have hentries : ((ofStore brokenStore {}).bundleModule
      ⟨"a.ts", "a.d.ts", none⟩ 0).file.exports.entries = [] := by
    rw [exports_bundleModule]
    simp only [mergeInput, written, renamed, names, context, reserved, shaken, reached,
      sources_broken]
    decide +kernel
  have hk : ¬ (Linker.tablesOf brokenStore 0 (brokenStore.units[0])).Knows "Missing" := by
    unfold ModuleTables.Knows
    decide
  obtain ⟨-, -, hdropped⟩ := hassign "Missing" rfl
  refine ⟨_, hu, rfl, hentries, (hrows "X" (by decide) rfl ?_).1, hdropped hk⟩
  rw [hentries]
  exact List.not_mem_nil

end Bundler

end DeclBundle
