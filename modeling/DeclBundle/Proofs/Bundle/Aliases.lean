import DeclBundle.Proofs.Bundle.Clause

/-!
# Which aliases are exported

An alias is bound for an import that the entry exports under any name at all
(`Bundler.alias_iff`), but the clause has only the names that are asked for. So an alias is exported
if the import is exported under one of these (`Bundler.alias_exported_iff`); every other alias is
declared as well, and nothing in the bundle refers to it.
-/

namespace DeclBundle

/-- A module exports its own name `binding` as `name`. -/
def Linker.ExportsOwn (l : Linker) (module : ModuleId) (name binding : String) : Prop :=
  ∃ scope, l.scope? module = some scope ∧ scope.exports.get? name = some (.own binding)

/-- The name that stands for a resolution is not that of an alias. -/
theorem FinalNames.owner_of_resolved? {n : FinalNames} {l : Linker} {r : Resolution} {x : String}
    (h : n.resolved? l r = some x) :
    ∃ o, n.nameOf? o = some x ∧ ∀ m binding, o ≠ .importAlias m binding := by
  cases r with
  | declaration id =>
    obtain ⟨info, -, hs⟩ := Option.bind_eq_some_iff.1 h
    exact ⟨.symbol info.module info.name, hs, by simp⟩
  | namespaceOf m => exact ⟨.namespaceOf m, h, by simp⟩
  | external ref => exact ⟨.library ref, h, by simp⟩
  | unresolved => cases h

namespace Bundler

/-- Why an alias is bound: the entry imports a default as `binding`, which is not the name of the
declaration that it ends at, the bundle reaches that declaration, and the entry exports the import
under some name. -/
structure NeedsAlias (b : Bundler) (entry : Entry) (entryId : ModuleId) (binding : String)
    (terminal : DeclId) : Prop where
  imported : ∃ u i, b.store.get? entryId = some u ∧ .imports i ∈ u.statements
    ∧ (binding, "default") ∈ i.bindings
  leads : (b.linker.resolveLocal entryId binding).1 = .declaration terminal
  renamed : ∀ info, b.linker.decl? terminal = some info → info.name ≠ binding
  reached : terminal ∈ (b.reached entry entryId).decls
  exported : ∃ name, b.linker.ExportsOwn entryId name binding

section
variable (b : Bundler) (entry : Entry) (entryId : ModuleId)

theorem entryExports_iff (binding : String) (h : ∀ scope, b.linker.scope? entryId = some scope →
      scope.exports.keys.Nodup) :
    FinalNames.entryExports (b.context entry entryId) binding = true
      ↔ ∃ name, b.linker.ExportsOwn entryId name binding := by
  simp only [FinalNames.entryExports, context, Option.any_eq_true, List.any_eq_true,
    decide_eq_true_eq, Linker.ExportsOwn]
  constructor
  · rintro ⟨scope, hs, row, hrow, rfl⟩
    obtain ⟨⟨name, _⟩, hm, rfl⟩ := List.mem_map.1 hrow
    exact ⟨name, scope, hs, Table.get?_of_mem_rows (h scope hs) hm⟩
  · rintro ⟨name, scope, hs, hname⟩
    exact ⟨scope, hs, _, Table.mem_values_of_get? hname, rfl⟩

end

variable {store : Store} (hb : store.Built) (options : Options) (entry : Entry)
  (entryId : ModuleId)

/-- What asks for an alias is an import of the entry that needs one. -/
theorem importAlias_requested_iff {m : ModuleId} {binding : String} {terminal : DeclId} :
    .importAlias m binding terminal
        ∈ FinalNames.Request.all ((ofStore store options).context entry entryId)
          ((ofStore store options).shaken entry entryId)
      ↔ m = entryId ∧ (ofStore store options).NeedsAlias entry entryId binding terminal := by
  have hexports := (ofStore store options).entryExports_iff entry entryId binding
    fun scope hs => (Store.regular_scope options hs).exports
  have hrenamed : ((store.linker options).decl? terminal).all (·.name ≠ binding) = true
      ↔ ∀ info, (store.linker options).decl? terminal = some info → info.name ≠ binding := by
    cases (store.linker options).decl? terminal <;> simp
  rw [FinalNames.importAlias_mem_all]
  constructor
  · rintro ⟨t, ht, rfl, i, hi, remote, hx, hleads, hneeds⟩
    simp only [FinalNames.needsAlias, Bool.and_eq_true, decide_eq_true_eq, hexports] at hneeds
    obtain ⟨⟨⟨⟨rfl, hname⟩, hmodule⟩, hreached⟩, hexported⟩ := hneeds
    obtain ⟨-, u, hu, hi⟩ := Shake.imports_mem_modules.1 ⟨t, ht, rfl, hi⟩
    have hentry : t.module = entryId := hmodule
    rw [hentry] at hu hleads
    exact ⟨hentry, ⟨u, i, hu, hi, hx⟩, hleads, hrenamed.1 hname, of_decide_eq_true hreached,
      hexported⟩
  · rintro ⟨rfl, ⟨u, i, hu, hi, hx⟩, hleads, hname, hreached, hexported⟩
    obtain ⟨t, ht, hm, hi⟩ := Shake.imports_mem_modules.2
      ⟨Store.entry_mem_sourceModules m, u, hu, hi⟩
    refine ⟨t, ht, hm, i, hi, "default", hx, hleads, ?_⟩
    simp only [FinalNames.needsAlias, Bool.and_eq_true, decide_eq_true_eq, hexports]
    exact ⟨⟨⟨⟨trivial, hrenamed.2 hname⟩, rfl⟩, decide_eq_true hreached⟩, hexported⟩

include hb in
/-- The aliases that are bound are those that are needed, each with the declaration that its import
ends at. The alias may have been bound for another import, but its name leads to one declaration. -/
theorem alias_iff {m : ModuleId} {binding : String} {terminal : DeclId} :
    (∃ a, ((ofStore store options).names entry entryId).aliases.get? (m, binding) = some a
        ∧ a.terminal = terminal)
      ↔ m = entryId ∧ (ofStore store options).NeedsAlias entry entryId binding terminal := by
  constructor
  · rintro ⟨a, ha, rfl⟩
    exact (importAlias_requested_iff options entry entryId).1 (FinalNames.requested_of_alias _ ha)
  · intro h
    have hserved := (sound_names hb options entry entryId).served
      ((importAlias_requested_iff options entry entryId).2 h)
    obtain ⟨rfl, hneeds⟩ := h
    obtain ⟨a, ha⟩ := Table.mem_keys.1 hserved
    have hleads : _ = Resolution.declaration a.terminal :=
      (survivor_of_alias options entry m ha).1
    exact ⟨a, ha, Resolution.declaration.inj (hleads.symm.trans hneeds.leads)⟩

/-! ## The clause -/

section
variable {binding : String} {a : ImportAlias} {name : String}
  (ha : ((ofStore store options).names entry entryId).aliases.get? (entryId, binding) = some a)
  (hname : ((ofStore store options).names entry entryId).get? a.id = some name)
include ha hname

theorem nameOf?_alias : ((ofStore store options).names entry entryId).nameOf?
    (.importAlias entryId binding) = some name := by
  have hid : ((ofStore store options).names entry entryId).idOf? (.importAlias entryId binding)
      = some a.id := by simp [FinalNames.idOf?, ha]
  exact (FinalNames.nameOf?_of_idOf? hid).trans hname

include hb

/-- No reference goes by the name of an alias. -/
theorem resolved?_ne_alias (r : Resolution) :
    ((ofStore store options).names entry entryId).resolved? (store.linker options) r
      ≠ some name := by
  intro hr
  obtain ⟨o, ho, hne⟩ := FinalNames.owner_of_resolved? hr
  exact hne _ _ ((sound_names hb options entry entryId).name_inj ho
    (nameOf?_alias options entry entryId ha hname))

/-- The exports that have the name of an alias are those of its import. An export without an alias
goes by the name of a resolution. -/
theorem binding_eq_iff {e : ExportEntry}
    (he : e ∈ ((ofStore store options).mergeInput entry entryId).clause.entries) :
    e.binding = name ↔ (store.linker options).ExportsOwn entryId e.exported binding := by
  obtain ⟨⟨exported, r⟩, -, hrow⟩ := List.mem_filterMap.1 he
  obtain ⟨shown, hclause, rfl⟩ := Option.map_eq_some_iff.1 hrow
  constructor
  · rintro rfl
    by_cases hal : ∃ x a', ((ofStore store options).mergeInput entry entryId).names.EntryAlias
        (store.linker options) entryId exported x a'
    · obtain ⟨x, a', hx⟩ := hal
      have hshown := (MergeInput.clauseBinding_of_alias
        (m := (ofStore store options).mergeInput entry entryId) hx r).symm.trans hclause
      cases (sound_names hb options entry entryId).name_inj
        (nameOf?_alias options entry entryId hx.2 hshown)
        (nameOf?_alias options entry entryId ha hname)
      exact hx.1
    · have hshown := (MergeInput.clauseBinding_of_no_alias
        (m := (ofStore store options).mergeInput entry entryId)
        (fun i hi => resolved_of_inlineExport hb options entry entryId hi)
        (fun x a' hx => hal ⟨x, a', hx⟩) r).symm.trans hclause
      exact absurd hshown (resolved?_ne_alias hb options entry entryId ha hname r)
  · intro hexports
    have hal : ((ofStore store options).mergeInput entry entryId).names.EntryAlias
      (store.linker options) entryId exported binding a := ⟨hexports, ha⟩
    have hshown := MergeInput.clauseBinding_of_alias
      (m := (ofStore store options).mergeInput entry entryId) hal r
    exact Option.some.inj (hclause.symm.trans (hshown.trans hname))

/-- An alias is exported if one of the names that are asked for exports its import. -/
theorem exported_iff :
    (∃ e ∈ ((ofStore store options).mergeInput entry entryId).clause.entries, e.binding = name)
      ↔ ∃ y, entry.exports.all (y ∈ ·) = true
        ∧ (store.linker options).ExportsOwn entryId y binding := by
  have hsurface : ((ofStore store options).mergeInput entry entryId).surface
      = entry.wanted ((store.linker options).surface entryId).1 := asked_eq _ entry entryId
  constructor
  · rintro ⟨e, he, heq⟩
    refine ⟨e.exported, ?_, (binding_eq_iff hb options entry entryId ha hname he).1 heq⟩
    obtain ⟨⟨exported, r⟩, hrow, hmap⟩ := List.mem_filterMap.1 he
    obtain ⟨shown, -, rfl⟩ := Option.map_eq_some_iff.1 hmap
    rw [hsurface] at hrow
    exact (List.mem_filter.1 hrow).2
  · rintro ⟨y, hy, hexports⟩
    have hal : ((ofStore store options).mergeInput entry entryId).names.EntryAlias
      (store.linker options) entryId y binding a := ⟨hexports, ha⟩
    obtain ⟨scope, hs, hown⟩ := hexports
    have hrow := Linker.row_mem_surface hs (Table.mem_keys_of_get? hown)
    have hshown := MergeInput.clauseBinding_of_alias
      (m := (ofStore store options).mergeInput entry entryId) hal
      ((store.linker options).resolveExport entryId y).1
    refine ⟨⟨name, y⟩, MergeInput.mem_clause ?_ (hshown.trans hname), rfl⟩
    rw [hsurface]
    exact List.mem_filter.2 ⟨hrow, hy⟩

end

/-- The aliases of a bundle are those of the default imports that the entry exports under any name,
where what they end at is reached. Each is declared under its final name, which stands for no
resolution, so nothing but the export clause can use it; and the clause exports it under just those
of its names that the entry exports the import as. So an alias is exported exactly if a name that is
asked for exports its import. That is always so where everything is asked for. Where only other
names are, the alias is declared for nothing. -/
theorem alias_exported_iff {store : Store} (hb : store.Built) (options : Options) (entry : Entry)
    {bundle : Bundle} (h : (ofStore store options).bundle entry = .ok bundle) :
    ∃ entryId, store.lookup entry.module = some entryId
      ∧ (∀ m binding terminal,
          (∃ a, bundle.naming.names.aliases.get? (m, binding) = some a ∧ a.terminal = terminal)
            ↔ m = entryId ∧ (ofStore store options).NeedsAlias entry entryId binding terminal)
      ∧ ∀ binding a, bundle.naming.names.aliases.get? (entryId, binding) = some a →
          ∃ name target, bundle.naming.names.get? a.id = some name
            ∧ bundle.naming.names.resolved? (store.linker options) (.declaration a.terminal)
                = some target
            ∧ ((ofStore store options).mergeInput entry entryId).DeclaresAlias a name target
                ((bundle.file.statements.filter (·.origin.isNone)).map (·.statement))
            ∧ (∀ r, bundle.naming.names.resolved? (store.linker options) r ≠ some name)
            ∧ (∀ e ∈ bundle.file.exports.entries,
                e.binding = name ↔ (store.linker options).ExportsOwn entryId e.exported binding)
            ∧ ((∃ e ∈ bundle.file.exports.entries, e.binding = name)
                ↔ ∃ y, entry.exports.all (y ∈ ·) = true
                  ∧ (store.linker options).ExportsOwn entryId y binding)
            ∧ (entry.exports = none → ∃ e ∈ bundle.file.exports.entries, e.binding = name) := by
  obtain ⟨entryId, hid, rfl⟩ := bundle_ok _ entry h
  refine ⟨entryId, hid, fun m binding terminal => alias_iff hb options entry entryId,
    fun binding a ha => ?_⟩
  obtain ⟨name, target, hname, htarget, hdeclares⟩ := declares_alias hb options entry entryId ha
  have hclause : ((ofStore store options).bundleModule entry entryId).file.exports.entries
      = ((ofStore store options).mergeInput entry entryId).clause.entries := by
    rw [exports_bundleModule]
    rfl
  have hiff := exported_iff hb options entry entryId ha hname
  have hneeds := ((alias_iff hb options entry entryId).1 ⟨a, ha, rfl⟩).2
  refine ⟨name, target, hname, htarget, ?_, resolved?_ne_alias hb options entry entryId ha hname,
    ?_, ?_, fun hall => ?_⟩
  · rw [filter_added_statements]
    exact hdeclares
  · rw [hclause]
    exact fun e he => binding_eq_iff hb options entry entryId ha hname he
  · rw [hclause]
    exact hiff
  · obtain ⟨y, hy⟩ := hneeds.exported
    rw [hclause]
    exact hiff.2 ⟨y, by rw [hall]; rfl, hy⟩

/-- A module that exports a default import, and an interface that extends what it imports. -/
def partUnits : List DeclUnit :=
  [⟨"a.ts", [.imports ⟨"b.ts", some "D", none, [], false⟩, .exports ⟨[⟨"D", "D"⟩], none, false⟩,
      .declaration ⟨none, { exported := true }, none,
        .interface "I" [] [⟨.ofText "D", []⟩] []⟩]⟩,
    ⟨"b.ts", [.declaration ⟨none, { exported := true, default := true }, none,
      .interface "C" [] [] []⟩]⟩]

/-- The store in which an entry exports only a part. -/
def partStore : Store := ((Store.ofUnits partUnits).toOption).getD {}

/-- Only the interface is asked for. -/
def partEntry : Entry := ⟨"a.ts", "a.d.ts", some ["I"]⟩

theorem sources_part : (ofStore partStore {}).sources 0 = [0, 1] :=
  List.mergeSort_of_pairwise (l := [0, 1]) (by decide)

/-- The alias is declared, and the clause has no use for it. -/
theorem alias_exported_iff_part : ∃ bundle, Store.ofUnits partUnits = .ok partStore
    ∧ (ofStore partStore {}).bundle partEntry = .ok bundle
    ∧ bundle.file.exports.entries = [⟨"I", "I"⟩]
    ∧ ∃ a target, bundle.naming.names.aliases.get? (0, "D") = some a
      ∧ bundle.naming.names.get? a.id = some "D"
      ∧ ((ofStore partStore {}).mergeInput partEntry 0).DeclaresAlias a "D" target
          ((bundle.file.statements.filter (·.origin.isNone)).map (·.statement))
      ∧ ¬ ∃ e ∈ bundle.file.exports.entries, e.binding = "D" := by
  have hu : Store.ofUnits partUnits = .ok partStore := rfl
  have hnames : ((ofStore partStore {}).names partEntry 0).aliases.get? (0, "D") = some ⟨2, 1⟩ := by
    simp only [names, context, reserved, shaken, reached, sources_part]
    decide +kernel
  have hget : ((ofStore partStore {}).names partEntry 0).get? 2 = some "D" := by
    simp only [names, context, reserved, shaken, reached, sources_part]
    decide +kernel
  obtain ⟨entryId, hid, -, haliases⟩ :=
    alias_exported_iff (Store.built_ofUnits hu) {} partEntry rfl
  cases (Option.some.inj hid : 0 = entryId)
  obtain ⟨name, target, hname, -, hdeclares, -, -, hused, -⟩ := haliases "D" _ hnames
  cases Option.some.inj (hname.symm.trans hget)
  refine ⟨_, hu, rfl, ?_, _, target, hnames, hget, hdeclares, fun hexported => ?_⟩
  · rw [exports_bundleModule]
    simp only [mergeInput, written, renamed, names, context, reserved, shaken, reached,
      sources_part]
    decide +kernel
  · obtain ⟨y, hy, scope, hs, hown⟩ := hused.1 hexported
    have hy' : y = "I" := by simpa [partEntry] using hy
    subst hy'
    cases hs
    exact absurd (show some (ExportRow.own "I") = some (.own "D") from hown) (by decide)

end Bundler

end DeclBundle
