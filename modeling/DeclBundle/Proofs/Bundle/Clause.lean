import DeclBundle.Proofs.Ambient
import DeclBundle.Proofs.Bundle.Closed
import DeclBundle.Proofs.Link.Surface

/-!
# The export clause of a bundle

The clause has the entries of the surface that are asked for, in order and each once
(`export_clause`). What such an entry resolves to is reached and lies in the modules of the bundle,
so it has a final name (`resolved_of_wanted`), and a declaration that notes its own export notes the
same name (`resolved_of_inlineExport`). Only a default import that is exported again goes by the
name of its alias, which the bundle declares (`declares_alias`).
-/

namespace DeclBundle

/-- The entries of a surface that are asked for: all, or those that the entry names. -/
def Entry.wanted (e : Entry) (s : Surface) : List (String × Resolution) :=
  s.entries.rows.filter fun row => e.exports.all (row.1 ∈ ·)

/-- The entry module exports its own name `binding` as `name`, and an alias is bound for it. -/
def FinalNames.EntryAlias (n : FinalNames) (l : Linker) (entry : ModuleId) (name binding : String)
    (a : ImportAlias) : Prop :=
  (∃ scope, l.scope? entry = some scope ∧ scope.exports.get? name = some (.own binding))
    ∧ n.aliases.get? (entry, binding) = some a

namespace MergeInput

variable {m : MergeInput} {name : String} {r : Resolution}

theorem aliasOf_eq_some {a : ImportAlias} :
    m.aliasOf name = some a ↔ ∃ binding, m.names.EntryAlias m.linker m.entry name binding a := by
  unfold aliasOf FinalNames.EntryAlias
  cases hs : m.linker.scope? m.entry with
  | none => simp
  | some scope =>
    cases hr : scope.exports.get? name with
    | none => simp [hr]
    | some row => cases row <;> simp [hr]

theorem clauseBinding_of_alias {binding : String} {a : ImportAlias}
    (h : m.names.EntryAlias m.linker m.entry name binding a) (r : Resolution) :
    m.clauseBinding name r = m.names.get? a.id := by
  simp [clauseBinding, aliasOf_eq_some.2 ⟨binding, h⟩]

/-- Without an alias the final name is exported, if each note of an export has it. -/
theorem clauseBinding_of_no_alias
    (hi : ∀ i ∈ m.inlineExports, m.nameOf (.declaration i.decl) = some i.binding)
    (h : ∀ binding a, ¬ m.names.EntryAlias m.linker m.entry name binding a) (r : Resolution) :
    m.clauseBinding name r = m.nameOf r := by
  have hnone : m.aliasOf name = none := by
    refine Option.eq_none_iff_forall_ne_some.2 fun a ha => ?_
    obtain ⟨binding, hb⟩ := aliasOf_eq_some.1 ha
    exact h binding a hb
  unfold clauseBinding
  rw [hnone]
  cases r with
  | declaration id =>
    simp only []
    cases hf : m.inlineExportOf id with
    | none => rfl
    | some i =>
      have hid : i.decl = id := by simpa using List.find?_some hf
      have hm : i ∈ m.inlineExports := List.mem_reverse.1 (List.mem_of_find?_eq_some hf)
      rw [← hid, hi i hm]
  | _ => rfl

/-- The notes of exports are a shortcut only. -/
theorem clause_without_inlineExports
    (hi : ∀ i ∈ m.inlineExports, m.nameOf (.declaration i.decl) = some i.binding) :
    { m with inlineExports := [] }.clause = m.clause := by
  have hb : ∀ name r, { m with inlineExports := [] }.clauseBinding name r
      = m.clauseBinding name r := by
    intro name r
    by_cases h : ∃ binding a, m.names.EntryAlias m.linker m.entry name binding a
    · obtain ⟨binding, a, ha⟩ := h
      rw [clauseBinding_of_alias ha]
      exact clauseBinding_of_alias (m := { m with inlineExports := [] }) ha r
    · have hno : ∀ binding a, ¬ m.names.EntryAlias m.linker m.entry name binding a :=
        fun binding a ha => h ⟨binding, a, ha⟩
      rw [clauseBinding_of_no_alias hi hno]
      exact clauseBinding_of_no_alias (m := { m with inlineExports := [] }) (by simp) hno r
  simp only [clause, hb]
  rfl

theorem exported_clause (m : MergeInput) : m.clause.entries.map (·.exported)
    = (m.surface.filter fun e => (m.clauseBinding e.1 e.2).isSome).map Prod.fst := by
  simp only [clause]
  induction m.surface with
  | nil => rfl
  | cons e es ih =>
    obtain ⟨name, r⟩ := e
    cases hb : m.clauseBinding name r with
    | none => simpa [hb] using ih
    | some binding => simpa [hb] using ih

/-- Entries that all have a binding are in the clause, in order. -/
theorem sublist_exported {p : String × Resolution → Bool}
    (h : ∀ e ∈ m.surface, p e = true → (m.clauseBinding e.1 e.2).isSome = true) :
    ((m.surface.filter p).map Prod.fst).Sublist (m.clause.entries.map (·.exported)) := by
  have hp : m.surface.filter p
      = (m.surface.filter fun e => (m.clauseBinding e.1 e.2).isSome).filter p := by
    rw [List.filter_filter]
    refine List.filter_congr fun e he => ?_
    cases hpe : p e with
    | true => simp [h e he hpe]
    | false => simp
  rw [exported_clause, hp]
  exact List.filter_sublist.map _

theorem mem_clause {binding : String} (h : (name, r) ∈ m.surface)
    (hb : m.clauseBinding name r = some binding) : ⟨binding, name⟩ ∈ m.clause.entries :=
  List.mem_filterMap.2 ⟨_, h, by simp [hb]⟩

end MergeInput

/-- What is noted as an export belongs to a declaration before naming, and has its final name. -/
theorem Ambient.of_mem_inlineExports {l : Linker} {n : FinalNames} {trees : List ModuleTree}
    {i : InlineExport} (h : i ∈ inlineExports n (addDeclare
      (trees.map fun t => (Naming.tree l n t).value))) :
    n.get? i.decl = some i.binding
      ∧ ∃ t ∈ trees, ∃ d, .declaration d ∈ t.statements ∧ some i.decl ∈ d.boundIds := by
  simp only [inlineExports, addDeclare, mapDeclarations, Naming.tree, List.mem_flatMap,
    List.mem_map, exists_exists_and_eq_and] at h
  obtain ⟨t, ht, s, hs, h⟩ := h
  cases s with
  | declaration d =>
    simp only [Naming.statement, Named.value_bind, Named.value_pure, declarationInlineExports] at h
    split at h
    · obtain ⟨id, hid, hi⟩ := List.mem_filterMap.1 h
      simp only [Option.bind_eq_bind, Option.bind_eq_some_iff, Option.pure_def,
        Option.some.injEq] at hi
      obtain ⟨id, rfl, bound, hbound, rfl⟩ := hi
      refine ⟨by simp [FinalNames.get?, hbound], t, ht, d, hs, ?_⟩
      rwa [boundIds_declared, Naming.boundIds_rename, Naming.boundIds_underFinalName] at hid
    · simp at h
  | _ => simp [Naming.statement] at h

namespace Bundler

section
variable (b : Bundler) (entry : Entry) (entryId : ModuleId)

theorem asked_eq : b.asked entry entryId = entry.wanted (b.linker.surface entryId).1 := by
  unfold asked Entry.wanted required
  cases entry.exports <;> simp

theorem exports_bundleModule :
    (b.bundleModule entry entryId).file.exports = (b.mergeInput entry entryId).merge.exports := by
  simp only [mergeInput, ← trees_bundleModule, written]
  rfl

/-- The statements that no module wrote. -/
theorem filter_added_statements :
    ((b.bundleModule entry entryId).file.statements.filter (·.origin.isNone)).map (·.statement)
      = (b.mergeInput entry entryId).merge.statements := by
  have hplaced : ∀ p ∈ placedStatements (b.written entry entryId), ¬ p.origin.isNone = true := by
    intro p hp hn
    exact origin_placedStatements hp (Option.isNone_iff_eq_none.1 hn)
  rw [statements_bundleModule, List.filter_append, List.filter_eq_nil_iff.2 hplaced,
    List.filter_map]
  simp [Function.comp_def]

end

variable {store : Store} (hb : store.Built) (options : Options) (entry : Entry)
  (entryId : ModuleId)

include hb in
theorem resolved_of_survivor {c : TopBinding}
    (hc : c ∈ (ofStore store options).survivors entry entryId) :
    ((ofStore store options).names entry entryId).resolved? (store.linker options)
        (.declaration c.id)
      = ((ofStore store options).names entry entryId).get? c.id := by
  have hstore := ((mem_survivors options entry entryId).1 hc).1
  rw [get?_of_survivor hb options entry entryId hc]
  simp only [FinalNames.resolved?, hb.decl?_of_mem options hstore]
  rfl

include hb in
/-- What a declaration notes that it exports goes by the final name of its symbol. -/
theorem resolved_of_inlineExport {i : InlineExport}
    (hi : i ∈ ((ofStore store options).mergeInput entry entryId).inlineExports) :
    ((ofStore store options).mergeInput entry entryId).nameOf (.declaration i.decl)
      = some i.binding := by
  obtain ⟨hname, t, ht, d, hd, hid⟩ := Ambient.of_mem_inlineExports hi
  rw [d.boundIds_eq, List.mem_map] at hid
  obtain ⟨⟨id, a⟩, ha, rfl⟩ := hid
  obtain ⟨c, hc, hcid, -⟩ := survivor_of_analyses hb options entry entryId ht hd ha
  rw [← hname, Option.some.inj hcid]
  exact resolved_of_survivor hb options entry entryId hc

include hb in
theorem resolved_of_wanted {name : String} {r : Resolution}
    (h : (name, r) ∈ entry.wanted ((store.linker options).surface entryId).1)
    (hr : r ≠ .unresolved) :
    ∃ binding, ((ofStore store options).names entry entryId).resolved? (store.linker options) r
      = some binding := by
  have hrow : (name, r) ∈ ((store.linker options).surface entryId).1.entries.rows :=
    (List.mem_filter.1 h).1
  have hw := Linker.within_surfaceWithin (Store.closed_sourceModules entryId)
    (Store.entry_mem_sourceModules entryId) hrow
  obtain ⟨binding, hn, -⟩ := introduces_of_within hb options entry entryId hr hw fun t ht => by
    rw [mem_reached, DependencyGraph.mem_closure]
    refine .root (List.mem_append_left _ (List.mem_append_left _ ?_))
    rw [asked_eq]
    exact List.mem_flatMap.2 ⟨_, h, ht⟩
  exact ⟨binding, hn⟩

/-- An alias of the entry stands for what its import leads to, which survives: the lookup stays in the
modules of the bundle, and the alias was bound because what it ends at is reached. -/
theorem survivor_of_alias {binding : String} {a : ImportAlias}
    (ha : ((ofStore store options).names entry entryId).aliases.get? (entryId, binding) = some a) :
    ((store.linker options).resolveLocal entryId binding).1 = .declaration a.terminal
      ∧ ∃ c ∈ (ofStore store options).survivors entry entryId, c.id = a.terminal := by
  obtain ⟨hres, hreach⟩ := FinalNames.reached_of_importAlias _ (FinalNames.requested_of_alias _ ha)
  refine ⟨hres, ?_⟩
  have hS := @Store.closed_sourceModules store options entryId
  have hw := Linker.within_resolveLocal hS (Store.entry_mem_sourceModules entryId) binding
  rw [show ((store.linker options).resolveLocal entryId binding).1 = _ from hres] at hw
  obtain ⟨c, hc, hid, hm⟩ := Store.binding_of_within hw
  refine ⟨c, (mem_survivors options entry entryId).2 ⟨hc, hm, ?_⟩, hid⟩
  rw [hid]
  exact of_decide_eq_true hreach

include hb in
/-- An alias of the entry has a final name, and the bundle declares it as an alias of the final name
of what it stands for. -/
theorem declares_alias {binding : String} {a : ImportAlias}
    (ha : ((ofStore store options).names entry entryId).aliases.get? (entryId, binding) = some a) :
    ∃ x target, ((ofStore store options).names entry entryId).get? a.id = some x
      ∧ ((ofStore store options).names entry entryId).resolved? (store.linker options)
          (.declaration a.terminal) = some target
      ∧ ((ofStore store options).mergeInput entry entryId).DeclaresAlias a x target
          ((ofStore store options).mergeInput entry entryId).merge.statements := by
  have hid : ((ofStore store options).names entry entryId).idOf? (.importAlias entryId binding)
      = some a.id := by simp [FinalNames.idOf?, ha]
  obtain ⟨x, hx⟩ := (sound_names hb options entry entryId).exists_name hid
  obtain ⟨-, c, hc, hterm⟩ := survivor_of_alias options entry entryId ha
  have hstore := ((mem_survivors options entry entryId).1 hc).1
  obtain ⟨target, -, hsym⟩ := topLevel_of_survivor hb options entry entryId hc
  have hdecl : (store.linker options).decl? a.terminal = some c.summary := by
    rw [← hterm]
    exact hb.decl?_of_mem options hstore
  refine ⟨x, target, hx, ?_, MergeInput.declaresAlias_merge _ (Table.mem_values_of_get? ha) ?_ ?_⟩
  · simp only [FinalNames.resolved?, hdecl]
    exact hsym
  · simp only [MergeInput.aliasNames?, Option.bind_eq_bind, Option.bind_eq_some_iff]
    exact ⟨x, hx, c.summary, hdecl, target, hsym, rfl⟩
  · refine List.ne_nil_of_mem (a := c.tag) (List.mem_filterMap.2 ⟨c.id, ?_, ?_⟩)
    · rw [← hterm]
      exact Store.mem_symbolDecls_self options hb hstore
    · exact congrArg (Option.map (·.tag)) (hb.decl?_of_mem options hstore)

include hb in
theorem clauseBinding_of_wanted {name : String} {r : Resolution}
    (h : (name, r) ∈ entry.wanted ((store.linker options).surface entryId).1)
    (hr : r ≠ .unresolved) :
    ∃ binding,
      ((ofStore store options).mergeInput entry entryId).clauseBinding name r = some binding := by
  by_cases he : ∃ x a, ((ofStore store options).mergeInput entry entryId).names.EntryAlias
      (store.linker options) entryId name x a
  · obtain ⟨x, a, ha⟩ := he
    obtain ⟨binding, -, hx, -⟩ := declares_alias hb options entry entryId ha.2
    exact ⟨binding, (MergeInput.clauseBinding_of_alias ha r).trans hx⟩
  · obtain ⟨binding, hn⟩ := resolved_of_wanted hb options entry entryId h hr
    refine ⟨binding, (MergeInput.clauseBinding_of_no_alias (fun i hi => ?_) ?_ r).trans hn⟩
    · exact resolved_of_inlineExport hb options entry entryId hi
    · exact fun x a ha => he ⟨x, a, ha⟩

/-- The clause of a bundle has the entries of the surface that are wanted, in order and under
different names, and each that resolves is among them. It exports the final name of the resolution;
or, where the entry exports an import that an alias is bound for, the name of the alias, which the
bundle declares as an alias of what the import leads to. The notes of exports change nothing. -/
theorem export_clause {store : Store} (hb : store.Built) (options : Options) (entry : Entry)
    {bundle : Bundle} (h : (ofStore store options).bundle entry = .ok bundle) :
    ∃ entryId, store.lookup entry.module = some entryId
      ∧ (bundle.file.exports.entries.map (·.exported)).Nodup
      ∧ (bundle.file.exports.entries.map (·.exported)).Sublist
          ((entry.wanted ((store.linker options).surface entryId).1).map Prod.fst)
      ∧ (((entry.wanted ((store.linker options).surface entryId).1).filter
            (·.2 ≠ .unresolved)).map Prod.fst).Sublist
          (bundle.file.exports.entries.map (·.exported))
      ∧ (∀ name r, (name, r) ∈ entry.wanted ((store.linker options).surface entryId).1 →
          r ≠ .unresolved → ∃ binding, ⟨binding, name⟩ ∈ bundle.file.exports.entries
            ∧ ((∀ x a, ¬ bundle.naming.names.EntryAlias (store.linker options) entryId name x a) →
                bundle.naming.names.resolved? (store.linker options) r = some binding)
            ∧ ∀ x a, bundle.naming.names.EntryAlias (store.linker options) entryId name x a →
                bundle.naming.names.get? a.id = some binding
                  ∧ ((store.linker options).resolveLocal entryId x).1 = .declaration a.terminal
                  ∧ ∃ target, bundle.naming.names.resolved? (store.linker options)
                      (.declaration a.terminal) = some target
                    ∧ ((ofStore store options).mergeInput entry entryId).DeclaresAlias a binding
                        target ((bundle.file.statements.filter (·.origin.isNone)).map
                          (·.statement)))
      ∧ ((ofStore store options).mergeInput entry entryId).merge.exports = bundle.file.exports
      ∧ { (ofStore store options).mergeInput entry entryId with inlineExports := [] }.merge.exports
          = bundle.file.exports := by
  obtain ⟨entryId, hid, rfl⟩ := bundle_ok _ entry h
  have hexports := exports_bundleModule (ofStore store options) entry entryId
  have hsurface : ((ofStore store options).mergeInput entry entryId).surface
      = entry.wanted ((store.linker options).surface entryId).1 := asked_eq _ entry entryId
  have hsub : ((ofStore store options).mergeInput entry entryId).clause.entries.map (·.exported)
      |>.Sublist ((entry.wanted ((store.linker options).surface entryId).1).map Prod.fst) := by
    rw [MergeInput.exported_clause, hsurface]
    exact List.filter_sublist.map _
  refine ⟨entryId, hid, ?_, ?_, ?_, fun name r hw hr => ?_, hexports.symm, ?_⟩
  · rw [hexports]
    refine List.Nodup.sublist (hsub.trans (List.filter_sublist.map _)) ?_
    exact Linker.nodup_keys_surface store options entryId
  · rw [hexports]
    exact hsub
  · rw [hexports, ← hsurface]
    refine MergeInput.sublist_exported fun e he hr => ?_
    rw [hsurface] at he
    obtain ⟨binding, hbind⟩ :=
      clauseBinding_of_wanted hb options entry entryId he (of_decide_eq_true hr)
    rw [hbind]
    rfl
  · obtain ⟨binding, hbind⟩ := clauseBinding_of_wanted hb options entry entryId hw hr
    refine ⟨binding, ?_, fun hno => ?_, fun x a ha => ?_⟩
    · rw [hexports]
      exact MergeInput.mem_clause (hsurface ▸ hw) hbind
    · rw [← hbind]
      refine (MergeInput.clauseBinding_of_no_alias
        (m := (ofStore store options).mergeInput entry entryId) (fun i hi => ?_) hno r).symm
      exact resolved_of_inlineExport hb options entry entryId hi
    · have hname := MergeInput.clauseBinding_of_alias
        (m := (ofStore store options).mergeInput entry entryId) ha r
      rw [hbind] at hname
      obtain ⟨y, target, hy, htarget, hdeclares⟩ := declares_alias hb options entry entryId ha.2
      obtain rfl : binding = y := Option.some.inj (hname.trans hy)
      refine ⟨hy, (survivor_of_alias options entry entryId ha.2).1, target, htarget, ?_⟩
      rw [filter_added_statements]
      exact hdeclares
  · rw [hexports]
    exact MergeInput.clause_without_inlineExports fun i hi =>
      resolved_of_inlineExport hb options entry entryId hi

/-- A module that exports the default of another under the name of its import, and something else of
it under a new name. -/
def reexportUnits : List DeclUnit :=
  [⟨"a.ts", [.imports ⟨"b.ts", some "D", none, [], false⟩, .exports ⟨[⟨"D", "D"⟩], none, false⟩,
      .exports ⟨[⟨"T", "U"⟩], some "b.ts", false⟩]⟩,
    ⟨"b.ts", [.declaration ⟨none, { exported := true, default := true }, none,
        .interface "C" [] [] []⟩,
      .declaration ⟨none, { exported := true }, none, .interface "T" [] [] []⟩]⟩]

/-- The store of `reexportUnits`. -/
def reexportStore : Store := ((Store.ofUnits reexportUnits).toOption).getD {}

theorem sources_reexport : (ofStore reexportStore {}).sources 0 = [0, 1] :=
  List.mergeSort_of_pairwise (l := [0, 1]) (by decide)

/-- The import goes by its alias, the other export by the name of its declaration. -/
theorem export_clause_reexport : ∃ bundle, Store.ofUnits reexportUnits = .ok reexportStore
    ∧ (ofStore reexportStore {}).bundle ⟨"a.ts", "a.d.ts", none⟩ = .ok bundle
    ∧ (bundle.file.exports.entries.map (·.exported)).Nodup
    ∧ ["D", "U"].Sublist (bundle.file.exports.entries.map (·.exported))
    ∧ (∃ binding, ⟨binding, "U"⟩ ∈ bundle.file.exports.entries
      ∧ bundle.naming.names.resolved? (reexportStore.linker {}) (.declaration 1) = some binding)
    ∧ ∃ a binding target, a.terminal = 0 ∧ ⟨binding, "D"⟩ ∈ bundle.file.exports.entries
      ∧ bundle.naming.names.get? a.id = some binding
      ∧ bundle.naming.names.resolved? (reexportStore.linker {}) (.declaration 0) = some target
      ∧ ((ofStore reexportStore {}).mergeInput ⟨"a.ts", "a.d.ts", none⟩ 0).DeclaresAlias a binding
          target ((bundle.file.statements.filter (·.origin.isNone)).map (·.statement)) := by
  have hu : Store.ofUnits reexportUnits = .ok reexportStore := rfl
  have halias : ((ofStore reexportStore {}).names ⟨"a.ts", "a.d.ts", none⟩ 0).aliases.get? (0, "D")
      = some ⟨2, 0⟩ := by
    simp only [names, context, reserved, shaken, reached, sources_reexport]
    decide +kernel
  refine ⟨_, hu, rfl, ?_⟩
  obtain ⟨entryId, hid, hnodup, -, hsub, hentry, -⟩ :=
    export_clause (Store.built_ofUnits hu) {} ⟨"a.ts", "a.d.ts", none⟩ rfl
  cases (Option.some.inj hid : 0 = entryId)
  refine ⟨hnodup, hsub, ?_, ?_⟩
  · obtain ⟨binding, hm, hno, -⟩ := hentry "U" (.declaration 1) (by decide) (by decide)
    refine ⟨binding, hm, hno ?_⟩
    rintro x a ⟨⟨scope, hs, hr⟩, -⟩
    cases hs
    cases (show some (ExportRow.reexport (.internal 1) (.named "T")) = some (.own x) from hr)
  · obtain ⟨binding, hm, -, hyes⟩ := hentry "D" (.declaration 0) (by decide) (by decide)
    obtain ⟨hname, -, target, htarget, hdeclares⟩ := hyes "D" ⟨2, 0⟩ ⟨⟨_, rfl, rfl⟩, halias⟩
    exact ⟨⟨2, 0⟩, binding, target, rfl, hm, hname, htarget, hdeclares⟩

end Bundler

end DeclBundle
