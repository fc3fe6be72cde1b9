import DeclBundle.Proofs.Bundle.Within
import DeclBundle.Proofs.Survival

/-!
# What survives in a bundle

The declarations that are left in the modules of a bundle are those that are reached, each once
(`perm_reached`): what is reached lies in these modules, so shaking finds all of it there. The
theorem `survival` adds what becomes of each module, what is counted, and that shaking is done after
one pass.
-/

namespace DeclBundle

/-- The modules of a store name no module outside of it. -/
theorem Store.Built.selfContained_all {s : Store} (h : s.Built) : s.SelfContained (· < s.size) where
  built := h
  closed _ _ _ hl := lookup_lt hl

namespace Bundler

variable {store : Store} (hb : store.Built) (options : Options) (entry : Entry)
  {entryId : ModuleId}

include hb in
theorem lt_size_of_mem_sources (he : entryId < store.size) {m : ModuleId}
    (hm : m ∈ (ofStore store options).sources entryId) : m < store.size :=
  hb.selfContained_all.of_mem_sourceModules he hm

include hb in
/-- Each module of a bundle is shaken once, in order. -/
theorem modules_shaken (he : entryId < store.size) :
    ((ofStore store options).shaken entry entryId).map (·.module)
      = (ofStore store options).sources entryId := by
  rw [shaken, Shake.modules, Shake.units, List.map_map, List.map_filterMap]
  refine (List.filterMap_congr fun m hm => ?_).trans List.filterMap_some
  have hlt := lt_size_of_mem_sources hb options he hm
  have hu : store.get? m = some store.units[m] := List.getElem?_eq_getElem hlt
  rw [store_ofStore, hu]
  rfl

/-- What is left of a module is its statements that survive, in order, without the variables that
are not reached. -/
theorem exists_unit_of_shaken {t : ModuleTree}
    (ht : t ∈ (ofStore store options).shaken entry entryId) :
    ∃ u, store.get? t.module = some u ∧ t.path = u.path
      ∧ t.statements = (u.statements.filter
          (Statement.survives ((ofStore store options).reached entry entryId))).map
            (Statement.trimmed ((ofStore store options).reached entry entryId)) := by
  obtain ⟨-, u, hu, he⟩ := Shake.mem_modules.1 ht
  refine ⟨u, hu, congrArg ModuleTree.path he, ?_⟩
  rw [← Shake.statements_eq]
  exact congrArg ModuleTree.statements he

include hb in
/-- The identities that are left are those that are reached, each once. A declaration that is
reached lies in a module of the bundle, so shaking comes across it. -/
theorem perm_reached :
    (((ofStore store options).shaken entry entryId).flatMap fun t =>
        Shake.boundIds t.statements).Perm
      (((ofStore store options).reached entry entryId).decls.map some) := by
  have hsources : ((ofStore store options).sources entryId).Nodup :=
    DependencyGraph.nodup_sourceModules _ _ _
  have hdecls : ((ofStore store options).reached entry entryId).decls.Nodup :=
    DependencyGraph.nodup_decls_closure _ _ _
  rw [shaken, Shake.boundIds_modules]
  refine (List.perm_ext_iff_of_nodup ((Shake.nodup_identities hb hsources).filter _)
    (hdecls.map fun _ _ => Option.some.inj)).2 fun i => ?_
  rw [List.mem_filter, Shake.mem_identities hb, List.mem_map]
  constructor
  · rintro ⟨⟨c, -, rfl, -⟩, hk⟩
    exact ⟨c.id, of_decide_eq_true hk, rfl⟩
  · rintro ⟨id, hid, rfl⟩
    obtain ⟨c, hc, rfl, hm⟩ := hb.in_sources options entry (t := .declaration id) hid
    exact ⟨⟨c, hc, rfl, hm⟩, decide_eq_true hid⟩

include hb in
/-- As many declarations are kept as are reached. -/
theorem kept_bundleModule : ((ofStore store options).bundleModule entry entryId).stats.kept
    = ((ofStore store options).reached entry entryId).decls.length := by
  have hlength := (@perm_reached _ hb options entry entryId).length_eq
  rw [shaken, Shake.boundIds_modules, ← Shake.kept_counts, List.length_map] at hlength
  exact hlength

/-- Just what is reached survives in a bundle. All declarations and namespaces that are reached lie
in the modules of the bundle, and the identities left in these are those that are reached. Each
module keeps its statements that survive in order, without the variables that are not reached.
The declarations that are kept and those that are removed are all that the modules declare, and
shaking again removes nothing. -/
theorem survival {store : Store} (hb : store.Built) (options : Options) (entry : Entry)
    {bundle : Bundle} (h : (ofStore store options).bundle entry = .ok bundle) :
    ∃ entryId, store.lookup entry.module = some entryId ∧
      let modules := (ofStore store options).sources entryId
      let r := (ofStore store options).reached entry entryId
      let trees := (ofStore store options).shaken entry entryId
      (∀ id ∈ r.decls, ∃ c ∈ store.bindings, c.id = id ∧ c.module ∈ modules)
      ∧ (∀ m ∈ r.namespaces, m ∈ modules)
      ∧ (trees.flatMap fun t => Shake.boundIds t.statements).Perm (r.decls.map some)
      ∧ trees.map (·.module) = modules
      ∧ (∀ t ∈ trees, ∃ u, store.get? t.module = some u ∧ t.path = u.path
          ∧ t.statements = (u.statements.filter (Statement.survives r)).map (Statement.trimmed r))
      ∧ bundle.stats.kept = r.decls.length
      ∧ bundle.stats.kept + bundle.stats.removed = (Shake.identities store modules).length
      ∧ Shake.modules (store.shake r) modules r = trees
      ∧ Shake.counts (store.shake r) modules r = ⟨bundle.stats.kept, 0⟩ := by
  obtain ⟨entryId, hid, rfl⟩ := bundle_ok _ entry h
  exact ⟨entryId, hid,
    fun id hid => hb.in_sources options entry (t := .declaration id) hid,
    fun m hm => hb.in_sources options entry (t := .namespaceOf m) hm,
    perm_reached hb options entry,
    modules_shaken hb options entry (Store.lookup_lt hid),
    fun t ht => exists_unit_of_shaken options entry ht,
    kept_bundleModule hb options entry,
    Shake.kept_add_removed _ store _,
    Shake.modules_shake _ store _,
    Shake.counts_shake _ store _⟩

/-- A module that exports one of the two variables of a statement, and has an interface besides. -/
def oneOfTwoUnits : List DeclUnit :=
  [⟨"a.ts", [.declaration ⟨none, {}, none, .variableList .constant
        [⟨none, "x", some (.keyword "string"), none⟩, ⟨none, "y", none, none⟩]⟩,
      .declaration ⟨none, {}, none, .interface "T" [] [] []⟩,
      .exports ⟨[⟨"x", "x"⟩], none, false⟩]⟩]

/-- The store of `oneOfTwoUnits`. -/
def oneOfTwoStore : Store := ((Store.ofUnits oneOfTwoUnits).toOption).getD {}

theorem sources_oneOfTwo : (ofStore oneOfTwoStore {}).sources 0 = [0] :=
  List.mergeSort_of_pairwise (l := [0]) (by decide)

theorem survival_oneOfTwo : ∃ bundle, Store.ofUnits oneOfTwoUnits = .ok oneOfTwoStore
    ∧ (ofStore oneOfTwoStore {}).bundle ⟨"a.ts", "a.d.ts", none⟩ = .ok bundle
    ∧ (((ofStore oneOfTwoStore {}).shaken ⟨"a.ts", "a.d.ts", none⟩ 0).flatMap fun t =>
        Shake.boundIds t.statements).Perm [some 1]
    ∧ bundle.stats.kept = 1 ∧ bundle.stats.removed = 2 := by
  have hu : Store.ofUnits oneOfTwoUnits = .ok oneOfTwoStore := rfl
  have hr : ((ofStore oneOfTwoStore {}).reached ⟨"a.ts", "a.d.ts", none⟩ 0).decls = [1] := by
    simp only [reached, sources_oneOfTwo]
    decide +kernel
  refine ⟨_, hu, rfl, ?_⟩
  obtain ⟨entryId, hid, -, -, hperm, -, -, hkept, hall, -⟩ :=
    survival (Store.built_ofUnits hu) {} ⟨"a.ts", "a.d.ts", none⟩ rfl
  cases (Option.some.inj hid : 0 = entryId)
  rw [hr] at hperm hkept
  rw [hkept, sources_oneOfTwo] at hall
  exact ⟨hperm, hkept, Nat.add_left_cancel hall⟩

end Bundler

end DeclBundle
