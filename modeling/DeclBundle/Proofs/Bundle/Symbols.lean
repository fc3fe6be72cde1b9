import DeclBundle.Proofs.Bundle.Within
import DeclBundle.Proofs.Reach.Whole

/-!
# Symbols survive as a whole

All that a bundle starts from are whole symbols, so it reaches whole symbols (`whole_reached`). A
symbol has one final name, which the declarations of the symbol share (`merged_symbols`).
-/

namespace DeclBundle

namespace Bundler

section
variable {store : Store} (hb : store.Built) (options : Options) (entry : Entry)
  (entryId : ModuleId)
include hb

theorem whole_assignmentTargets :
    store.Whole (· ∈ ((ofStore store options).assignmentTargets entryId).1) := by
  unfold assignmentTargets
  split
  · exact Store.whole_nil
  · exact hb.whole_targets options _

theorem whole_roots (ms : List ModuleId) (surface : List (String × Resolution)) :
    store.Whole (· ∈ ((ofStore store options).roots entryId ms surface).1) := by
  refine .append (.append ?_ (whole_assignmentTargets hb options entryId)) ?_
  · exact Store.whole_flatMap fun row _ => hb.whole_targets options row.2
  · exact Store.whole_flatMap fun m _ => hb.whole_verbatimEdges options m

/-- A bundle reaches whole symbols. -/
theorem whole_reached : store.Whole (· ∈ (ofStore store options).reached entry entryId) := by
  intro b hb' c hc hm hn ht
  rw [mem_reached] at ht ⊢
  exact hb.whole_closure options (whole_roots hb options entryId _ _) b hb' c hc hm hn ht

theorem symbolDecls_reached {id id' : DeclId}
    (hid : id ∈ ((ofStore store options).reached entry entryId).decls)
    (h : id' ∈ (store.linker options).symbolDecls id) :
    id' ∈ ((ofStore store options).reached entry entryId).decls := by
  obtain ⟨a, ha, rfl⟩ := Store.exists_binding_of_symbolDecls options h
  obtain ⟨c, hc, rfl, hm, hn⟩ := (hb.mem_symbolDecls options ha).1 h
  exact whole_reached hb options entry entryId a ha c hc hm hn hid

end

/-- Merged symbols survive as a whole: with a declaration all declarations of its symbol are
reached, and each of them is written under the one final name that the symbol has. -/
theorem merged_symbols {store : Store} (hb : store.Built) (options : Options) (entry : Entry)
    {bundle : Bundle} (h : (ofStore store options).bundle entry = .ok bundle) :
    ∃ entryId, store.lookup entry.module = some entryId
      ∧ (∀ id ∈ ((ofStore store options).reached entry entryId).decls,
          ∀ id' ∈ (store.linker options).symbolDecls id,
            id' ∈ ((ofStore store options).reached entry entryId).decls)
      ∧ ∀ b ∈ store.bindings, b.id ∈ ((ofStore store options).reached entry entryId).decls →
          ∃ name, bundle.naming.names.symbol? b.module b.name = some name
            ∧ ∀ c ∈ store.bindings, c.module = b.module → c.name = b.name →
                c.id ∈ ((ofStore store options).reached entry entryId).decls
                  ∧ bundle.naming.names.get? c.id = some name
                  ∧ ∃ p ∈ bundle.file.statements, p.origin ≠ none
                      ∧ (some c.id, name) ∈ p.statement.introduced := by
  obtain ⟨entryId, hid, rfl⟩ := bundle_ok _ entry h
  refine ⟨entryId, hid, fun id hr id' h => symbolDecls_reached hb options entry entryId hr h,
    fun b hb' hr => ?_⟩
  obtain ⟨name, -, hname⟩ := topLevel_of_survivor hb options entry entryId
    (survivor_of_reached hb options entry entryId hb' hr)
  refine ⟨name, hname, fun c hc hm hn => ?_⟩
  have hcr : c.id ∈ ((ofStore store options).reached entry entryId).decls :=
    whole_reached hb options entry entryId b hb' c hc hm hn hr
  have hcs := survivor_of_reached hb options entry entryId hc hcr
  rw [← hm, ← hn] at hname
  refine ⟨hcr, ?_, introduced_of_survivor hb options entry entryId hcs hname⟩
  rw [names_bundleModule, get?_of_survivor hb options entry entryId hcs, hname]

/-- An interface that is declared twice, and a module that uses it and has one of its name. -/
def mergedUnits : List DeclUnit :=
  [⟨"a.ts", [.imports ⟨"b.ts", none, none, [⟨"T", "S"⟩], false⟩,
      .declaration ⟨none, { exported := true }, none,
        .interface "T" [] [⟨.ofText "S", []⟩] []⟩]⟩,
    ⟨"b.ts", [.declaration ⟨none, { exported := true }, none, .interface "T" [] [] []⟩,
      .declaration ⟨none, { exported := true }, none, .typeAlias "U" [] (.keyword "string")⟩,
      .declaration ⟨none, { exported := true }, none, .interface "T" [] [] []⟩]⟩]

/-- The store of `mergedUnits`. -/
def mergedStore : Store := ((Store.ofUnits mergedUnits).toOption).getD {}

theorem sources_merged : (ofStore mergedStore {}).sources 0 = [0, 1] :=
  List.mergeSort_of_pairwise (l := [0, 1]) (by decide)

/-- Both declarations of the interface are written under its one name. -/
theorem merged_symbols_twice : ∃ bundle, Store.ofUnits mergedUnits = .ok mergedStore
    ∧ (ofStore mergedStore {}).bundle ⟨"a.ts", "a.d.ts", none⟩ = .ok bundle
    ∧ ∃ name, bundle.naming.names.symbol? 1 "T" = some name
      ∧ bundle.naming.names.get? 1 = some name ∧ bundle.naming.names.get? 3 = some name := by
  have hu : Store.ofUnits mergedUnits = .ok mergedStore := rfl
  have hr : 1 ∈ ((ofStore mergedStore {}).reached ⟨"a.ts", "a.d.ts", none⟩ 0).decls := by
    simp only [reached, sources_merged]
    decide +kernel
  refine ⟨_, hu, rfl, ?_⟩
  obtain ⟨entryId, hid, -, hsymbol⟩ :=
    merged_symbols (Store.built_ofUnits hu) {} ⟨"a.ts", "a.d.ts", none⟩ rfl
  cases (Option.some.inj hid : 0 = entryId)
  obtain ⟨name, hname, hall⟩ := hsymbol _ (List.mem_cons_of_mem _ List.mem_cons_self) hr
  exact ⟨name, hname, (hall _ (List.mem_cons_of_mem _ List.mem_cons_self) rfl rfl).2.1,
    (hall _ (List.mem_cons_of_mem _ (List.mem_cons_of_mem _ (List.mem_cons_of_mem _
      List.mem_cons_self))) rfl rfl).2.1⟩

end Bundler

end DeclBundle
