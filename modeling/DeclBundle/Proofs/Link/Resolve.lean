import DeclBundle.Link.Resolve
import DeclBundle.Proofs.Link.Tables

/-!
# Where a look-up can end

A name that is used in a module ends at a declaration of a module that is reached from it through
imports and re-exports. So for a set of modules that holds the dependencies of its modules, a
look-up that starts in the set does not leave it (`Linker.within_resolveLocal`,
`Linker.within_resolveExport`).
-/

namespace DeclBundle

/-- What a resolution points to inside the store belongs to a module of `S`; a declaration is the
first of its symbol. -/
def Resolution.Within (l : Linker) (S : ModuleId → Prop) : Resolution → Prop
  | .declaration id => ∃ m scope name ids, S m ∧ l.scope? m = some scope
      ∧ scope.symbols.get? name = some (id :: ids)
  | .namespaceOf m => S m
  | .external _ | .unresolved => True

namespace Linker

/-- A search that finds something finds it in a module of `S`. -/
def Lookup.Within (l : Linker) (S : ModuleId → Prop) : Lookup → Prop
  | .found r => r.Within l S
  | .notFound | .cycle => True

/-- The modules of `S` are linked, and their dependencies are in `S`. -/
structure Closed (l : Linker) (S : ModuleId → Prop) : Prop where
  linked : ∀ {m scope}, l.scope? m = some scope → scope.Linked
  dependency : ∀ {m d}, S m → d ∈ l.dependencies m → S d

variable {l : Linker} {S : ModuleId → Prop}

theorem Closed.dependency_scope (hS : l.Closed S) {m d : ModuleId} {scope : ModuleTables}
    (hm : S m) (hs : l.scope? m = some scope) (hd : d ∈ scope.dependencies) : S d := by
  refine hS.dependency hm ?_
  simpa [dependencies, hs] using hd

theorem within_follow {next : ModuleId → String → Lookup} {source : Provider} {remote : Remote}
    (hn : ∀ m name, S m → (next m name).Within l S) (hs : ∀ m, source = .internal m → S m) :
    (follow next source remote).Within l S := by
  cases source with
  | external specifier => trivial
  | internal m =>
    cases remote with
    | all => exact hs m rfl
    | default => exact hn m "default" (hs m rfl)
    | named name => exact hn m name (hs m rfl)

theorem within_chaseLocal (hS : l.Closed S) {next : ModuleId → String → Lookup}
    (hn : ∀ m name, S m → (next m name).Within l S) {m : ModuleId} {scope : ModuleTables}
    (hm : S m) (hs : l.scope? m = some scope) (name : String) :
    (chaseLocal next scope name).Within l S := by
  unfold chaseLocal
  split
  · rename_i id ids hg
    exact ⟨m, scope, name, ids, hm, hs, hg⟩
  · split
    · rename_i row hr
      refine within_follow hn fun d hd => ?_
      exact hS.dependency_scope hm hs ((hS.linked hs).imports hr hd)
    · trivial

theorem within_chaseStars {next : ModuleId → Lookup} (hn : ∀ m, S m → (next m).Within l S) :
    ∀ {sources : List Provider}, (∀ m, .internal m ∈ sources → S m) →
      (chaseStars next sources).Within l S
  | [], _ => trivial
  | .external _ :: rest, hs => by
    simp only [chaseStars]
    exact within_chaseStars hn fun m hm => hs m (List.mem_cons_of_mem _ hm)
  | .internal m :: rest, hs => by
    have hm := hn m (hs m List.mem_cons_self)
    simp only [chaseStars]
    split
    · rename_i r hr
      rwa [hr] at hm
    · exact within_chaseStars hn fun m hm => hs m (List.mem_cons_of_mem _ hm)

theorem mem_inPolicyOrder {policy : StarPolicy} {xs : List α} {x : α} :
    x ∈ inPolicyOrder policy xs ↔ x ∈ xs := by
  cases policy <;> simp [inPolicyOrder]

theorem within_chaseExport (hS : l.Closed S) : ∀ (budget : Nat) (path : List (ModuleId × String))
    (m : ModuleId) (name : String), S m → (l.chaseExport budget path m name).Within l S
  | 0, _, _, _, _ => trivial
  | budget + 1, path, m, name, hm => by
    have hn := within_chaseExport hS budget ((m, name) :: path)
    unfold chaseExport
    split
    · trivial
    · split
      · trivial
      · rename_i scope hs
        have hd : ∀ {d}, d ∈ scope.dependencies → S d := hS.dependency_scope hm hs
        have hl := hS.linked hs
        simp only []
        split
        · exact within_chaseLocal hS hn hm hs _
        · rename_i source remote hg
          refine within_follow hn ?_
          rintro d rfl
          exact hd (hl.exports hg)
        · split
          · trivial
          · refine within_chaseStars (fun d => hn d name) fun d hd' => ?_
            exact hd (hl.stars (mem_inPolicyOrder.1 hd'))

theorem within_findExport (hS : l.Closed S) {m : ModuleId} (hm : S m) (name : String) :
    (l.findExport m name).Within l S :=
  within_chaseExport hS _ _ m name hm

theorem within_resolveExport (hS : l.Closed S) {m : ModuleId} (hm : S m) (name : String) :
    (l.resolveExport m name).1.Within l S := by
  have h := within_findExport hS hm name
  unfold resolveExport
  split
  · rename_i r hr
    rwa [hr] at h
  · trivial
  · trivial

theorem within_resolveLocal (hS : l.Closed S) {m : ModuleId} (hm : S m) (name : String) :
    (l.resolveLocal m name).1.Within l S := by
  have h : (l.findLocal m name).Within l S := by
    unfold findLocal
    split
    · trivial
    · rename_i scope hs
      exact within_chaseLocal hS (fun d name hd => within_findExport hS hd name) hm hs name
  unfold resolveLocal
  split
  · rename_i r hr
    rwa [hr] at h
  · trivial
  · split <;> trivial

end Linker

namespace Store

variable {s : Store} {options : Options} {S : ModuleId → Prop}

theorem linked_scope {m : ModuleId} {scope : ModuleTables}
    (h : (s.linker options).scope? m = some scope) : scope.Linked := by
  rw [scope?_linker, Option.map_eq_some_iff] at h
  obtain ⟨u, -, rfl⟩ := h
  exact (tablesOf_spec m u).1

/-- A declaration that a look-up in `S` ends at is a top-level binding of a module of `S`. -/
theorem binding_of_within {id : DeclId}
    (h : (Resolution.declaration id).Within (s.linker options) S) :
    ∃ b ∈ s.bindings, b.id = id ∧ S b.module := by
  obtain ⟨m, scope, name, ids, hm, hs, hg⟩ := h
  have hid : id ∈ scope.symbolIds name := by simp [ModuleTables.symbolIds, hg]
  obtain ⟨b, hb, rfl, rfl, -⟩ := ((symbols_scope options hs name).2 id).1 hid
  exact ⟨b, hb, rfl, hm⟩

end Store

end DeclBundle
