import DeclBundle.Proofs.Bundle.Renumber
import DeclBundle.Proofs.Renumber.Merge
import DeclBundle.Proofs.Renumber.Moves
import Mathlib.Data.List.Sort

/-!
# Unrelated modules

A bundle depends on the modules that its entry leads to and on nothing else. Units that none of these
modules names can come between the others anywhere: the bundle is written, counted and reported the
same, and gives the same names (`unrelated_modules`).

The modules behind a new unit get other numbers, and their declarations other identities. The order
of the old modules stays, and identities that are given out later follow each other as before, so
every stage gives what it gave, under other numbers (`Store.EmbedsInOrder`). Numbers and identities
are not written.
-/

namespace DeclBundle

/-- The store `s` embeds into `s'`, and its modules stay in order. The identities that come after all
those of a store are given out in the same order. -/
structure Store.EmbedsInOrder (ρ : Renumbering) (s s' : Store) (S : ModuleId → Prop) : Prop
    extends s.Embeds ρ s' S where
  strictMono : StrictMono ρ.module
  nextId : ρ.decl s.nextId = s'.nextId
  steady : ρ.SteadyFrom s.nextId

/-- The top-level bindings with their given and their final names, in the order of the choice. -/
def FinalNames.bindings (n : FinalNames) : List (String × String) :=
  n.topLevel.values.map fun b => (b.given, b.name)

/-- Two bundles that are written, counted and reported the same and give the same names. -/
structure Bundle.SameOutput (b b' : Bundle) : Prop where
  printed : b.printed = b'.printed
  stats : b.stats = b'.stats
  diagnostics : b.diagnostics = b'.diagnostics
  exports : b.file.exports = b'.file.exports
  bindings : b.naming.names.bindings = b'.naming.names.bindings

theorem Bundle.SameOutput.refl (b : Bundle) : b.SameOutput b := ⟨rfl, rfl, rfl, rfl, rfl⟩

theorem Bundle.SameOutput.trans {b₁ b₂ b₃ : Bundle} (h : b₁.SameOutput b₂)
    (h' : b₂.SameOutput b₃) : b₁.SameOutput b₃ where
  printed := h.printed.trans h'.printed
  stats := h.stats.trans h'.stats
  diagnostics := h.diagnostics.trans h'.diagnostics
  exports := h.exports.trans h'.exports
  bindings := h.bindings.trans h'.bindings

theorem FinalNames.bindings_renumber (ρ : Renumbering) (n : FinalNames) :
    (n.renumber ρ).bindings = n.bindings := by
  simp only [bindings, renumber, Table.values_map, List.map_map]
  rfl

theorem FinalNames.renamedCount_renumber (ρ : Renumbering) (n : FinalNames) :
    (n.renumber ρ).renamedCount = n.renamedCount := by
  simp only [renamedCount, renumber, Table.values_map, List.countP_map]
  rfl

namespace DependencyGraph

theorem pairwise_sourceModules (g : DependencyGraph) (l : Linker) (entry : ModuleId) :
    (g.sourceModules l entry).Pairwise (· ≤ ·) := by
  have htrans : ∀ m₁ m₂ m₃ : ModuleId, decide (m₁ ≤ m₂) → decide (m₂ ≤ m₃) → decide (m₁ ≤ m₃) :=
    fun _ _ _ h h' => decide_eq_true (Nat.le_trans (of_decide_eq_true h) (of_decide_eq_true h'))
  have htotal : ∀ m₁ m₂ : ModuleId, decide (m₁ ≤ m₂) || decide (m₂ ≤ m₁) := fun m₁ m₂ => by
    simpa only [Bool.or_eq_true, decide_eq_true_eq] using Nat.le_total m₁ m₂
  exact (List.pairwise_mergeSort htrans htotal _).imp fun h => of_decide_eq_true h

end DependencyGraph

/-! ## Stages in a store with other units -/

namespace Store.EmbedsInOrder

open Bundler

variable {ρ : Renumbering} {s s' : Store} {S : ModuleId → Prop} (h : s.EmbedsInOrder ρ s' S)
  (options : Options) (entry : Entry) {entryId : ModuleId} (he : S entryId)
include h he

theorem sources : (ofStore s' options).sources (ρ.module entryId)
    = ((ofStore s options).sources entryId).map ρ.module := by
  refine List.Perm.eq_of_pairwise (fun a b _ _ hab hba => Nat.le_antisymm hab hba) ?_ ?_
    (h.perm_sources options he)
  · exact DependencyGraph.pairwise_sourceModules _ _ _
  · refine List.pairwise_map.2 ((DependencyGraph.pairwise_sourceModules _ _ _).imp ?_)
    exact fun hab => h.strictMono.monotone hab

theorem reach_eq : (ofStore s' options).reach (ρ.module entryId)
      ((ofStore s' options).sources (ρ.module entryId))
      ((ofStore s' options).asked entry (ρ.module entryId))
    = Prod.map (Reach.renumber ρ) id ((ofStore s options).reach entryId
        ((ofStore s options).sources entryId) ((ofStore s options).asked entry entryId)) := by
  rw [h.sources options he]
  exact h.reach_sources options entry he

theorem reached : (ofStore s' options).reached entry (ρ.module entryId)
    = ((ofStore s options).reached entry entryId).renumber ρ :=
  congrArg Prod.fst (h.reach_eq options entry he)

theorem contains_reached (id : DeclId) :
    ((ofStore s' options).reached entry (ρ.module entryId)).contains (ρ.decl id)
      = ((ofStore s options).reached entry entryId).contains id := by
  rw [h.reached options entry he]
  exact decide_eq_decide.2 (List.mem_map_of_injective ρ.decl_injective)

theorem shaken : (ofStore s' options).shaken entry (ρ.module entryId)
    = ((ofStore s options).shaken entry entryId).map (ModuleTree.renumber ρ) := by
  rw [Bundler.shaken, h.sources options he]
  exact h.toEmbeds.shaken (h.contains_reached options entry he) _

theorem names : (ofStore s' options).names entry (ρ.module entryId)
    = ((ofStore s options).names entry entryId).renumber ρ := by
  have hreached := h.reached options entry he
  have hreserved : (ofStore s' options).reserved entry (ρ.module entryId)
      = (ofStore s options).reserved entry entryId := by
    rw [reserved, hreached]
    rfl
  have hcontext : (ofStore s' options).context entry (ρ.module entryId)
      = ⟨s'.linker options, ((ofStore s options).reached entry entryId).renumber ρ,
          ρ.module entryId⟩ := by
    rw [context, hreached]
    rfl
  have hnamespaces : ∀ m ∈ ((ofStore s options).reached entry entryId).namespaces, S m :=
    fun m hm => h.in_reached options entry he (t := .namespaceOf m) hm
  have hfollow : ∀ id, s.nextId ≤ id → ρ.decl (id + 1) = ρ.decl id + 1 := fun id hid =>
    (h.steady.mono hid) 1
  have hchoose := h.choose options he hnamespaces
    (fun t => h.of_mem_shaken options entry he) hfollow
    ((ofStore s options).reserved entry entryId)
  rw [Bundler.names, hreserved, hcontext, h.shaken options entry he]
  rw [h.nextId] at hchoose
  exact hchoose

theorem renamed : (ofStore s' options).renamed entry (ρ.module entryId)
    = ((ofStore s options).renamed entry entryId).map (ModuleTree.renumber ρ) := by
  rw [Bundler.renamed, h.shaken options entry he, h.names options entry he, Bundler.renamed,
    List.map_map, List.map_map]
  exact List.map_congr_left fun t ht =>
    h.named options _ ht (h.of_mem_shaken options entry he ht)

theorem written : (ofStore s' options).written entry (ρ.module entryId)
    = ((ofStore s options).written entry entryId).map (ModuleTree.renumber ρ) := by
  rw [Bundler.written, h.renamed options entry he, Ambient.addDeclare_renumber,
    Ambient.dropExports_renumber, Bundler.written]

theorem mergeInput : (ofStore s' options).mergeInput entry (ρ.module entryId)
    = ((ofStore s options).mergeInput entry entryId).renumber ρ (s'.linker options) := by
  have hstars : ((ofStore s' options).linker.surface (ρ.module entryId)).1.externalStars
      = ((ofStore s options).linker.surface entryId).1.externalStars :=
    congrArg (·.1.externalStars) (h.surface options he)
  simp only [Bundler.mergeInput, MergeInput.renumber, hstars, h.asked options entry he,
    h.written options entry he, h.names options entry he, h.renamed options entry he,
    Ambient.addDeclare_renumber, Ambient.inlineExports_renumber]
  rfl

theorem in_mergeInput :
    ((ofStore s options).mergeInput entry entryId).In s options S where
  linker := rfl
  entry := he
  surface _ hrow := h.within_asked options entry he hrow
  aliases a ha := by
    obtain ⟨⟨k, _⟩, hrow, rfl⟩ := List.mem_map.1 ha
    have hget := Table.get?_of_mem_rows (sound_names h.built options entry entryId).aliases_nodup
      hrow
    have hreq := FinalNames.requested_of_alias _ hget
    have hreached : _ ∈ ((ofStore s options).reached entry entryId).decls :=
      of_decide_eq_true (FinalNames.reached_of_importAlias _ hreq).2
    exact h.in_reached options entry he hreached
  namespaces k hk := h.in_reached options entry he (t := .namespaceOf k)
    (FinalNames.reached_of_namespace hk)

theorem merge :
    ((ofStore s' options).mergeInput entry (ρ.module entryId)).merge.statements
        = ((ofStore s options).mergeInput entry entryId).merge.statements.map
            (Statement.renumber ρ.decl)
      ∧ ((ofStore s' options).mergeInput entry (ρ.module entryId)).merge.exports
        = ((ofStore s options).mergeInput entry entryId).merge.exports := by
  rw [h.mergeInput options entry he]
  have hnames := sound_names h.built options entry entryId
  exact h.toEmbeds.merge (h.in_mergeInput options entry he) (h.steady.mono hnames.first_le)

/-! ## What comes out -/

theorem file : ((ofStore s' options).bundleModule entry (ρ.module entryId)).file
    = { ((ofStore s options).bundleModule entry entryId).file with
        statements := ((ofStore s options).bundleModule entry entryId).file.statements.map
          (PlacedStatement.renumber ρ.decl) } := by
  have himports : ((ofStore s' options).bundleModule entry (ρ.module entryId)).file.imports
      = ((ofStore s options).bundleModule entry entryId).file.imports := by
    rw [imports_bundleModule, h.names options entry he, libraryImports_renumber,
      imports_bundleModule]
  have hstatements : ((ofStore s' options).bundleModule entry (ρ.module entryId)).file.statements
      = ((ofStore s options).bundleModule entry entryId).file.statements.map
          (PlacedStatement.renumber ρ.decl) := by
    rw [statements_bundleModule, h.written options entry he, placedStatements_renumber,
      (h.merge options entry he).1, statements_bundleModule, List.map_append, List.map_map,
      List.map_map]
    rfl
  have hexports : ((ofStore s' options).bundleModule entry (ρ.module entryId)).file.exports
      = ((ofStore s options).bundleModule entry entryId).file.exports := by
    rw [exports_bundleModule, exports_bundleModule, (h.merge options entry he).2]
  exact (OutputFile.mk.injEq ..).mpr ⟨rfl, himports, hstatements, hexports, rfl⟩

theorem stats : ((ofStore s' options).bundleModule entry (ρ.module entryId)).stats
    = ((ofStore s options).bundleModule entry entryId).stats := by
  have hstats : ∀ (b : Bundler) (e : ModuleId), (b.bundleModule entry e).stats
      = Stats.collect (b.reached entry e)
          (Shake.counts b.store (b.sources e) (b.reached entry e))
          (b.names entry e).renamedCount := fun _ _ => rfl
  have hcounts : Shake.counts s' ((ofStore s' options).sources (ρ.module entryId))
        ((ofStore s' options).reached entry (ρ.module entryId))
      = Shake.counts s ((ofStore s options).sources entryId)
          ((ofStore s options).reached entry entryId) := by
    rw [h.sources options he]
    exact h.counts (h.contains_reached options entry he) _
  rw [hstats, hstats, store_ofStore, store_ofStore, hcounts, h.reached options entry he,
    h.names options entry he, FinalNames.renamedCount_renumber]
  rfl

theorem diagnostics : ((ofStore s' options).bundleModule entry (ρ.module entryId)).diagnostics
    = ((ofStore s options).bundleModule entry entryId).diagnostics := by
  have hdiagnostics : ∀ (b : Bundler) (e : ModuleId), (b.bundleModule entry e).diagnostics
      = Diagnostic.dedupe ((b.linker.surface e).2
          ++ (required entry.module (b.linker.surface e).1 entry.exports).2
          ++ (b.reach e (b.sources e) (b.asked entry e)).2
          ++ (b.reached entry e).diagnostics) := fun _ _ => rfl
  have hsurface : ((ofStore s' options).linker.surface (ρ.module entryId)).2
      = ((ofStore s options).linker.surface entryId).2 :=
    (congrArg Prod.snd (h.surface options he)).trans rfl
  have hrequired : (required entry.module
        ((ofStore s' options).linker.surface (ρ.module entryId)).1 entry.exports).2
      = (required entry.module ((ofStore s options).linker.surface entryId).1 entry.exports).2 :=
    (congrArg Prod.snd (h.required options entry he)).trans rfl
  rw [hdiagnostics, hdiagnostics, hsurface, hrequired, h.reach_eq options entry he,
    h.reached options entry he]
  rfl

/-- The bundle of an entry that sees the same is the same. -/
theorem sameOutput : ((ofStore s options).bundleModule entry entryId).SameOutput
    ((ofStore s' options).bundleModule entry (ρ.module entryId)) where
  printed := by
    have hprinted : ∀ (b : Bundler) (e : ModuleId), (b.bundleModule entry e).printed
        = Print.run (b.bundleModule entry e).file b.options.sourceMap := fun _ _ => rfl
    rw [hprinted, hprinted, h.file options entry he]
    exact (Print.run_renumber ρ.decl _ _).symm
  stats := (h.stats options entry he).symm
  diagnostics := (h.diagnostics options entry he).symm
  exports := by rw [h.file options entry he]
  bindings := by
    rw [names_bundleModule, names_bundleModule, h.names options entry he,
      FinalNames.bindings_renumber]

end Store.EmbedsInOrder

/-! ## What the modules of a bundle name -/

/-- All that the modules of a bundle name: the sources of their imports and exports and the arguments
of their import types. -/
def Bundler.specifiers (b : Bundler) (entryId : ModuleId) : List String :=
  (b.sources entryId).flatMap fun m => ((b.store.get? m).map DeclUnit.specifiers).getD []

theorem Bundler.mem_specifiers {b : Bundler} {entryId : ModuleId} {x : String} :
    x ∈ b.specifiers entryId
      ↔ ∃ m ∈ b.sources entryId, ∃ u, b.store.get? m = some u ∧ x ∈ u.specifiers := by
  rw [specifiers, List.mem_flatMap]
  refine exists_congr fun m => and_congr_right fun _ => ?_
  cases b.store.get? m <;> simp

theorem Store.EmbedsInOrder.specifiers {ρ : Renumbering} {s s' : Store} {S : ModuleId → Prop}
    (h : s.EmbedsInOrder ρ s' S) (options : Options) {entryId : ModuleId} (he : S entryId) :
    (Bundler.ofStore s' options).specifiers (ρ.module entryId)
      = (Bundler.ofStore s options).specifiers entryId := by
  simp only [Bundler.specifiers, h.sources options he, Bundler.store_ofStore, List.flatMap_map,
    h.unit, Option.map_map]
  refine List.flatMap_congr fun m _ => ?_
  cases s.get? m with
  | none => rfl
  | some u => exact u.specifiers_renumber ρ.decl

namespace Store

/-- With a unit more that no module of a bundle names, all modules of the bundle see the same. -/
theorem embedsInOrder_insertion {a b : List DeclUnit} {u : DeclUnit} (h : Distinct (a ++ u :: b))
    (options : Options) {entryId : ModuleId}
    (hu : u.path ∉ (Bundler.ofStore (storeOf (a ++ b)) options).specifiers entryId) :
    (storeOf (a ++ b)).EmbedsInOrder (insertion a u) (storeOf (a ++ u :: b))
      (· ∈ (Bundler.ofStore (storeOf (a ++ b)) options).sources entryId) where
  toEmbeds := by
    refine embeds_insertion h (fun hm hv hx ht => ?_) fun m v hm hv hx => hu ?_
    · exact neighbour_mem_sourceModules hm (mem_neighbours.2 ⟨_, hv, _, hx, ht⟩)
    · exact Bundler.mem_specifiers.2 ⟨m, hm, v, hv, hx⟩
  strictMono := shiftFrom_strictMono _ _
  nextId := by
    simp only [storeOf, slotCount_append, slotCount, ← Nat.add_assoc]
    exact shiftFrom_after _ _ _
  steady i := by
    simp only [storeOf, slotCount_append, insertion, Nat.add_assoc, shiftFrom_after]

end Store

namespace Bundler

open Store

/-- Behind the units `a`, units that nothing in a bundle names change nothing in it. A new unit
comes in right behind those that are settled, and is then one of them. -/
theorem sameOutput_sublist (options : Options) (entry : Entry) {us us' : List DeclUnit}
    (hs : us.Sublist us') : ∀ {a : List DeclUnit} {entryId : ModuleId}, Distinct (a ++ us') →
      (storeOf (a ++ us)).lookup entry.module = some entryId →
      (∀ u ∈ us', u ∉ us →
        u.path ∉ (ofStore (storeOf (a ++ us)) options).specifiers entryId) →
        ∃ entryId', (storeOf (a ++ us')).lookup entry.module = some entryId'
          ∧ ((ofStore (storeOf (a ++ us)) options).bundleModule entry entryId).SameOutput
              ((ofStore (storeOf (a ++ us')) options).bundleModule entry entryId') := by
  induction hs with
  | slnil => exact fun _ he _ => ⟨_, he, .refl _⟩
  | @cons us us' u hs ih =>
    intro a entryId h he hu
    have hnew : u ∉ us := fun hm => h.not_mem (hs.subset hm)
    have hone : Distinct (a ++ u :: us) := h.sublist ((hs.cons_cons u).append_left a)
    have hemb := embedsInOrder_insertion hone options (hu u List.mem_cons_self hnew)
    have hentry : entryId ∈ (ofStore (storeOf (a ++ us)) options).sources entryId :=
      entry_mem_sourceModules entryId
    have hsame := hemb.sameOutput options entry hentry
    have he' := hemb.lookup_unit he
    have hspecifiers := hemb.specifiers options hentry
    rw [List.append_cons a u us] at he' hsame hspecifiers
    rw [List.append_cons a u us'] at h ⊢
    obtain ⟨entryId', hid, hsame'⟩ := ih h he' fun v hv hv' =>
      hspecifiers ▸ hu v (List.mem_cons_of_mem u hv) hv'
    exact ⟨entryId', hid, hsame.trans hsame'⟩
  | @cons_cons us us' u hs ih =>
    intro a entryId h he hu
    have hold : ∀ v ∈ us', v ∉ us → v ∉ u :: us := fun v hv hv' hm =>
      (List.mem_cons.1 hm).elim (fun hvu => h.not_mem (hvu ▸ hv)) hv'
    rw [List.append_cons a u us] at he hu ⊢
    rw [List.append_cons a u us'] at h ⊢
    exact ih h he fun v hv hv' => hu v (List.mem_cons_of_mem u hv) (hold v hv hv')

/-- Modules that nothing in a bundle names cannot influence it: more units with other paths that are
not empty, anywhere between the units of a store, make a store in which the entry has a bundle with
the same text and map, the same statistics, reports and exports, and the same top-level names, as
long as no module that the entry leads to names one of them. -/
theorem unrelated_modules {us us' : List DeclUnit} {store : Store}
    (hstore : Store.ofUnits us = .ok store) (h : Distinct us') (hs : us.Sublist us')
    (options : Options) (entry : Entry) {entryId : ModuleId}
    (he : store.lookup entry.module = some entryId)
    (hu : ∀ u ∈ us', u ∉ us → u.path ∉ (ofStore store options).specifiers entryId) :
    ∃ store' bundle bundle', Store.ofUnits us' = .ok store'
      ∧ (ofStore store options).bundle entry = .ok bundle
      ∧ (ofStore store' options).bundle entry = .ok bundle'
      ∧ bundle.SameOutput bundle' := by
  cases Except.ok.inj ((h.sublist hs).ofUnits.symm.trans hstore)
  obtain ⟨entryId', he', hsame⟩ := sameOutput_sublist options entry hs (a := []) h he hu
  exact ⟨_, _, _, h.ofUnits, bundle_of_lookup _ entry he, bundle_of_lookup _ entry he', hsame⟩

/-- A module that exports what another declares. -/
def reexportedName : List DeclUnit :=
  [⟨"index.ts", [.exports ⟨[⟨"T", "T"⟩], some "a.ts", false⟩]⟩,
    ⟨"a.ts", [.declaration ⟨none, { exported := true }, none, .interface "T" [] [] []⟩]⟩]

/-- The store of `reexportedName`. -/
def reexportedStore : Store := ((Store.ofUnits reexportedName).toOption).getD {}

/-- The same modules behind one that declares the same name. -/
def behindSameName : List DeclUnit :=
  ⟨"b.ts", [.declaration ⟨none, { exported := true }, none, .interface "T" [] [] []⟩]⟩
    :: reexportedName

theorem sources_reexported : (ofStore reexportedStore {}).sources 0 = [0, 1] :=
  List.mergeSort_of_pairwise (l := [0, 1]) (by decide)

/-- A module that comes first and that nothing names takes no name away. -/
theorem unrelated_modules_sameName : ∃ store' bundle bundle',
    Store.ofUnits reexportedName = .ok reexportedStore
    ∧ Store.ofUnits behindSameName = .ok store'
    ∧ (ofStore reexportedStore {}).bundle ⟨"index.ts", "index.d.ts", none⟩ = .ok bundle
    ∧ (ofStore store' {}).bundle ⟨"index.ts", "index.d.ts", none⟩ = .ok bundle'
    ∧ bundle.SameOutput bundle'
    ∧ bundle'.naming.names.bindings = [("T", "T")] := by
  have hstore : Store.ofUnits reexportedName = .ok reexportedStore := rfl
  have hspecifiers : (ofStore reexportedStore {}).specifiers 0 = ["a.ts"] := by
    rw [specifiers, sources_reexported]
    decide +kernel
  obtain ⟨store', bundle, bundle', hstore', hb, hb', hsame⟩ :=
    unrelated_modules hstore (show Distinct behindSameName from ⟨by decide, by decide⟩)
      (.cons _ (.refl _)) {} ⟨"index.ts", "index.d.ts", none⟩ (show _ = some 0 from rfl)
      fun u hu hnew => by
        rw [hspecifiers]
        rcases List.mem_cons.1 hu with rfl | hu
        · decide
        · exact absurd hu hnew
  refine ⟨store', bundle, bundle', hstore, hstore', hb, hb', hsame, ?_⟩
  rw [← hsame.bindings]
  cases hb
  rw [names_bundleModule]
  simp only [names, context, reserved, shaken, reached, sources_reexported]
  decide +kernel

end Bundler

end DeclBundle
