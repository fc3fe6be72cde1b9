import DeclBundle.Proofs.Bundle.Renumber
import DeclBundle.Proofs.Bundle.Reported
import DeclBundle.Proofs.Renumber.Moves
import Mathlib.Data.List.Sort
import Mathlib.Data.Prod.Lex
import Mathlib.Data.String.Basic

/-!
# The order of modules

The order in which modules are added decides which names are taken first, and nothing else: two
bundles of one entry export the same under the same names, keep and remove as much, take the same
from libraries and report the same (`order_names_only`).

Modules that change places get other numbers, and so do their identities. Under these numbers all
stages see the same (`Store.Embeds`), except that the modules of the bundle, which stand in the order
of the store, are another list of the same modules.
-/

namespace DeclBundle

/-- Two bundles that differ in the names they give and in the order of what they write at most. -/
structure Bundle.SameButNames (b b' : Bundle) : Prop where
  exported : b.file.exports.entries.map (·.exported) = b'.file.exports.entries.map (·.exported)
  externalStars : b.file.exports.externalStars = b'.file.exports.externalStars
  assignment : b.file.exports.assignment.isSome = b'.file.exports.assignment.isSome
  kept : b.stats.kept = b'.stats.kept
  removed : b.stats.removed = b'.stats.removed
  libraryUses : b.stats.libraryUses = b'.stats.libraryUses
  diagnostics : ∀ d, d ∈ b.diagnostics ↔ d ∈ b'.diagnostics

theorem Bundle.SameButNames.refl (b : Bundle) : b.SameButNames b :=
  ⟨rfl, rfl, rfl, rfl, rfl, rfl, fun _ => Iff.rfl⟩

theorem Bundle.SameButNames.trans {b₁ b₂ b₃ : Bundle} (h : b₁.SameButNames b₂)
    (h' : b₂.SameButNames b₃) : b₁.SameButNames b₃ where
  exported := h.exported.trans h'.exported
  externalStars := h.externalStars.trans h'.externalStars
  assignment := h.assignment.trans h'.assignment
  kept := h.kept.trans h'.kept
  removed := h.removed.trans h'.removed
  libraryUses := h.libraryUses.trans h'.libraryUses
  diagnostics d := (h.diagnostics d).trans (h'.diagnostics d)

/-! ## Library uses -/

namespace LibraryUse

theorem le_iff (a b : LibraryUse) :
    a.le b = true ↔ toLex (a.library, a.symbol) ≤ toLex (b.library, b.symbol) := by
  simp [le, Prod.Lex.toLex_le_toLex]

theorem mergeSort_congr {us vs : List LibraryUse} (h : us.Perm vs) :
    us.mergeSort le = vs.mergeSort le := by
  have htrans : ∀ a b c : LibraryUse, a.le b → b.le c → a.le c := fun a b c hab hbc => by
    rw [le_iff] at *
    exact hab.trans hbc
  have htotal : ∀ a b : LibraryUse, a.le b || b.le a := fun a b => by
    rw [Bool.or_eq_true, le_iff, le_iff]
    exact le_total _ _
  refine List.Perm.eq_of_pairwise ?_ (List.pairwise_mergeSort htrans htotal us)
    (List.pairwise_mergeSort htrans htotal vs)
    (((List.mergeSort_perm us _).trans h).trans (List.mergeSort_perm vs _).symm)
  intro a b _ _ hab hba
  rw [le_iff] at hab hba
  obtain ⟨hl, hs⟩ := Prod.ext_iff.1 (toLex_inj.1 (hab.antisymm hba))
  obtain ⟨library, symbol⟩ := a
  exact LibraryUse.mk.injEq .. ▸ ⟨hl, hs⟩

end LibraryUse

/-! ## The modules of a bundle in another order -/

namespace Bundler

section
variable (b : Bundler) (entryId : ModuleId) (surface : List (String × Resolution))
  {ms ms' : List ModuleId} (hm : ∀ m, m ∈ ms ↔ m ∈ ms')
include hm

theorem mem_reach_congr {t : Target} :
    t ∈ (b.reach entryId ms surface).1 ↔ t ∈ (b.reach entryId ms' surface).1 := by
  have hr : ∀ t, t ∈ (b.roots entryId ms surface).1 ↔ t ∈ (b.roots entryId ms' surface).1 := by
    intro t
    simp only [roots, List.mem_append, List.mem_flatMap, hm]
  have hreach : ∀ ks, t ∈ (b.reach entryId ks surface).1
      ↔ t ∈ b.references.closure b.linker (b.roots entryId ks surface).1 := by
    intro ks
    cases t <;> rfl
  rw [hreach, hreach]
  exact ⟨DependencyGraph.mem_closure_mono fun t => (hr t).1,
    DependencyGraph.mem_closure_mono fun t => (hr t).2⟩

theorem mem_diagnostics_reach_congr {d : Diagnostic} :
    d ∈ (b.reach entryId ms surface).1.diagnostics
      ↔ d ∈ (b.reach entryId ms' surface).1.diagnostics := by
  have hreach : ∀ ks, d ∈ (b.reach entryId ks surface).1.diagnostics
      ↔ ∃ id, Target.declaration id ∈ (b.reach entryId ks surface).1
          ∧ d ∈ (b.references.edgesOf id).diagnostics :=
    fun ks => b.references.mem_diagnostics_closure b.linker
  simp only [hreach, b.mem_reach_congr entryId surface hm]

theorem mem_reports_reach_congr {d : Diagnostic} :
    d ∈ (b.reach entryId ms surface).2 ↔ d ∈ (b.reach entryId ms' surface).2 := by
  have hreach : ∀ ks, d ∈ (b.reach entryId ks surface).2
      ↔ (d ∈ (b.assignmentTargets entryId).2
          ∨ ∃ m, Target.namespaceOf m ∈ (b.reach entryId ks surface).1 ∧ d ∈ (b.linker.surface m).2)
        ∨ ∃ m ∈ ks, d ∈ (b.references.verbatimEdges m).diagnostics := by
    intro ks
    have hsurface : d ∈ (b.references.closure b.linker
          (b.roots entryId ks surface).1).surfaceDiagnostics ↔ _ :=
      b.references.mem_surfaceDiagnostics_closure b.linker
    simp only [reach, List.mem_append, hsurface, List.flatMap_map, List.mem_flatMap]
    rfl
  simp only [hreach, b.mem_reach_congr entryId surface hm, hm]

end

/-! ## What is read off a bundle -/

section
variable (b : Bundler) (entry : Entry) (entryId : ModuleId)

theorem mem_diagnostics {d : Diagnostic} : d ∈ (b.bundleModule entry entryId).diagnostics
    ↔ d ∈ (b.linker.surface entryId).2
      ∨ d ∈ (required entry.module (b.linker.surface entryId).1 entry.exports).2
      ∨ d ∈ (b.reach entryId (b.sources entryId) (b.asked entry entryId)).2
      ∨ d ∈ (b.reached entry entryId).diagnostics := by
  refine List.mem_eraseDups.trans ?_
  rw [List.mem_append, List.mem_append, List.mem_append, or_assoc, or_assoc]
  rfl

/-- What the modules of the bundle ask for when names are chosen. -/
def requests : List FinalNames.Request :=
  (b.shaken entry entryId).flatMap fun t =>
    t.statements.flatMap (FinalNames.Request.ofStatement (b.context entry entryId) t)

/-- The entry exports an import under `name` that asks for an alias. -/
def AsksAlias (name : String) : Prop :=
  ∃ x, (b.linker.scope? entryId).bind (·.exports.get? name) = some (.own x)
    ∧ ∃ terminal, .importAlias entryId x terminal ∈ b.requests entry entryId

/-- Only modules ask for aliases. -/
theorem importAlias_mem_all_iff {x : String} {terminal : DeclId} :
    .importAlias entryId x terminal
        ∈ FinalNames.Request.all (b.context entry entryId) (b.shaken entry entryId)
      ↔ .importAlias entryId x terminal ∈ b.requests entry entryId := by
  rw [FinalNames.Request.all, List.mem_append, or_iff_left]
  · rfl
  · simp [FinalNames.Request.rest]

end

section
variable {store : Store} (hb : store.Built) (options : Options) (entry : Entry)
  (entryId : ModuleId)
include hb

theorem exists_entryAlias_iff {name : String} :
    (∃ x a, ((ofStore store options).names entry entryId).EntryAlias (store.linker options) entryId
        name x a) ↔ (ofStore store options).AsksAlias entry entryId name := by
  constructor
  · rintro ⟨x, a, ⟨scope, hs, hx⟩, ha⟩
    exact ⟨x, Option.bind_eq_some_iff.2 ⟨scope, hs, hx⟩, a.terminal,
      (importAlias_mem_all_iff _ entry entryId).1 (FinalNames.requested_of_alias _ ha)⟩
  · rintro ⟨x, hx, terminal, hreq⟩
    have hkey := (sound_names hb options entry entryId).served
      ((importAlias_mem_all_iff _ entry entryId).2 hreq)
    obtain ⟨a, ha⟩ := Table.mem_keys.1 hkey
    exact ⟨x, a, Option.bind_eq_some_iff.1 hx, ha⟩

/-- An export that is asked for is in the clause if it resolves, or else if there is an alias. -/
theorem isSome_clauseBinding {row : String × Resolution}
    (h : row ∈ (ofStore store options).asked entry entryId) :
    (((ofStore store options).mergeInput entry entryId).clauseBinding row.1 row.2).isSome = true
      ↔ row.2 ≠ .unresolved ∨ (ofStore store options).AsksAlias entry entryId row.1 := by
  obtain ⟨name, r⟩ := row
  rw [← exists_entryAlias_iff hb options entry entryId]
  by_cases hr : r = .unresolved
  · by_cases ha : ∃ x a, ((ofStore store options).names entry entryId).EntryAlias
        (store.linker options) entryId name x a
    · obtain ⟨x, a, ha'⟩ := ha
      obtain ⟨binding, -, hx, -⟩ := declares_alias hb options entry entryId ha'.2
      have hbind := (MergeInput.clauseBinding_of_alias
        (m := (ofStore store options).mergeInput entry entryId) ha' r).trans hx
      exact iff_of_true (by rw [hbind]; rfl) (.inr ⟨x, a, ha'⟩)
    · have hbind := MergeInput.clauseBinding_of_no_alias
        (m := (ofStore store options).mergeInput entry entryId)
        (fun i hi => resolved_of_inlineExport hb options entry entryId hi)
        (fun x a ha' => ha ⟨x, a, ha'⟩) r
      rw [hbind, hr]
      exact iff_of_false (by simp [MergeInput.nameOf, FinalNames.resolved?]) (by simpa using ha)
  · rw [asked_eq] at h
    obtain ⟨binding, hbind⟩ := clauseBinding_of_wanted hb options entry entryId h hr
    exact iff_of_true (by rw [hbind]; rfl) (.inl hr)

/-- There is an export assignment if the entry assigns something that resolves. -/
theorem isSome_assignment :
    ((ofStore store options).mergeInput entry entryId).assignment.isSome = true
      ↔ ∃ scope expression, (store.linker options).scope? entryId = some scope
          ∧ scope.exportAssignment = some expression
          ∧ ((store.linker options).resolveLocal entryId expression).1 ≠ .unresolved := by
  constructor
  · intro h
    obtain ⟨binding, hbinding⟩ := Option.isSome_iff_exists.1 h
    simp only [MergeInput.assignment, Option.bind_eq_bind, Option.bind_eq_some_iff] at hbinding
    obtain ⟨scope, hs, expression, he, hn⟩ := hbinding
    refine ⟨scope, expression, hs, he, fun hr => ?_⟩
    have hnone : ((ofStore store options).mergeInput entry entryId).nameOf
        ((store.linker options).resolveLocal entryId expression).1 = none := by
      rw [hr]
      rfl
    exact absurd (hnone.symm.trans hn) (by simp)
  · rintro ⟨scope, expression, hs, he, hr⟩
    obtain ⟨binding, hbinding⟩ := exists_assignment hb options entry hs he hr
    rw [hbinding]
    rfl

end

end Bundler

/-! ## Bundles under other numbers -/

namespace Store.Embeds

open Bundler

variable {ρ : Renumbering} {s s' : Store} {S : ModuleId → Prop} (h : s.Embeds ρ s' S)
  (options : Options) (entry : Entry) {entryId : ModuleId} (he : S entryId)
include h he

theorem mem_reached {t : Target} :
    t ∈ (ofStore s' options).reached entry (ρ.module entryId)
      ↔ t ∈ ((ofStore s options).reached entry entryId).renumber ρ := by
  have hreach := congrArg Prod.fst (h.reach_sources options entry he)
  rw [Prod.map_fst] at hreach
  rw [reached, mem_reach_congr _ _ _ fun m => h.mem_sources options he, hreach]
  rfl

theorem contains_reached (id : DeclId) :
    ((ofStore s' options).reached entry (ρ.module entryId)).contains (ρ.decl id)
      = ((ofStore s options).reached entry entryId).contains id := by
  have hmem := h.mem_reached options entry he (t := .declaration (ρ.decl id))
  have hmap : ρ.decl id ∈ ((ofStore s options).reached entry entryId).decls.map ρ.decl
      ↔ id ∈ ((ofStore s options).reached entry entryId).decls :=
    List.mem_map_of_injective ρ.decl_injective
  exact decide_eq_decide.2 (hmem.trans hmap)

theorem mem_requests {q : FinalNames.Request} :
    q ∈ (ofStore s' options).requests entry (ρ.module entryId)
      ↔ q ∈ ((ofStore s options).requests entry entryId).map (FinalNames.Request.renumber ρ) := by
  have hr := h.contains_reached options entry he
  have hmodules : ∀ t, t ∈ (ofStore s' options).shaken entry (ρ.module entryId)
      ↔ t ∈ Shake.modules s' (((ofStore s options).sources entryId).map ρ.module)
          ((ofStore s' options).reached entry (ρ.module entryId)) := by
    intro t
    rw [Bundler.shaken, Shake.mem_modules, Shake.mem_modules]
    exact and_congr_left' (h.mem_sources options he)
  have hshaken : ∀ t, t ∈ (ofStore s' options).shaken entry (ρ.module entryId)
      ↔ t ∈ ((ofStore s options).shaken entry entryId).map (ModuleTree.renumber ρ) :=
    fun t => (hmodules t).trans (iff_of_eq (congrArg (t ∈ ·) (h.shaken hr _)))
  have htrees := h.ofTrees options hr he fun t => h.of_mem_shaken options entry he
  refine Iff.trans ?_ (iff_of_eq (congrArg (q ∈ ·) htrees))
  simp only [Bundler.requests, List.mem_flatMap, hshaken]
  rfl

theorem asksAlias {name : String} :
    (ofStore s' options).AsksAlias entry (ρ.module entryId) name
      ↔ (ofStore s options).AsksAlias entry entryId name := by
  have hrow : ((ofStore s' options).linker.scope? (ρ.module entryId)).bind (·.exports.get? name)
      = (((ofStore s options).linker.scope? entryId).bind (·.exports.get? name)).map
          (ExportRow.renumber ρ) := by
    refine (congrArg (·.bind (·.exports.get? name)) (h.scope? he)).trans ?_
    rw [show (s.linker options).scope? entryId = (ofStore s options).linker.scope? entryId from rfl]
    cases (ofStore s options).linker.scope? entryId with
    | none => rfl
    | some scope => exact Table.get?_map Function.injective_id _ scope.exports name
  have hown : ∀ (row : Option ExportRow) (x : String),
      row.map (ExportRow.renumber ρ) = some (.own x) ↔ row = some (.own x) := by
    intro row x
    cases row with
    | none => simp
    | some row => cases row <;> simp [ExportRow.renumber]
  simp only [AsksAlias, hrow, hown, h.mem_requests options entry he, List.mem_map]
  refine exists_congr fun x => and_congr_right fun _ => ?_
  constructor
  · rintro ⟨terminal', q, hq, hqe⟩
    cases q <;> simp only [FinalNames.Request.renumber, reduceCtorEq,
      FinalNames.Request.importAlias.injEq] at hqe
    obtain ⟨hm, rfl, -⟩ := hqe
    exact ⟨_, ρ.module_injective hm ▸ hq⟩
  · rintro ⟨terminal, hq⟩
    exact ⟨ρ.decl terminal, _, hq, rfl⟩

theorem exported : ((ofStore s' options).mergeInput entry
      (ρ.module entryId)).clause.entries.map (·.exported)
    = ((ofStore s options).mergeInput entry entryId).clause.entries.map (·.exported) := by
  have hasked : ((ofStore s' options).mergeInput entry (ρ.module entryId)).surface
      = ((ofStore s options).mergeInput entry entryId).surface.map
          (Prod.map id (Resolution.renumber ρ)) := h.asked options entry he
  rw [MergeInput.exported_clause, MergeInput.exported_clause, hasked, List.filter_map, List.map_map]
  congr 1
  refine List.filter_congr fun row hrow => ?_
  have hrow' : Prod.map id (Resolution.renumber ρ) row
      ∈ (ofStore s' options).asked entry (ρ.module entryId) := by
    rw [h.asked options entry he]
    exact List.mem_map.2 ⟨row, hrow, rfl⟩
  rw [Function.comp_apply, Bool.eq_iff_iff, isSome_clauseBinding h.built options entry entryId hrow,
    isSome_clauseBinding h.built' options entry _ hrow', h.asksAlias options entry he]
  exact or_congr_left (not_congr (Resolution.renumber_eq_unresolved ρ))

theorem assignment : ((ofStore s' options).mergeInput entry (ρ.module entryId)).assignment.isSome
    = ((ofStore s options).mergeInput entry entryId).assignment.isSome := by
  rw [Bool.eq_iff_iff, isSome_assignment h.built', isSome_assignment h.built, h.scope? he]
  simp only [h.resolveLocal options he, Option.map_eq_some_iff]
  constructor
  · rintro ⟨-, expression, ⟨scope, hs, rfl⟩, hexp, hr⟩
    exact ⟨scope, expression, hs, hexp, fun hu => hr ((Resolution.renumber_eq_unresolved ρ).2 hu)⟩
  · rintro ⟨scope, expression, hs, hexp, hr⟩
    exact ⟨_, expression, ⟨scope, hs, rfl⟩, hexp,
      fun hu => hr ((Resolution.renumber_eq_unresolved ρ).1 hu)⟩

theorem counts_sources : Shake.counts s' ((ofStore s' options).sources (ρ.module entryId))
      ((ofStore s' options).reached entry (ρ.module entryId))
    = Shake.counts s ((ofStore s options).sources entryId)
        ((ofStore s options).reached entry entryId) := by
  rw [← h.counts (h.contains_reached options entry he)]
  have hids := ((h.perm_sources options he).filterMap fun m => (s'.get? m).map (m, ·)).flatMap_right
    fun p => Shake.boundIds p.2.statements
  simp only [Shake.counts, Shake.units]
  exact congrArg₂ ShakeCounts.mk (hids.countP_eq _) (hids.countP_eq _)

theorem perm_imports : ((ofStore s' options).reached entry (ρ.module entryId)).imports.Perm
      ((ofStore s options).reached entry entryId).imports
    ∧ ((ofStore s' options).reached entry (ρ.module entryId)).importTypes.Perm
      ((ofStore s options).reached entry entryId).importTypes := by
  have hnodup : ∀ (b : Bundler) (e : ModuleId), (b.reached entry e).imports.Nodup
      ∧ (b.reached entry e).importTypes.Nodup :=
    fun b e => b.references.nodup_imports_closure b.linker _
  have hmem := fun t => h.mem_reached options entry he (t := t)
  constructor
  · exact (List.perm_ext_iff_of_nodup (hnodup _ _).1 (hnodup _ _).1).2 fun ref => hmem (.import_ ref)
  · exact (List.perm_ext_iff_of_nodup (hnodup _ _).2 (hnodup _ _).2).2
      fun ref => hmem (.importType ref)

theorem libraryUses : ((ofStore s' options).bundleModule entry (ρ.module entryId)).stats.libraryUses
    = ((ofStore s options).bundleModule entry entryId).stats.libraryUses := by
  obtain ⟨himports, htypes⟩ := h.perm_imports options entry he
  exact congrArg List.eraseDups (LibraryUse.mergeSort_congr ((himports.append htypes).map _))

theorem mem_diagnostics {d : Diagnostic} :
    d ∈ ((ofStore s' options).bundleModule entry (ρ.module entryId)).diagnostics
      ↔ d ∈ ((ofStore s options).bundleModule entry entryId).diagnostics := by
  have hsurface := congrArg Prod.snd (h.surface options he)
  have hrequired := congrArg Prod.snd (h.required options entry he)
  have hreach := h.reach_sources options entry he
  have hsources := fun m => @mem_sources _ _ _ _ h options _ he m
  rw [Bundler.mem_diagnostics, Bundler.mem_diagnostics, mem_reports_reach_congr _ _ _ hsources,
    reached, mem_diagnostics_reach_congr _ _ _ hsources, hreach]
  exact or_congr (iff_of_eq (congrArg (d ∈ ·) hsurface))
    (or_congr (iff_of_eq (congrArg (d ∈ ·) hrequired)) Iff.rfl)

/-- The bundles of an entry that is the same under other numbers differ in names only. -/
theorem sameButNames : ((ofStore s options).bundleModule entry entryId).SameButNames
    ((ofStore s' options).bundleModule entry (ρ.module entryId)) where
  exported := by
    rw [exports_bundleModule, exports_bundleModule]
    exact (h.exported options entry he).symm
  externalStars := by
    rw [exports_bundleModule, exports_bundleModule]
    have hstars := congrArg (·.1.externalStars) (h.surface options he)
    exact hstars.symm
  assignment := by
    rw [exports_bundleModule, exports_bundleModule]
    exact (h.assignment options entry he).symm
  kept := congrArg ShakeCounts.kept (h.counts_sources options entry he).symm
  removed := congrArg ShakeCounts.removed (h.counts_sources options entry he).symm
  libraryUses := (h.libraryUses options entry he).symm
  diagnostics _ := (h.mem_diagnostics options entry he).symm

end Store.Embeds

/-! ## Permutations -/

namespace Bundler

open Store

/-- Two units that change places change nothing but names. -/
theorem sameButNames_exchange {a b : List DeclUnit} {u v : DeclUnit}
    (h : Distinct (a ++ u :: v :: b)) (options : Options) (entry : Entry) {bundle : Bundle}
    (hb : (ofStore (storeOf (a ++ u :: v :: b)) options).bundle entry = .ok bundle) :
    ∃ bundle', (ofStore (storeOf (a ++ v :: u :: b)) options).bundle entry = .ok bundle'
      ∧ bundle.SameButNames bundle' := by
  have hemb := embeds_exchange h
  obtain ⟨entryId, hid, rfl⟩ := bundle_ok _ entry hb
  exact ⟨_, bundle_of_lookup _ entry (hemb.lookup_unit hid),
    hemb.sameButNames options entry trivial⟩

/-- Behind the units `a`, any order of the others changes nothing but names. -/
theorem sameButNames_perm (options : Options) (entry : Entry) {us us' : List DeclUnit}
    (hp : us.Perm us') : ∀ {a : List DeclUnit} {bundle : Bundle}, Distinct (a ++ us) →
      (ofStore (storeOf (a ++ us)) options).bundle entry = .ok bundle →
        ∃ bundle', (ofStore (storeOf (a ++ us')) options).bundle entry = .ok bundle'
          ∧ bundle.SameButNames bundle' := by
  induction hp with
  | nil => exact fun _ hb => ⟨_, hb, .refl _⟩
  | cons u _ ih =>
    intro a bundle h hb
    have hcons : ∀ ws : List DeclUnit, a ++ u :: ws = a ++ [u] ++ ws := fun ws => by simp
    rw [hcons] at h hb ⊢
    exact ih h hb
  | swap u v us => exact fun h hb => sameButNames_exchange h options entry hb
  | trans hp _ ih ih' =>
    intro a bundle h hb
    obtain ⟨bundle₁, hb₁, hs₁⟩ := ih h hb
    obtain ⟨bundle₂, hb₂, hs₂⟩ := ih' (h.perm (hp.append_left a)) hb₁
    exact ⟨bundle₂, hb₂, hs₁.trans hs₂⟩

/-- Units with different paths that are not empty make a store in any order, and any two orders of
them give bundles of an entry among them that differ in names only: these have the same exported
names in the same order, the same external stars, both an export assignment or none, as many
declarations kept and removed, the same uses of libraries, and the same reports. -/
theorem order_names_only {us us' : List DeclUnit} (h : Distinct us) (hp : us.Perm us')
    (options : Options) (entry : Entry) (he : entry.module ∈ us.map (·.path)) :
    ∃ store store' bundle bundle', Store.ofUnits us = .ok store ∧ Store.ofUnits us' = .ok store'
      ∧ (ofStore store options).bundle entry = .ok bundle
      ∧ (ofStore store' options).bundle entry = .ok bundle'
      ∧ bundle.SameButNames bundle' := by
  obtain ⟨entryId, hid⟩ := exists_lookup he
  have hb : (ofStore (storeOf us) options).bundle entry = _ := bundle_of_lookup _ entry hid
  obtain ⟨bundle', hb', hs⟩ := sameButNames_perm options entry hp (a := []) h hb
  exact ⟨_, _, _, bundle', h.ofUnits, (h.perm hp).ofUnits, hb, hb', hs⟩

/-- Two modules that declare one name, and a third that exports both. -/
def oneNameTwice : List DeclUnit :=
  [⟨"index.ts", [.exports ⟨[⟨"T", "A"⟩], some "a.ts", false⟩,
      .exports ⟨[⟨"T", "B"⟩], some "b.ts", false⟩]⟩,
    ⟨"a.ts", [.declaration ⟨none, { exported := true }, none, .interface "T" [] [] []⟩]⟩,
    ⟨"b.ts", [.declaration ⟨none, { exported := true }, none, .interface "T" [] [] []⟩]⟩]

/-- The store of `oneNameTwice`. -/
def oneNameTwiceStore : Store := ((Store.ofUnits oneNameTwice).toOption).getD {}

/-- The same modules with the last two exchanged. -/
def exchangedUnits : List DeclUnit := (oneNameTwice.take 1) ++ (oneNameTwice.drop 1).reverse

/-- The store of `exchangedUnits`. -/
def exchangedStore : Store := ((Store.ofUnits exchangedUnits).toOption).getD {}

theorem sources_oneNameTwice : (ofStore oneNameTwiceStore {}).sources 0 = [0, 1, 2] :=
  List.mergeSort_of_pairwise (l := [0, 1, 2]) (by decide)

theorem sources_exchanged : (ofStore exchangedStore {}).sources 0 = [0, 1, 2] := by
  show [0, 2, 1].mergeSort (· ≤ ·) = [0, 1, 2]
  simp [List.mergeSort]

/-- Whichever module comes first keeps the name. -/
theorem order_names_only_oneNameTwice : ∃ bundle bundle',
    Store.ofUnits oneNameTwice = .ok oneNameTwiceStore
    ∧ Store.ofUnits exchangedUnits = .ok exchangedStore
    ∧ (ofStore oneNameTwiceStore {}).bundle ⟨"index.ts", "index.d.ts", none⟩ = .ok bundle
    ∧ (ofStore exchangedStore {}).bundle ⟨"index.ts", "index.d.ts", none⟩ = .ok bundle'
    ∧ bundle.SameButNames bundle'
    ∧ bundle.file.exports.entries = [⟨"T", "A"⟩, ⟨"T_$0", "B"⟩]
    ∧ bundle'.file.exports.entries = [⟨"T_$0", "A"⟩, ⟨"T", "B"⟩] := by
  have hu : Store.ofUnits oneNameTwice = .ok oneNameTwiceStore := rfl
  have hu' : Store.ofUnits exchangedUnits = .ok exchangedStore := rfl
  obtain ⟨store, store', bundle, bundle', hs, hs', hb, hb', hsame⟩ :=
    order_names_only (show Distinct oneNameTwice from ⟨by decide, by decide⟩)
      (show oneNameTwice.Perm exchangedUnits from .cons _ (.swap _ _ _)) {}
      ⟨"index.ts", "index.d.ts", none⟩ (by decide)
  cases Except.ok.inj (hs.symm.trans hu)
  cases Except.ok.inj (hs'.symm.trans hu')
  refine ⟨bundle, bundle', hu, hu', hb, hb', hsame, ?_, ?_⟩
  · cases hb
    rw [exports_bundleModule]
    simp only [mergeInput, written, renamed, names, context, reserved, shaken, reached,
      sources_oneNameTwice]
    decide +kernel
  · cases hb'
    rw [exports_bundleModule]
    simp only [mergeInput, written, renamed, names, context, reserved, shaken, reached,
      sources_exchanged]
    decide +kernel

end Bundler

end DeclBundle
