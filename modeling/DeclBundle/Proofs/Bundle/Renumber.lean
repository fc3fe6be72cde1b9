import DeclBundle.Proofs.Bundle.Clause
import DeclBundle.Proofs.Bundle.Within
import DeclBundle.Proofs.Renumber.Names

/-!
# Stages of a bundle under other numbers

The exports of an entry that are asked for and all that the bundle starts from are the same under
other numbers, so the same is reached and the same is reported on the way (`Store.Embeds.reach`).
-/

namespace DeclBundle

namespace Store.Embeds

variable {ρ : Renumbering} {s s' : Store} {S : ModuleId → Prop} (h : s.Embeds ρ s' S)
  (options : Options) (entry : Entry) {entryId : ModuleId} (he : S entryId)
include h he

theorem required : Bundler.required entry.module
      ((s'.linker options).surface (ρ.module entryId)).1 entry.exports
    = Prod.map (List.map (Prod.map id (Resolution.renumber ρ))) id
        (Bundler.required entry.module ((s.linker options).surface entryId).1 entry.exports) := by
  rw [h.surface options he]
  cases entry.exports with
  | none => rfl
  | some names =>
    have hcontains : ∀ name, (((s.linker options).surface entryId).1.entries.map id
        (Resolution.renumber ρ)).contains name
          = ((s.linker options).surface entryId).1.entries.contains name :=
      Table.contains_map Function.injective_id _ _
    simp only [Bundler.required, Prod.map_fst, Surface.renumber, hcontains, Prod.map_apply, id_eq]
    congr 1
    exact List.filter_map

theorem asked : (Bundler.ofStore s' options).asked entry (ρ.module entryId)
    = ((Bundler.ofStore s options).asked entry entryId).map
        (Prod.map id (Resolution.renumber ρ)) :=
  congrArg Prod.fst (h.required options entry he)

theorem assignmentTargets : (Bundler.ofStore s' options).assignmentTargets (ρ.module entryId)
    = Prod.map (List.map (Target.renumber ρ)) id
        ((Bundler.ofStore s options).assignmentTargets entryId) := by
  have hscope : (Bundler.ofStore s' options).linker.scope? (ρ.module entryId)
      = ((Bundler.ofStore s options).linker.scope? entryId).map (ModuleTables.renumber ρ) :=
    h.scope? he
  simp only [Bundler.assignmentTargets, hscope]
  cases (Bundler.ofStore s options).linker.scope? entryId with
  | none => rfl
  | some scope =>
    simp only [Option.map_some, Option.bind_some, ModuleTables.renumber]
    cases scope.exportAssignment with
    | none => rfl
    | some expression =>
      have hw := Linker.within_resolveLocal (h.linker_closed options) he expression
      have hl := h.resolveLocal options he expression
      have htargets : (s'.linker options).targets
            ((s'.linker options).resolveLocal (ρ.module entryId) expression).1
          = ((s.linker options).targets ((s.linker options).resolveLocal entryId expression).1).map
              (Target.renumber ρ) := by
        rw [hl]
        exact h.targets options hw
      have hreports := congrArg Prod.snd hl
      exact Prod.ext htargets hreports

/-- Where a bundle starts is the same, for modules and exports that are the same. -/
theorem roots {ms : List ModuleId} (hm : ∀ m ∈ ms, S m) :
    (Bundler.ofStore s' options).roots (ρ.module entryId) (ms.map ρ.module)
        ((Bundler.ofStore s' options).asked entry (ρ.module entryId))
      = Prod.map (List.map (Target.renumber ρ)) id ((Bundler.ofStore s options).roots entryId ms
          ((Bundler.ofStore s options).asked entry entryId)) := by
  have hsurface : (((Bundler.ofStore s options).asked entry entryId).map
        (Prod.map id (Resolution.renumber ρ))).flatMap (fun e => (s'.linker options).targets e.2)
      = (((Bundler.ofStore s options).asked entry entryId).flatMap
          fun e => (s.linker options).targets e.2).map (Target.renumber ρ) := by
    rw [List.flatMap_map, List.map_flatMap]
    exact List.flatMap_congr fun e hrow => h.targets options (h.within_asked options entry he hrow)
  have hverbatim : (ms.map ρ.module).flatMap (fun m => ((s'.graph options).verbatimEdges m).targets)
      = (ms.flatMap fun m => ((s.graph options).verbatimEdges m).targets).map
          (Target.renumber ρ) := by
    rw [List.flatMap_map, List.map_flatMap]
    exact List.flatMap_congr fun m hmem =>
      congrArg Edges.targets (h.verbatimEdges options (hm m hmem))
  have hassign := h.assignmentTargets options he
  simp only [Bundler.roots, hassign, h.asked options entry he, Prod.map_apply, id_eq,
    List.map_append]
  exact Prod.ext (congrArg₂ (· ++ ·) (congrArg (· ++ _) hsurface) hverbatim) rfl

/-- What a bundle reaches and reports on the way is the same, for modules that are the same. -/
theorem reach {ms : List ModuleId} (hm : ∀ m ∈ ms, S m) :
    (Bundler.ofStore s' options).reach (ρ.module entryId) (ms.map ρ.module)
        ((Bundler.ofStore s' options).asked entry (ρ.module entryId))
      = Prod.map (Reach.renumber ρ) id ((Bundler.ofStore s options).reach entryId ms
          ((Bundler.ofStore s options).asked entry entryId)) := by
  have hroots := h.roots options entry he hm
  have hclosure := h.closure options fun t => h.in_roots options entry he hm (t := t)
  have hverbatim : (ms.map ρ.module).map (Bundler.ofStore s' options).references.verbatimEdges
      = (ms.map (Bundler.ofStore s options).references.verbatimEdges).map (Edges.renumber ρ) := by
    rw [List.map_map, List.map_map]
    exact List.map_congr_left fun m hmem => h.verbatimEdges options (hm m hmem)
  have hreach : (Bundler.ofStore s' options).references.closure (Bundler.ofStore s' options).linker
        (((Bundler.ofStore s options).roots entryId ms
          ((Bundler.ofStore s options).asked entry entryId)).1.map (Target.renumber ρ))
      = _ := hclosure
  simp only [Bundler.reach, hroots, Prod.map_fst, Prod.map_snd, hreach, hverbatim,
    List.flatMap_map]
  rfl

theorem mem_sources {m' : ModuleId} : m' ∈ (Bundler.ofStore s' options).sources (ρ.module entryId)
    ↔ m' ∈ ((Bundler.ofStore s options).sources entryId).map ρ.module :=
  (h.mem_sourceModules he).trans List.mem_map.symm

theorem perm_sources : ((Bundler.ofStore s' options).sources (ρ.module entryId)).Perm
    (((Bundler.ofStore s options).sources entryId).map ρ.module) := by
  refine (List.perm_ext_iff_of_nodup ?_ ?_).2 fun m' => h.mem_sources options he
  · exact DependencyGraph.nodup_sourceModules _ _ _
  · exact (DependencyGraph.nodup_sourceModules _ _ _).map ρ.module_injective

/-- What is left of a module lies in a module that sees the same. -/
theorem of_mem_shaken {t : ModuleTree}
    (ht : t ∈ (Bundler.ofStore s options).shaken entry entryId) : S t.module :=
  h.of_mem_sourceModules he (Shake.mem_modules.1 ht).1

/-- The stage of what is reached, for the modules in the order of the first store. -/
theorem reach_sources : (Bundler.ofStore s' options).reach (ρ.module entryId)
      (((Bundler.ofStore s options).sources entryId).map ρ.module)
      ((Bundler.ofStore s' options).asked entry (ρ.module entryId))
    = Prod.map (Reach.renumber ρ) id ((Bundler.ofStore s options).reach entryId
        ((Bundler.ofStore s options).sources entryId)
        ((Bundler.ofStore s options).asked entry entryId)) :=
  h.reach options entry he fun _ => h.of_mem_sourceModules he

end Store.Embeds

end DeclBundle
