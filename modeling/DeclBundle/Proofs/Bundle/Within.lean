import DeclBundle.Proofs.Bundle.Stages
import DeclBundle.Proofs.Reach.Within

/-!
# What a bundle reaches lies in its modules

A bundle starts from what its entry exports and assigns and from the text of its modules, all of
which lies in modules that the entry draws from. So what it reaches lies there as well
(`Store.Built.in_sources`), and shaking keeps the bindings that are reached
(`Bundler.survivor_of_reached`).
-/

namespace DeclBundle

namespace Bundler

/-- The exports that are asked for are some of those of the surface. -/
theorem mem_surface_of_asked {b : Bundler} {entry : Entry} {entryId : ModuleId}
    {row : String × Resolution} (hrow : row ∈ b.asked entry entryId) :
    row ∈ (b.linker.surface entryId).1.entries.rows := by
  unfold asked required at hrow
  split at hrow
  · exact hrow
  · exact (List.mem_filter.1 hrow).1

end Bundler

namespace Store.SelfContained

variable {s : Store} {S : ModuleId → Prop} (h : s.SelfContained S) (options : Options)
  (entry : Entry) {entryId : ModuleId} (he : S entryId)
include h he

theorem within_asked {row : String × Resolution}
    (hrow : row ∈ (Bundler.ofStore s options).asked entry entryId) :
    row.2.Within (s.linker options) S :=
  h.within_surface options he (List.mem_map.2 ⟨row, Bundler.mem_surface_of_asked hrow, rfl⟩)

theorem in_assignmentTargets {t : Target}
    (ht : t ∈ ((Bundler.ofStore s options).assignmentTargets entryId).1) : t.In s S := by
  unfold Bundler.assignmentTargets at ht
  split at ht
  · cases ht
  · exact h.in_targets options
      (Linker.within_resolveLocal (h.linker_closed options) he _) ht

theorem in_roots {ms : List ModuleId} (hm : ∀ m ∈ ms, S m) {t : Target}
    (ht : t ∈ ((Bundler.ofStore s options).roots entryId ms
      ((Bundler.ofStore s options).asked entry entryId)).1) : t.In s S := by
  rcases List.mem_append.1 ht with ht | ht
  · rcases List.mem_append.1 ht with ht | ht
    · obtain ⟨e, hrow, ht⟩ := List.mem_flatMap.1 ht
      exact h.in_targets options (h.within_asked options entry he hrow) ht
    · exact h.in_assignmentTargets options he ht
  · obtain ⟨m, hmem, ht⟩ := List.mem_flatMap.1 ht
    exact h.in_verbatimEdges options (hm m hmem) ht

/-- What a bundle reaches lies in any self-contained modules that its entry is one of. -/
theorem in_reached {t : Target} (ht : t ∈ (Bundler.ofStore s options).reached entry entryId) :
    t.In s S := by
  rw [Bundler.mem_reached] at ht
  exact h.in_closure options (fun t ht => h.in_roots options entry he
    (fun _ => h.of_mem_sourceModules he) ht) ht

end Store.SelfContained

/-- What a bundle reaches lies in the modules that it draws from. -/
theorem Store.Built.in_sources {s : Store} (h : s.Built) (options : Options) (entry : Entry)
    {entryId : ModuleId} {t : Target}
    (ht : t ∈ (Bundler.ofStore s options).reached entry entryId) :
    t.In s (· ∈ (Bundler.ofStore s options).sources entryId) :=
  (h.selfContained_sourceModules options entryId).in_reached options entry
    (Store.entry_mem_sourceModules entryId) ht

/-- A binding that is reached survives. -/
theorem Bundler.survivor_of_reached {store : Store} (hb : store.Built) (options : Options)
    (entry : Entry) (entryId : ModuleId) {c : TopBinding} (hc : c ∈ store.bindings)
    (hr : c.id ∈ ((ofStore store options).reached entry entryId).decls) :
    c ∈ (ofStore store options).survivors entry entryId := by
  obtain ⟨c', hc', he, hm⟩ := hb.in_sources options entry (t := .declaration c.id) hr
  cases hb.eq_of_id hc' hc he
  exact (mem_survivors options entry entryId).2 ⟨hc, hm, hr⟩

end DeclBundle
