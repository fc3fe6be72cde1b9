import DeclBundle.Proofs.Bundle.Identities
import DeclBundle.Proofs.Bundle.Survival
import DeclBundle.Proofs.Names.Independent

/-!
# The identities in a bundle are distinct

Shaking takes binding positions away and moves none, and each module of a bundle is shaken once. So
the positions that are left have identities of their own, as those of the store do
(`Bundler.distinct_shaken`), and a walk over the statements of a bundle in any order notes the
nested names of the bundle (`Bundler.nested_any_order`).
-/

namespace DeclBundle

namespace Shake

variable {r : Reach}

theorem slots_statement? {s s' : Statement} (h : statement? r s = some s') :
    s'.slots.Sublist s.slots := by
  cases s with
  | declaration d =>
    obtain ⟨id, modifiers, pos, k⟩ := d
    cases k with
    | variableList flavor ds =>
      have hds : (Declarator.listSlots (ds.filter fun v => keeps r v.id)).Sublist
          (Declarator.listSlots ds) := List.filter_sublist.flatMap _
      simp only [statement?] at h
      split at h
      · cases h
      · cases h
        exact hds.cons_cons _
    | _ =>
      simp only [statement?] at h
      split at h <;> cases h
      exact .refl _
  | _ =>
    cases h
    exact .refl _

theorem listSlots_statements (ss : List Statement) :
    (Statement.listSlots (ss.filterMap (statement? r))).Sublist (Statement.listSlots ss) := by
  induction ss with
  | nil => exact .slnil
  | cons s ss ih =>
    rw [List.filterMap_cons]
    cases hs : statement? r s with
    | none => exact ih.trans (List.sublist_append_right _ _)
    | some s' => exact (slots_statement? hs).append ih

end Shake

namespace Store

/-- The binding positions of two modules of a store have no identity in common. -/
theorem Built.disjoint_slots {s : Store} (h : s.Built) {m m' : ModuleId} (hm : m ≠ m')
    {u u' : DeclUnit} (hu : s.get? m = some u) (hu' : s.get? m' = some u') :
    (Statement.listSlots u.statements).Disjoint (Statement.listSlots u'.statements) := by
  have hn : (s.units.flatMap fun u => Statement.listSlots u.statements).Nodup :=
    h.slots_units ▸ nodup_consecutive 0 s.nextId
  have hp := List.pairwise_iff_getElem.1 (List.nodup_flatMap.1 hn).2
  obtain ⟨hlt, rfl⟩ := List.getElem?_eq_some_iff.1 hu
  obtain ⟨hlt', rfl⟩ := List.getElem?_eq_some_iff.1 hu'
  rcases Nat.lt_or_gt_of_ne hm with hm | hm
  · exact hp m m' hlt hlt' hm
  · exact fun i hi hi' => hp m' m hlt' hlt hm hi' hi

theorem Built.nodup_slots {s : Store} (h : s.Built) {m : ModuleId} {u : DeclUnit}
    (hu : s.get? m = some u) : (Statement.listSlots u.statements).Nodup := by
  have hn : (s.units.flatMap fun u => Statement.listSlots u.statements).Nodup :=
    h.slots_units ▸ nodup_consecutive 0 s.nextId
  exact (List.nodup_flatMap.1 hn).1 u (List.mem_of_getElem? hu)

end Store

namespace Bundler

/-- No two binding positions that are left in a bundle have the same identity. -/
theorem distinct_shaken {store : Store} (hb : store.Built) (options : Options) (entry : Entry)
    (entryId : ModuleId) :
    Naming.Distinct ((ofStore store options).shaken entry entryId) := by
  have hsources : ((ofStore store options).sources entryId).Nodup :=
    DependencyGraph.nodup_sourceModules _ _ _
  have hunits : ((Shake.units store ((ofStore store options).sources entryId)).flatMap fun p =>
      Statement.listSlots p.2.statements).Nodup := by
    rw [List.nodup_flatMap]
    constructor
    · rintro ⟨m, u⟩ hp
      obtain ⟨m', -, hm⟩ := List.mem_filterMap.1 hp
      obtain ⟨u', hu, he⟩ := Option.map_eq_some_iff.1 hm
      cases he
      exact hb.nodup_slots hu
    · rw [Shake.units, List.pairwise_filterMap]
      refine List.Pairwise.imp (fun hne p hp p' hp' => ?_) hsources
      obtain ⟨u, hu, rfl⟩ := Option.map_eq_some_iff.1 hp
      obtain ⟨u', hu', rfl⟩ := Option.map_eq_some_iff.1 hp'
      exact hb.disjoint_slots hne hu hu'
  have hleft : (((ofStore store options).shaken entry entryId).flatMap fun t =>
      Statement.listSlots t.statements).Nodup := by
    rw [shaken, Shake.modules, List.flatMap_map]
    exact hunits.sublist (List.Sublist.flatMap_right _ fun p _ => Shake.listSlots_statements _)
  simp only [Naming.Distinct, Part.identities_statements]
  exact hleft.filterMap fun a a' b ha ha' => (Option.mem_def.1 ha).trans (Option.mem_def.1 ha').symm

/-- In whatever order a walk goes through the statements of a bundle, it notes the same names. -/
theorem nested_any_order {store : Store} (hb : store.Built) (options : Options) (entry : Entry)
    (entryId : ModuleId) {order : List (ModuleId × Statement)}
    (hp : order.Perm (Naming.tasks ((ofStore store options).shaken entry entryId))) (id : DeclId) :
    let b := ofStore store options
    let walked := Walk.topStatements b.linker order ⟨⟨b.names entry entryId, []⟩, {}⟩
    walked.2.nested.get? id = (b.bundleModule entry entryId).naming.nested.get? id := by
  intro b walked
  obtain ⟨noted, hnoted, hrun⟩ := Naming.topStatements_perm (b.context entry entryId)
    (b.reserved entry entryId) b.store.nextId hp
  have hwalked : walked = _ := hrun
  rw [hwalked]
  exact (distinct_shaken hb options entry entryId).get?_noteAll (b.context entry entryId)
    (b.reserved entry entryId) b.store.nextId hnoted id

end Bundler

end DeclBundle
