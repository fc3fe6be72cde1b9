import DeclBundle.Proofs.Link.Resolve
import DeclBundle.Proofs.Reach.Levels
import DeclBundle.Reach.Closure

/-!
# The modules of a bundle

The modules that a bundle draws from are those that its entry leads to through imports, re-exports
and import types (`mem_sourceModules`). So a look-up in one of them stays among them
(`Store.closed_sourceModules`), and so does an import type (`Store.target_mem_sourceModules`).
-/

namespace DeclBundle

namespace DependencyGraph

variable (g : DependencyGraph) (l : Linker)

theorem mem_visitModules : ∀ {ms seen : List ModuleId} {m : ModuleId},
    m ∈ (g.visitModules l seen ms).1 ↔ m ∈ seen ∨ m ∈ ms
  | [], seen, m => by simp [visitModules]
  | m' :: ms, seen, m => by
    simp only [visitModules]
    split
    · rename_i h
      rw [mem_visitModules, List.mem_cons]
      constructor
      · rintro (hm | hm)
        · exact .inl hm
        · exact .inr (.inr hm)
      · rintro (hm | rfl | hm)
        · exact .inl hm
        · exact .inl h
        · exact .inr hm
    · rw [mem_visitModules, List.mem_append, List.mem_singleton, List.mem_cons, or_assoc]

theorem mem_next_visitModules : ∀ {ms seen : List ModuleId} {m' : ModuleId},
    m' ∈ (g.visitModules l seen ms).2 ↔ ∃ m ∈ ms, m ∉ seen ∧ m' ∈ g.neighbours l m
  | [], seen, m' => by simp [visitModules]
  | u :: ms, seen, m' => by
    simp only [visitModules, List.mem_cons]
    split
    · rename_i h
      rw [mem_next_visitModules]
      constructor
      · rintro ⟨m, hm, hn, hs⟩
        exact ⟨m, .inr hm, hn, hs⟩
      · rintro ⟨m, rfl | hm, hn, hs⟩
        · exact absurd h hn
        · exact ⟨m, hm, hn, hs⟩
    · rename_i h
      simp only [List.mem_append, mem_next_visitModules, List.mem_singleton, not_or]
      constructor
      · rintro (hs | ⟨m, hm, ⟨hn, -⟩, hs⟩)
        · exact ⟨u, .inl rfl, h, hs⟩
        · exact ⟨m, .inr hm, hn, hs⟩
      · rintro ⟨m, hm, hn, hs⟩
        by_cases hu : m = u
        · subst hu
          exact .inl hs
        · exact .inr ⟨m, hm.resolve_left hu, ⟨hn, hu⟩, hs⟩

theorem nodup_visitModules : ∀ {ms seen : List ModuleId}, seen.Nodup →
    (g.visitModules l seen ms).1.Nodup
  | [], _, h => h
  | m :: ms, seen, h => by
    simp only [visitModules]
    split
    · exact nodup_visitModules h
    · rename_i hm
      refine nodup_visitModules (List.nodup_append.2 ⟨h, List.nodup_singleton m, ?_⟩)
      rintro x hx y hy rfl
      exact hm (List.mem_singleton.1 hy ▸ hx)

theorem nodup_walkModules : ∀ (fuel : Nat) {seen level : List ModuleId}, seen.Nodup →
    (g.walkModules l fuel seen level).Nodup
  | 0, _, _, h => h
  | _ + 1, _, [], h => h
  | fuel + 1, seen, m :: ms, h => by
    simp only [walkModules]
    exact nodup_walkModules fuel (g.nodup_visitModules l h)

/-- A bundle draws from each of its modules once. -/
theorem nodup_sourceModules (entry : ModuleId) : (g.sourceModules l entry).Nodup :=
  (List.mergeSort_perm _ _).nodup_iff.2 (g.nodup_walkModules l _ List.nodup_nil)

variable (hg : g.importTypeModules.length ≤ l.size)

include hg in
theorem lt_size_of_neighbours {m m' : ModuleId} (h : m' ∈ g.neighbours l m) : m < l.size := by
  by_cases hm : m < l.size
  · exact hm
  · have hs : l.scope? m = none := List.getElem?_eq_none (Nat.le_of_not_lt hm)
    have hi : g.importTypeModules[m]? = none :=
      List.getElem?_eq_none (Nat.le_trans hg (Nat.le_of_not_lt hm))
    simp [neighbours, Linker.dependencies, hs, hi] at h

/-- The walk over modules goes by levels, and every visit takes a module off those not seen yet. -/
def moduleWalk : LevelWalk (List ModuleId) ModuleId where
  visit := g.visitModules l
  successors := g.neighbours l
  pending := unseen (List.range l.size)
  visit_nil _ := rfl
  mem_visit := g.mem_visitModules l
  mem_next := g.mem_next_visitModules l
  pending_lt := fun ht hn hs =>
    unseen_lt (fun _ hm => (g.mem_visitModules l).2 (.inl hm)) hn
      ((g.mem_visitModules l).2 (.inr ht)) (List.mem_range.2 (g.lt_size_of_neighbours l hg hs))

theorem walkModules_eq : ∀ (fuel : Nat) (seen level : List ModuleId),
    g.walkModules l fuel seen level = (g.moduleWalk l hg).run fuel seen level
  | 0, _, _ => rfl
  | _ + 1, _, [] => rfl
  | fuel + 1, seen, u :: us => by
    rw [LevelWalk.run_cons]
    exact walkModules_eq fuel _ _

include hg in
/-- The modules of a bundle are those that its entry leads to. -/
theorem mem_sourceModules {entry m : ModuleId} :
    m ∈ g.sourceModules l entry ↔ Reaches (g.neighbours l) [entry] m := by
  have hp : unseen (List.range l.size) [] < l.size + 1 :=
    Nat.lt_succ_of_le (Nat.le_trans (unseen_le_length _ _) (by simp))
  rw [sourceModules, List.mem_mergeSort, walkModules_eq g l hg]
  exact (g.moduleWalk l hg).mem_run (fun m => by simp) hp

end DependencyGraph

/-- The analyses of what a statement of a module declares or holds as text. -/
def Statement.analyses : Statement → List Analysis
  | .declaration d => d.analyses.map Prod.snd
  | .verbatim tokens _ => [.verbatim tokens]
  | _ => []

theorem Statement.analysis_mem_analyses {module : ModuleId} {path : String} {st : Statement}
    {b : TopBinding} (h : b ∈ st.topBindings module path) : b.analysis ∈ st.analyses := by
  cases st with
  | declaration d =>
    obtain ⟨id, modifiers, pos, kind⟩ := d
    cases kind with
    | variableList flavor ds =>
      obtain ⟨v, hv, hb⟩ := List.mem_filterMap.1 h
      obtain ⟨i, -, rfl⟩ := Option.map_eq_some_iff.1 hb
      exact List.mem_map.2 ⟨_, List.mem_map.2 ⟨v, hv, rfl⟩, rfl⟩
    | _ =>
      obtain ⟨i, -, rfl⟩ := Option.map_eq_some_iff.1 (Option.mem_toList.1 h)
      exact List.mem_singleton.2 rfl
  | _ => simp [Statement.topBindings] at h

namespace Store

variable (s : Store) (options : Options)

/-- The graph of a store under some options. -/
abbrev graph : DependencyGraph := DependencyGraph.build s (s.linker options)

theorem size_linker : (s.linker options).size = s.size := by
  simp [linker, Linker.build, Linker.size, size]

theorem length_importTypeModules :
    (s.graph options).importTypeModules.length ≤ (s.linker options).size := by
  rw [size_linker]
  simp [graph, DependencyGraph.build, size]

variable {s options}

theorem entry_mem_sourceModules (entry : ModuleId) :
    entry ∈ (s.graph options).sourceModules (s.linker options) entry :=
  ((s.graph options).mem_sourceModules _ (s.length_importTypeModules options)).2 (.root (by simp))

theorem neighbour_mem_sourceModules {entry m m' : ModuleId}
    (hm : m ∈ (s.graph options).sourceModules (s.linker options) entry)
    (h : m' ∈ (s.graph options).neighbours (s.linker options) m) :
    m' ∈ (s.graph options).sourceModules (s.linker options) entry := by
  have hg := s.length_importTypeModules options
  rw [DependencyGraph.mem_sourceModules _ _ hg] at hm ⊢
  exact .step hm h

theorem closed_sourceModules (entry : ModuleId) :
    (s.linker options).Closed (· ∈ (s.graph options).sourceModules (s.linker options) entry) where
  linked := linked_scope
  dependency hm hd := neighbour_mem_sourceModules hm (List.mem_append_left _ hd)

/-- The modules that import types name are among those of a bundle. -/
theorem target_mem_sourceModules {entry m target : ModuleId} {u : DeclUnit} {st : Statement}
    {a : Analysis} {specifier : String} {qualifier : Option String}
    (hm : m ∈ (s.graph options).sourceModules (s.linker options) entry)
    (hu : s.get? m = some u) (hst : st ∈ u.statements) (ha : a ∈ st.analyses)
    (hr : .importType specifier qualifier ∈ a.references)
    (hl : (s.linker options).lookup specifier = some target) :
    target ∈ (s.graph options).sourceModules (s.linker options) entry := by
  refine neighbour_mem_sourceModules hm (List.mem_append_right _ ?_)
  have ht : target ∈ (s.linker options).importTypeModules a.references :=
    List.mem_filterMap.2 ⟨_, hr, hl⟩
  have hi : (s.graph options).importTypeModules.getD m []
      = DependencyGraph.unitImportTypeModules (s.linker options) u := by
    simp only [Store.get?] at hu
    simp [graph, DependencyGraph.build, hu]
  rw [hi, DependencyGraph.unitImportTypeModules, List.mem_eraseDups, List.mem_flatMap]
  refine ⟨st, hst, ?_⟩
  cases st with
  | declaration d =>
    obtain ⟨⟨id, a⟩, hd, rfl⟩ := List.mem_map.1 ha
    exact List.mem_flatMap.2 ⟨(id, a), hd, ht⟩
  | verbatim tokens pos =>
    rw [List.mem_singleton.1 ha] at ht
    exact ht
  | _ => simp [Statement.analyses] at ha

end Store

end DeclBundle
