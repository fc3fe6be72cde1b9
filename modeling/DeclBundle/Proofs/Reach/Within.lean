import DeclBundle.Proofs.Link.Surface
import DeclBundle.Proofs.Reach.Closure
import DeclBundle.Proofs.Reach.Edges
import DeclBundle.Proofs.Reach.Named

/-!
# What is reached lies in the modules of a bundle

Modules that name no module outside of them are self-contained (`Store.SelfContained`): a bundle
draws from such modules. A target in them leads to targets in them, so all that is reached from
there lies in them (`Store.SelfContained.in_closure`).
-/

namespace DeclBundle

/-- A target that the store has in the modules of `S`. -/
def Target.In (s : Store) (S : ModuleId → Prop) : Target → Prop
  | .declaration id => ∃ b ∈ s.bindings, b.id = id ∧ S b.module
  | .namespaceOf m => S m
  | .import_ _ | .importType _ => True

/-- The edges of a statement that is kept as text. -/
def Statement.textEdges (l : Linker) (m : ModuleId) (path : String) : Statement → Edges
  | .verbatim tokens _ => Edges.ofAnalysis l m path (.verbatim tokens)
  | _ => {}

theorem DependencyGraph.unitVerbatim_eq (l : Linker) (m : ModuleId) (u : DeclUnit) :
    unitVerbatim l m u
      = (u.statements.map (Statement.textEdges l m u.path)).foldl Edges.append {} := rfl

/-- The import types of a unit are among what it names. -/
theorem DeclUnit.mem_specifiers {u : DeclUnit} {st : Statement} {a : Analysis} {x : String}
    {q : Option String} (hst : st ∈ u.statements) (ha : a ∈ st.analyses)
    (hr : .importType x q ∈ a.references) : x ∈ u.specifiers :=
  List.mem_flatMap.2 ⟨st, hst,
    List.mem_append_right _ (Statement.mem_importTypes.2 ⟨a, ha, q, hr⟩)⟩

theorem Store.verbatimEdges_graph (s : Store) (options : Options) (m : ModuleId) :
    (s.graph options).verbatimEdges m
      = ((s.get? m).map (DependencyGraph.unitVerbatim (s.linker options) m)).getD {} := by
  simp [DependencyGraph.verbatimEdges, graph, DependencyGraph.build, Store.get?,
    List.getD_eq_getElem?_getD, Function.comp_def]

/-- Modules of a store that name no module outside of them. -/
structure Store.SelfContained (s : Store) (S : ModuleId → Prop) : Prop where
  built : s.Built
  closed : ∀ {m u x t}, S m → s.get? m = some u → x ∈ u.specifiers → s.lookup x = some t → S t

/-- The modules of a bundle are self-contained. -/
theorem Store.Built.selfContained_sourceModules {s : Store} (h : s.Built) (options : Options)
    (entry : ModuleId) :
    s.SelfContained (· ∈ (s.graph options).sourceModules (s.linker options) entry) where
  built := h
  closed hm hu hx hl := neighbour_mem_sourceModules hm (mem_neighbours.2 ⟨_, hu, _, hx, hl⟩)

namespace Store.SelfContained

variable {s : Store} {S : ModuleId → Prop} (h : s.SelfContained S) {options : Options}
  {m : ModuleId}
include h

theorem closed_neighbours (hm : S m) {d : ModuleId}
    (hd : d ∈ (s.graph options).neighbours (s.linker options) m) : S d := by
  obtain ⟨u, hu, x, hx, hl⟩ := Store.mem_neighbours.1 hd
  exact h.closed hm hu hx hl

theorem linker_closed (options : Options) : (s.linker options).Closed S where
  linked := Store.linked_scope
  dependency hm hd := h.closed_neighbours hm (List.mem_append_left _ hd)

/-- What a self-contained module draws from is among the same modules. -/
theorem of_mem_sourceModules {entry : ModuleId} (he : S entry)
    (hm : m ∈ (s.graph options).sourceModules (s.linker options) entry) : S m := by
  have hr := (DependencyGraph.mem_sourceModules _ _ (s.length_importTypeModules options)).1 hm
  induction hr with
  | root hr =>
    rw [List.mem_singleton.1 hr]
    exact he
  | step hr hs ih =>
    have hprev := (DependencyGraph.mem_sourceModules _ _ (s.length_importTypeModules options)).2 hr
    exact h.closed_neighbours (ih hprev) hs

variable (options)

theorem in_targets {r : Resolution} (hr : r.Within (s.linker options) S) {t : Target}
    (ht : t ∈ (s.linker options).targets r) : t.In s S := by
  cases r with
  | declaration id =>
    obtain ⟨b, hb, rfl, hm⟩ := Store.binding_of_within hr
    simp only [Linker.targets] at ht
    split at ht
    · rw [List.mem_singleton.1 ht]
      exact ⟨b, hb, rfl, hm⟩
    · obtain ⟨id, hid, rfl⟩ := List.mem_map.1 ht
      obtain ⟨c, hc, rfl, hcm, -⟩ := (h.built.mem_symbolDecls options hb).1 hid
      exact ⟨c, hc, rfl, hcm ▸ hm⟩
  | namespaceOf m =>
    rw [List.mem_singleton.1 ht]
    exact hr
  | external ref =>
    rw [List.mem_singleton.1 ht]
    trivial
  | unresolved => cases ht

/-! ## Edges -/

section
variable {u : DeclUnit} (hm : S m) (hu : s.get? m = some u)
include hm hu

theorem in_ofReference {r : Reference} (hr : ∀ x q, r = .importType x q → x ∈ u.specifiers)
    {t : Target} (ht : t ∈ (Edges.ofReference (s.linker options) m u.path r).targets) :
    t.In s S := by
  cases r with
  | name name =>
    exact h.in_targets options (Linker.within_resolveLocal (h.linker_closed options) hm name) ht
  | importType x q =>
    simp only [Edges.ofReference, Edges.ofImportType, Store.lookup_linker] at ht
    cases hl : s.lookup x with
    | none =>
      simp only [hl, List.mem_singleton] at ht
      rw [ht]
      trivial
    | some target =>
      have hS := h.closed hm hu (hr x q rfl) hl
      simp only [hl] at ht
      cases q with
      | none => exact h.in_targets options (r := .namespaceOf target) hS ht
      | some name =>
        exact h.in_targets options
          (Linker.within_resolveExport (h.linker_closed options) hS name) ht

theorem in_ofAnalysis {st : Statement} {a : Analysis} (hst : st ∈ u.statements)
    (ha : a ∈ st.analyses) {t : Target}
    (ht : t ∈ (Edges.ofAnalysis (s.linker options) m u.path a).targets) : t.In s S := by
  rw [Edges.ofAnalysis, Edges.targets_foldl, List.nil_append, List.flatMap_map] at ht
  obtain ⟨r, hr, ht⟩ := List.mem_flatMap.1 ht
  exact h.in_ofReference options hm hu (fun x q he => DeclUnit.mem_specifiers hst ha (he ▸ hr)) ht

end

theorem in_edgesOf {b : TopBinding} (hb : b ∈ s.bindings) (hm : S b.module) {t : Target}
    (ht : t ∈ ((s.graph options).edgesOf b.id).targets) : t.In s S := by
  obtain ⟨u, hu, hbu⟩ := Store.mem_bindings.1 hb
  obtain ⟨st, hst, hbu⟩ := List.mem_flatMap.1 hbu
  have hpath := (Statement.module_of_mem_topBindings hbu).2
  have he := h.built.edgesOf_of_mem (s.linker options) hb
  rw [DependencyGraph.edgesOf, he, Option.getD_some, TopBinding.edges, hpath] at ht
  exact h.in_ofAnalysis options hm hu hst (Statement.analysis_mem_analyses hbu) ht

theorem in_verbatimEdges (hm : S m) {t : Target}
    (ht : t ∈ ((s.graph options).verbatimEdges m).targets) : t.In s S := by
  rw [verbatimEdges_graph] at ht
  cases hu : s.get? m with
  | none => simp [hu] at ht
  | some u =>
    simp only [hu, Option.map_some, Option.getD_some, DependencyGraph.unitVerbatim_eq,
      Edges.targets_foldl, List.nil_append, List.flatMap_map] at ht
    obtain ⟨st, hst, ht⟩ := List.mem_flatMap.1 ht
    cases st with
    | verbatim tokens pos =>
      exact h.in_ofAnalysis options hm hu hst (List.mem_singleton.2 rfl) ht
    | _ => cases ht

/-! ## The walk -/

theorem within_surface (hm : S m) {r : Resolution}
    (hr : r ∈ ((s.linker options).surface m).1.entries.values) : r.Within (s.linker options) S := by
  obtain ⟨⟨name, r⟩, hrow, rfl⟩ := List.mem_map.1 hr
  exact Linker.within_surfaceWithin (h.linker_closed options) hm hrow

theorem in_successors {t t' : Target} (ht : t.In s S)
    (ht' : t' ∈ (s.graph options).successors (s.linker options) t) : t'.In s S := by
  cases t with
  | declaration id =>
    obtain ⟨b, hb, rfl, hm⟩ := ht
    exact h.in_edgesOf options hb hm ht'
  | namespaceOf m =>
    obtain ⟨r, hr, hs⟩ := List.mem_flatMap.1 ht'
    exact h.in_targets options (h.within_surface options ht hr) hs
  | import_ ref => cases ht'
  | importType ref => cases ht'

/-- What is reached from targets in self-contained modules lies in these modules. -/
theorem in_closure {roots : List Target} (hr : ∀ t ∈ roots, t.In s S) {t : Target}
    (ht : t ∈ (s.graph options).closure (s.linker options) roots) : t.In s S := by
  rw [DependencyGraph.mem_closure] at ht
  induction ht with
  | root ht => exact hr _ ht
  | step _ hs ih => exact h.in_successors options ih hs

end Store.SelfContained

end DeclBundle
