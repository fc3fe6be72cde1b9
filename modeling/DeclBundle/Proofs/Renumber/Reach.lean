import DeclBundle.Proofs.Renumber.Link

/-!
# What is reached under other numbers

Targets that lie in modules that see the same lead to the same targets under other numbers. So a
walk from them takes in the same, in the same order and with the same reports.
-/

namespace DeclBundle

/-- What is reached, with its declarations and modules renumbered. -/
def Reach.renumber (ρ : Renumbering) (r : Reach) : Reach :=
  { r with decls := r.decls.map ρ.decl, namespaces := r.namespaces.map ρ.module }

theorem Edges.append_renumber (ρ : Renumbering) (a b : Edges) :
    (a.renumber ρ).append (b.renumber ρ) = (a.append b).renumber ρ := by
  simp [renumber, append]

namespace Store.Embeds

variable {ρ : Renumbering} {s s' : Store} {S : ModuleId → Prop} (h : s.Embeds ρ s' S)
  (options : Options)
include h

/-! ## Targets -/

theorem symbolDecls {b : TopBinding} (hb : b ∈ s.bindings) (hm : S b.module) :
    (s'.linker options).symbolDecls (ρ.decl b.id)
      = ((s.linker options).symbolDecls b.id).map ρ.decl := by
  have hd := h.built.decl?_of_mem options hb
  simp only [Linker.symbolDecls, h.decl? hb, hd, DeclSummary.renumber, TopBinding.summary,
    Option.bind_eq_bind, Option.bind_some, h.scope? hm]
  cases (s.linker options).scope? b.module with
  | none => rfl
  | some scope =>
    have hsymbol : (scope.renumber ρ).symbols.get? b.name
        = (scope.symbols.get? b.name).map (List.map ρ.decl) :=
      Table.get?_map Function.injective_id _ scope.symbols b.name
    simp only [Option.map_some, Option.bind_some, hsymbol]
    cases scope.symbols.get? b.name <;> rfl

theorem targets {r : Resolution} (hr : r.Within (s.linker options) S) :
    (s'.linker options).targets (r.renumber ρ)
      = ((s.linker options).targets r).map (Target.renumber ρ) := by
  cases r with
  | declaration id =>
    obtain ⟨b, hb, rfl, hm⟩ := Store.binding_of_within hr
    simp only [Resolution.renumber, Linker.targets, h.symbolDecls options hb hm]
    cases (s.linker options).symbolDecls b.id with
    | nil => rfl
    | cons id ids => simp [Target.renumber, Function.comp_def]
  | namespaceOf m => rfl
  | external ref => rfl
  | unresolved => rfl

/-! ## Edges -/

section
variable {m : ModuleId} {u : DeclUnit} (hm : S m) (hu : s.get? m = some u)
include hm hu

theorem ofImportType {x : String} (hx : x ∈ u.specifiers) (q : Option String) :
    Edges.ofImportType (s'.linker options) u.path x q
      = (Edges.ofImportType (s.linker options) u.path x q).renumber ρ := by
  simp only [Edges.ofImportType, Store.lookup_linker, h.lookup hm hu hx]
  cases hl : s.lookup x with
  | none => rfl
  | some target =>
    have ht := h.closed hm hu hx hl
    cases q with
    | none => rfl
    | some name =>
      have hw := Linker.within_resolveExport (h.linker_closed options) ht name
      simp only [Option.map_some, h.resolveExport options ht, Prod.map_fst, Prod.map_snd, id_eq,
        h.targets options hw, Resolution.renumber_eq_unresolved]
      rfl

theorem ofReference {r : Reference} (hr : ∀ x q, r = .importType x q → x ∈ u.specifiers) :
    Edges.ofReference (s'.linker options) (ρ.module m) u.path r
      = (Edges.ofReference (s.linker options) m u.path r).renumber ρ := by
  cases r with
  | name name =>
    have hw := Linker.within_resolveLocal (h.linker_closed options) hm name
    simp only [Edges.ofReference, Edges.ofName, h.resolveLocal options hm, Prod.map_fst,
      Prod.map_snd, id_eq, h.targets options hw, Resolution.renumber_eq_unresolved]
    rfl
  | importType x q => exact h.ofImportType options hm hu (hr x q rfl) q

variable {st : Statement} {a : Analysis} (hst : st ∈ u.statements) (ha : a ∈ st.analyses)
include hst ha

theorem ofAnalysis : Edges.ofAnalysis (s'.linker options) (ρ.module m) u.path a
    = (Edges.ofAnalysis (s.linker options) m u.path a).renumber ρ := by
  have hmap : a.references.map (Edges.ofReference (s'.linker options) (ρ.module m) u.path)
      = (a.references.map (Edges.ofReference (s.linker options) m u.path)).map
          (Edges.renumber ρ) := by
    rw [List.map_map]
    refine List.map_congr_left fun r hr => h.ofReference options hm hu fun x q he => ?_
    exact DeclUnit.mem_specifiers hst ha (he ▸ hr)
  have hstart : ∀ ds, ({ diagnostics := ds } : Edges) = Edges.renumber ρ { diagnostics := ds } :=
    fun _ => rfl
  rw [Edges.ofAnalysis, hmap, hstart, Edges.ofAnalysis]
  exact foldl_map_hom fun e e' _ => Edges.append_renumber ρ e e'

end

theorem edgesOf {b : TopBinding} (hb : b ∈ s.bindings) (hm : S b.module) :
    (s'.graph options).edgesOf (ρ.decl b.id) = ((s.graph options).edgesOf b.id).renumber ρ := by
  obtain ⟨u, hu, hbu⟩ := Store.mem_bindings.1 hb
  obtain ⟨st, hst, hbu⟩ := List.mem_flatMap.1 hbu
  have hpath := (Statement.module_of_mem_topBindings hbu).2
  have he := h.built.edgesOf_of_mem (s.linker options) hb
  have he' := h.built'.edgesOf_of_mem (s'.linker options) (h.binding hb)
  rw [DependencyGraph.edgesOf, DependencyGraph.edgesOf, he, Option.getD_some]
  refine (congrArg (·.getD {}) he').trans ?_
  rw [Option.getD_some, TopBinding.edges, TopBinding.edges, hpath]
  exact hpath ▸ h.ofAnalysis options hm hu hst (Statement.analysis_mem_analyses hbu)

/-- The edges of the text of a module. -/
theorem verbatimEdges {m : ModuleId} (hm : S m) :
    (s'.graph options).verbatimEdges (ρ.module m)
      = ((s.graph options).verbatimEdges m).renumber ρ := by
  rw [verbatimEdges_graph, verbatimEdges_graph, h.unit]
  cases hu : s.get? m with
  | none => rfl
  | some u =>
    have hmap : (u.renumber ρ.decl).statements.map
          (Statement.textEdges (s'.linker options) (ρ.module m) u.path)
        = (u.statements.map (Statement.textEdges (s.linker options) m u.path)).map
            (Edges.renumber ρ) := by
      rw [DeclUnit.renumber, Statement.renumberList_eq, List.map_map, List.map_map]
      refine List.map_congr_left fun st hst => ?_
      cases st with
      | verbatim tokens pos =>
        exact h.ofAnalysis options hm hu hst (List.mem_singleton.2 rfl)
      | _ => rfl
    have hempty : ({} : Edges) = Edges.renumber ρ {} := rfl
    simp only [Option.map_some, Option.getD_some, DependencyGraph.unitVerbatim_eq]
    refine (congrArg (List.foldl Edges.append {}) hmap).trans ?_
    rw [hempty]
    exact foldl_map_hom fun e e' _ => Edges.append_renumber ρ e e'

/-! ## The walk -/

theorem visit (r : Reach) {t : Target} (ht : t.In s S) :
    (s'.graph options).visit (s'.linker options) (r.renumber ρ) (t.renumber ρ)
      = Prod.map (Reach.renumber ρ) (List.map (Target.renumber ρ))
          ((s.graph options).visit (s.linker options) r t) := by
  cases t with
  | declaration id =>
    obtain ⟨b, hb, rfl, hm⟩ := ht
    have he := h.edgesOf options hb hm
    rw [DependencyGraph.edgesOf, DependencyGraph.edgesOf] at he
    have hmem : ρ.decl b.id ∈ (r.renumber ρ).decls ↔ b.id ∈ r.decls :=
      List.mem_map_of_injective ρ.decl_injective
    simp only [Target.renumber, DependencyGraph.visit, hmem, he]
    split
    · rfl
    · simp [Reach.renumber, Edges.renumber]
  | namespaceOf m =>
    have hmem : ρ.module m ∈ (r.renumber ρ).namespaces ↔ m ∈ r.namespaces :=
      List.mem_map_of_injective ρ.module_injective
    have htargets : (((s.linker options).surface m).1.entries.values.map
          (Resolution.renumber ρ)).flatMap (s'.linker options).targets
        = (((s.linker options).surface m).1.entries.values.flatMap
            (s.linker options).targets).map (Target.renumber ρ) := by
      rw [List.flatMap_map, List.map_flatMap]
      exact List.flatMap_congr fun r hr => h.targets options (h.within_surface options ht hr)
    simp only [Target.renumber, DependencyGraph.visit, hmem, h.surface options ht, Prod.map_fst,
      Prod.map_snd, Surface.renumber, Table.values_map, htargets]
    split
    · rfl
    · simp [Reach.renumber]
  | import_ ref => rfl
  | importType ref => rfl

theorem visitAll : ∀ {ts : List Target} (r : Reach), (∀ t ∈ ts, t.In s S) →
    (s'.graph options).visitAll (s'.linker options) (r.renumber ρ) (ts.map (Target.renumber ρ))
      = Prod.map (Reach.renumber ρ) (List.map (Target.renumber ρ))
          ((s.graph options).visitAll (s.linker options) r ts)
  | [], _, _ => rfl
  | t :: ts, r, hts => by
    simp only [List.forall_mem_cons] at hts
    simp only [List.map_cons, DependencyGraph.visitAll, h.visit options r hts.1, Prod.map_fst,
      Prod.map_snd, visitAll _ hts.2, Prod.map_apply, List.map_append]

theorem in_visitAll : ∀ {ts : List Target} (r : Reach), (∀ t ∈ ts, t.In s S) →
    ∀ t' ∈ ((s.graph options).visitAll (s.linker options) r ts).2, t'.In s S
  | [], _, _, _, ht' => by cases ht'
  | t :: ts, r, hts, t', ht' => by
    simp only [List.forall_mem_cons] at hts
    rcases List.mem_append.1 ht' with ht' | ht'
    · exact h.in_successors options hts.1 ((DependencyGraph.mem_next_visit _ _).1 ht').2
    · exact in_visitAll _ hts.2 t' ht'

theorem walk : ∀ (fuel : Nat) (r : Reach) {level : List Target}, (∀ t ∈ level, t.In s S) →
    (s'.graph options).walk (s'.linker options) fuel (r.renumber ρ)
        (level.map (Target.renumber ρ))
      = ((s.graph options).walk (s.linker options) fuel r level).renumber ρ
  | 0, _, _, _ => rfl
  | _ + 1, _, [], _ => rfl
  | fuel + 1, r, t :: ts, hts => by
    have hv := h.visitAll options r hts
    have hw := walk fuel ((s.graph options).visitAll (s.linker options) r (t :: ts)).1
      (h.in_visitAll options r hts)
    rw [List.map_cons] at hv
    simp only [List.map_cons, DependencyGraph.walk, hv, Prod.map_fst, Prod.map_snd]
    exact hw

/-- What is reached from targets in modules that see the same is the same. A walk of a common length
has come to its end in both stores. -/
theorem closure {roots : List Target} (hr : ∀ t ∈ roots, t.In s S) :
    (s'.graph options).closure (s'.linker options) (roots.map (Target.renumber ρ))
      = ((s.graph options).closure (s.linker options) roots).renumber ρ := by
  let fuel := max ((s.graph options).edges.size + (s.linker options).size + 1)
    ((s'.graph options).edges.size + (s'.linker options).size + 1)
  rw [← DependencyGraph.walk_eq_closure _ _ roots (Nat.le_max_left _ _ : _ ≤ fuel),
    ← DependencyGraph.walk_eq_closure _ _ _ (Nat.le_max_right _ _ : _ ≤ fuel)]
  exact h.walk options fuel {} hr

end Store.Embeds

end DeclBundle
