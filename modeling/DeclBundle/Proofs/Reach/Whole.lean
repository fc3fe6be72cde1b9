import DeclBundle.Proofs.Reach.Closure
import DeclBundle.Proofs.Reach.Edges
import DeclBundle.Proofs.Reach.Within

/-!
# Symbols are reached as a whole

The declarations of one name in one module are one symbol. A look-up ends at the first of them, and
`Linker.targets` stands for all; so whatever leads to one leads to all
(`Store.Built.whole_targets`), and a walk that starts from whole symbols takes in whole symbols
(`Store.Built.whole_closure`).
-/

namespace DeclBundle

/-- Whether targets have all declarations of a symbol or none. -/
def Store.Whole (s : Store) (P : Target → Prop) : Prop :=
  ∀ b ∈ s.bindings, ∀ c ∈ s.bindings, c.module = b.module → c.name = b.name →
    P (.declaration b.id) → P (.declaration c.id)

namespace Store

variable {s : Store}

theorem whole_nil : s.Whole (· ∈ []) := fun _ _ _ _ _ _ h => nomatch h

theorem Whole.append {ts ts' : List Target} (h : s.Whole (· ∈ ts)) (h' : s.Whole (· ∈ ts')) :
    s.Whole (· ∈ ts ++ ts') := fun b hb c hc hm hn ht => by
  rcases List.mem_append.1 ht with ht | ht
  · exact List.mem_append_left _ (h b hb c hc hm hn ht)
  · exact List.mem_append_right _ (h' b hb c hc hm hn ht)

theorem whole_flatMap {xs : List α} {f : α → List Target} (h : ∀ x ∈ xs, s.Whole (· ∈ f x)) :
    s.Whole (· ∈ xs.flatMap f) := fun b hb c hc hm hn ht => by
  obtain ⟨x, hx, ht⟩ := List.mem_flatMap.1 ht
  exact List.mem_flatMap.2 ⟨x, hx, h x hx b hb c hc hm hn ht⟩

variable (options : Options)

/-- Only a binding of the store has a symbol. -/
theorem exists_binding_of_symbolDecls {id id' : DeclId}
    (h : id' ∈ (s.linker options).symbolDecls id) : ∃ a ∈ s.bindings, a.id = id := by
  cases hd : (s.linker options).decl? id with
  | none => simp [Linker.symbolDecls, hd] at h
  | some info =>
    have hrow := Table.mem_rows_of_get? hd
    rw [decls_linker, List.mem_map] at hrow
    obtain ⟨a, ha, he⟩ := hrow
    exact ⟨a, ha, congrArg Prod.fst he⟩

namespace Built

variable (hs : s.Built)
include hs

/-- The declarations of a symbol are the same for each of them. -/
theorem symbolDecls_closed {id id' : DeclId} (h : id' ∈ (s.linker options).symbolDecls id)
    {b c : TopBinding} (hb : b ∈ s.bindings) (he : b.id = id') (hc : c ∈ s.bindings)
    (hm : c.module = b.module) (hn : c.name = b.name) :
    c.id ∈ (s.linker options).symbolDecls id := by
  obtain ⟨a, ha, rfl⟩ := exists_binding_of_symbolDecls options h
  obtain ⟨b', hb', he', hm', hn'⟩ := (hs.mem_symbolDecls options ha).1 h
  cases hs.eq_of_id hb' hb (he'.trans he.symm)
  exact (hs.mem_symbolDecls options ha).2 ⟨c, hc, rfl, hm.trans hm', hn.trans hn'⟩

/-- What a resolution leads to is whole: it holds every declaration of a symbol of which it holds
one, since a binding is a declaration of its own symbol. -/
theorem whole_targets (r : Resolution) : s.Whole (· ∈ (s.linker options).targets r) := by
  intro b hb c hc hm hn ht
  cases r with
  | declaration id =>
    simp only [Linker.targets] at ht ⊢
    split at ht
    · rename_i hnil
      cases List.mem_singleton.1 ht
      have hself := mem_symbolDecls_self options hs hb
      rw [hnil] at hself
      cases hself
    · obtain ⟨id', hid, he⟩ := List.mem_map.1 ht
      cases he
      exact List.mem_map.2 ⟨c.id, hs.symbolDecls_closed options hid hb rfl hc hm hn, rfl⟩
  | namespaceOf m => simp [Linker.targets] at ht
  | external ref => simp [Linker.targets] at ht
  | unresolved => cases ht

/-! ## Edges -/

theorem whole_ofReference (m : ModuleId) (path : String) (r : Reference) :
    s.Whole (· ∈ (Edges.ofReference (s.linker options) m path r).targets) := by
  cases r with
  | name name => exact hs.whole_targets options _
  | importType specifier qualifier =>
    simp only [Edges.ofReference, Edges.ofImportType]
    split
    · intro b _ c _ _ _ ht
      cases List.mem_singleton.1 ht
    · exact hs.whole_targets options _

theorem whole_ofAnalysis (m : ModuleId) (path : String) (a : Analysis) :
    s.Whole (· ∈ (Edges.ofAnalysis (s.linker options) m path a).targets) := by
  rw [Edges.ofAnalysis, Edges.targets_foldl, List.nil_append, List.flatMap_map]
  exact whole_flatMap fun r _ => hs.whole_ofReference options m path r

theorem whole_edgesOf (id : DeclId) :
    s.Whole (· ∈ ((s.graph options).edgesOf id).targets) := by
  rw [DependencyGraph.edgesOf]
  cases he : (s.graph options).edges? id with
  | none => exact whole_nil
  | some e =>
    have hrow := Table.mem_rows_of_get? he
    rw [edges_build, List.mem_map] at hrow
    obtain ⟨a, -, he⟩ := hrow
    cases he
    exact hs.whole_ofAnalysis options a.module a.path a.analysis

theorem whole_verbatimEdges (m : ModuleId) :
    s.Whole (· ∈ ((s.graph options).verbatimEdges m).targets) := by
  rw [verbatimEdges_graph]
  cases s.get? m with
  | none => exact whole_nil
  | some u =>
    rw [Option.map_some, Option.getD_some, DependencyGraph.unitVerbatim_eq, Edges.targets_foldl,
      List.nil_append, List.flatMap_map]
    refine whole_flatMap fun st _ => ?_
    cases st with
    | verbatim tokens pos => exact hs.whole_ofAnalysis options m u.path _
    | _ => exact whole_nil

/-! ## The walk -/

theorem whole_successors (t : Target) :
    s.Whole (· ∈ (s.graph options).successors (s.linker options) t) := by
  cases t with
  | declaration id => exact hs.whole_edgesOf options id
  | namespaceOf m => exact whole_flatMap fun r _ => hs.whole_targets options r
  | import_ ref => exact whole_nil
  | importType ref => exact whole_nil

/-- What is reached from whole symbols is whole symbols: the last step to a declaration leads to all
of its symbol. -/
theorem whole_closure {roots : List Target} (hr : s.Whole (· ∈ roots)) :
    s.Whole (· ∈ (s.graph options).closure (s.linker options) roots) := by
  intro b hb c hc hm hn ht
  rw [DependencyGraph.mem_closure] at ht ⊢
  cases ht with
  | root ht => exact .root (hr b hb c hc hm hn ht)
  | step h ht => exact .step h (hs.whole_successors options _ b hb c hc hm hn ht)

end Built

end Store

end DeclBundle
