import DeclBundle.Proofs.Reach.Levels
import DeclBundle.Proofs.Table
import DeclBundle.Reach.Closure

/-!
# Reachability is the least closure

A walk comes to a level that leads nowhere (`iterate_visitAll`). What it has taken in then is what
its roots lead to in finitely many steps (`mem_closure`), and the names that nothing provides are
those of the declarations taken in (`mem_globals_closure`).

Only the declarations with edges and the modules of the linker lead on, so those of them that are
not taken in yet (`pending`) are what is left to expand.
-/

namespace DeclBundle

namespace Reach

/-- A target belongs to what is reached if it is listed under its kind. -/
instance : Membership Target Reach where
  mem r
    | .declaration id => id ∈ r.decls
    | .namespaceOf module => module ∈ r.namespaces
    | .import_ ref => ref ∈ r.imports
    | .importType ref => ref ∈ r.importTypes

@[simp] theorem mem_declaration {r : Reach} {id : DeclId} :
    Target.declaration id ∈ r ↔ id ∈ r.decls := Iff.rfl

@[simp] theorem mem_namespaceOf {r : Reach} {m : ModuleId} :
    Target.namespaceOf m ∈ r ↔ m ∈ r.namespaces := Iff.rfl

@[simp] theorem mem_import {r : Reach} {ref : LibraryBinding} :
    Target.import_ ref ∈ r ↔ ref ∈ r.imports := Iff.rfl

@[simp] theorem mem_importType {r : Reach} {ref : LibraryBinding} :
    Target.importType ref ∈ r ↔ ref ∈ r.importTypes := Iff.rfl

theorem not_mem_empty (t : Target) : t ∉ ({} : Reach) := by
  cases t <;> simp

end Reach

namespace DependencyGraph

variable (g : DependencyGraph) (l : Linker)

/-- The edges of a declaration, none for one that the graph does not know. -/
def edgesOf (id : DeclId) : Edges := (g.edges? id).getD {}

/-- What a target leads to in one step: a declaration to the targets of its edges, the namespace of
a module to all that the module exports. -/
def successors : Target → List Target
  | .declaration id => (g.edgesOf id).targets
  | .namespaceOf module => (l.surface module).1.entries.values.flatMap l.targets
  | .import_ _ | .importType _ => []

/-! ## One target -/

theorem mem_visit {r : Reach} {t t' : Target} :
    t' ∈ (g.visit l r t).1 ↔ t' ∈ r ∨ t' = t := by
  cases t <;> simp only [visit]
  · split <;> cases t' <;> simp_all
  · split <;> cases t' <;> simp_all
  · cases t' <;> simp
  · cases t' <;> simp

theorem mem_next_visit {r : Reach} {t t' : Target} :
    t' ∈ (g.visit l r t).2 ↔ t ∉ r ∧ t' ∈ g.successors l t := by
  cases t <;> simp only [visit, successors, edgesOf]
  · split <;> simp_all
  · split <;> simp_all
  · simp
  · simp

/-- The names that nothing provides are those of the declarations taken in. -/
def GlobalsExact (r : Reach) : Prop :=
  ∀ x, x ∈ r.globals ↔ ∃ id ∈ r.decls, x ∈ (g.edgesOf id).globals

theorem globalsExact_visit {r : Reach} (h : g.GlobalsExact r) (t : Target) :
    g.GlobalsExact (g.visit l r t).1 := by
  intro x
  have hx := h x
  cases t with
  | declaration id =>
    simp only [visit]
    split
    · exact hx
    · simp only [mem_pushAllNew, hx, List.mem_append, List.mem_singleton]
      constructor
      · rintro (⟨i, hi, hg⟩ | hg)
        · exact ⟨i, .inl hi, hg⟩
        · exact ⟨id, .inr rfl, hg⟩
      · rintro ⟨i, hi | rfl, hg⟩
        · exact .inl ⟨i, hi, hg⟩
        · exact .inr hg
  | namespaceOf m =>
    simp only [visit]
    split <;> exact hx
  | import_ ref => exact hx
  | importType ref => exact hx

/-! ## One level -/

theorem mem_visitAll : ∀ {ts : List Target} {r : Reach} {t' : Target},
    t' ∈ (g.visitAll l r ts).1 ↔ t' ∈ r ∨ t' ∈ ts
  | [], r, t' => by simp [visitAll]
  | t :: ts, r, t' => by
    simp only [visitAll, mem_visitAll, mem_visit, List.mem_cons, or_assoc]

theorem mem_next_visitAll : ∀ {ts : List Target} {r : Reach} {t' : Target},
    t' ∈ (g.visitAll l r ts).2 ↔ ∃ t ∈ ts, t ∉ r ∧ t' ∈ g.successors l t
  | [], r, t' => by simp [visitAll]
  | u :: ts, r, t' => by
    simp only [visitAll, List.mem_append, mem_next_visit, mem_next_visitAll, mem_visit, not_or,
      List.mem_cons]
    constructor
    · rintro (⟨hn, hs⟩ | ⟨t, ht, ⟨hn, -⟩, hs⟩)
      · exact ⟨u, .inl rfl, hn, hs⟩
      · exact ⟨t, .inr ht, hn, hs⟩
    · rintro ⟨t, ht, hn, hs⟩
      by_cases htu : t = u
      · subst htu
        exact .inl ⟨hn, hs⟩
      · exact .inr ⟨t, ht.resolve_left htu, ⟨hn, htu⟩, hs⟩

theorem globalsExact_visitAll : ∀ {ts : List Target} {r : Reach}, g.GlobalsExact r →
    g.GlobalsExact (g.visitAll l r ts).1
  | [], _, h => h
  | t :: ts, r, h => by
    have ht := g.globalsExact_visit l h t
    simp only [visitAll]
    exact globalsExact_visitAll ht

/-! ## The walk -/

/-- The number of declarations with edges and of modules that are not taken in yet. -/
def pending (r : Reach) : Nat :=
  unseen g.edges.keys r.decls + unseen (List.range l.size) r.namespaces

theorem mem_keys_of_successors {id : DeclId} {t : Target}
    (h : t ∈ g.successors l (.declaration id)) : id ∈ g.edges.keys := by
  simp only [successors, edgesOf, edges?] at h
  cases he : g.edges.get? id with
  | none => simp [he] at h
  | some e => exact Table.mem_keys_of_get? he

theorem lt_size_of_successors {m : ModuleId} {t : Target}
    (h : t ∈ g.successors l (.namespaceOf m)) : m < l.size := by
  by_cases hm : m < l.size
  · exact hm
  · have hs : l.scope? m = none := List.getElem?_eq_none (Nat.le_of_not_lt hm)
    have : (l.surface m).1.entries.values = [] := by
      unfold Linker.surface
      cases l.size with
      | zero => rfl
      | succ n => simp [Linker.surfaceWithin, hs, Table.values]
    simp [successors, this] at h

/-- A level that leads on leaves less to expand. -/
theorem pending_visitAll {r : Reach} {ts : List Target} {t t' : Target} (ht : t ∈ ts) (hn : t ∉ r)
    (hs : t' ∈ g.successors l t) : g.pending l (g.visitAll l r ts).1 < g.pending l r := by
  have hr : ∀ u ∈ r, u ∈ (g.visitAll l r ts).1 := fun u hu => (g.mem_visitAll l).2 (.inl hu)
  have hd : ∀ x ∈ r.decls, x ∈ (g.visitAll l r ts).1.decls := fun x => hr (.declaration x)
  have hm : ∀ x ∈ r.namespaces, x ∈ (g.visitAll l r ts).1.namespaces := fun x =>
    hr (.namespaceOf x)
  have ht' : t ∈ (g.visitAll l r ts).1 := (g.mem_visitAll l).2 (.inr ht)
  unfold pending
  cases t with
  | declaration id =>
    have h1 := unseen_lt hd hn ht' (g.mem_keys_of_successors l hs)
    have h2 := unseen_mono (List.range l.size) hm
    omega
  | namespaceOf m =>
    have h1 := unseen_mono g.edges.keys hd
    have h2 := unseen_lt hm hn ht' (List.mem_range.2 (g.lt_size_of_successors l hs))
    omega
  | import_ ref => simp [successors] at hs
  | importType ref => simp [successors] at hs

/-- The walk through declarations and namespaces. -/
def levelWalk : LevelWalk Reach Target where
  visit := g.visitAll l
  successors := g.successors l
  pending := g.pending l
  visit_nil _ := rfl
  mem_visit := g.mem_visitAll l
  mem_next := g.mem_next_visitAll l
  pending_lt := g.pending_visitAll l

theorem walk_eq : ∀ (fuel : Nat) (r : Reach) (level : List Target),
    g.walk l fuel r level = (g.levelWalk l).run fuel r level
  | 0, _, _ => rfl
  | _ + 1, _, [] => rfl
  | fuel + 1, r, u :: us => by
    rw [LevelWalk.run_cons]
    exact walk_eq fuel _ _

theorem globalsExact_walk : ∀ {fuel : Nat} {r : Reach} {level : List Target},
    g.GlobalsExact r → g.GlobalsExact (g.walk l fuel r level)
  | 0, _, _, h => h
  | _ + 1, _, [], h => h
  | fuel + 1, r, u :: us, h => by
    simp only [walk]
    exact globalsExact_walk (g.globalsExact_visitAll l h)

theorem pending_empty_lt : g.pending l {} < g.edges.size + l.size + 1 := by
  have h1 : unseen g.edges.keys ({} : Reach).decls ≤ g.edges.size :=
    Nat.le_trans (unseen_le_length _ _) (by simp [Table.keys, Table.size])
  have h2 : unseen (List.range l.size) ({} : Reach).namespaces ≤ l.size :=
    Nat.le_trans (unseen_le_length _ _) (by simp)
  unfold pending
  omega

/-- After as many rounds as there are things to expand, and one more, no level is left. -/
theorem iterate_visitAll (roots : List Target) :
    (fun x => g.visitAll l x.1 x.2)^[g.edges.size + l.size + 1] ({}, roots)
      = (g.closure l roots, []) := by
  rw [closure, walk_eq]
  exact (g.levelWalk l).iterate_round (g.pending_empty_lt l)

/-- The walk has come to its end: more levels find nothing more. -/
theorem walk_eq_closure (roots : List Target) {fuel : Nat} (h : g.edges.size + l.size + 1 ≤ fuel) :
    g.walk l fuel {} roots = g.closure l roots := by
  obtain ⟨k, rfl⟩ := Nat.exists_eq_add_of_le h
  rw [closure, walk_eq, walk_eq]
  exact (g.levelWalk l).run_add (g.pending_empty_lt l) k

/-- What is taken in from roots is what they lead to. -/
theorem mem_closure {roots : List Target} {t : Target} :
    t ∈ g.closure l roots ↔ Reaches (g.successors l) roots t := by
  rw [closure, walk_eq]
  exact (g.levelWalk l).mem_run Reach.not_mem_empty (g.pending_empty_lt l)

/-- The names that nothing provides are those of the declarations taken in from roots. -/
theorem mem_globals_closure {roots : List Target} {x : String} :
    x ∈ (g.closure l roots).globals
      ↔ ∃ id ∈ (g.closure l roots).decls, x ∈ (g.edgesOf id).globals :=
  g.globalsExact_walk l (fun x => by simp) x

variable {g l} in
theorem mem_closure_mono {roots roots' : List Target} (hr : ∀ t ∈ roots, t ∈ roots') {t : Target}
    (h : t ∈ g.closure l roots) : t ∈ g.closure l roots' :=
  (g.mem_closure l).2 (((g.mem_closure l).1 h).mono hr)

variable {g l} in
theorem mem_globals_closure_mono {roots roots' : List Target} (hr : ∀ t ∈ roots, t ∈ roots')
    {x : String} (h : x ∈ (g.closure l roots).globals) : x ∈ (g.closure l roots').globals := by
  rw [mem_globals_closure] at h ⊢
  obtain ⟨id, hid, hx⟩ := h
  have hid' : .declaration id ∈ g.closure l roots' := mem_closure_mono hr hid
  exact ⟨id, hid', hx⟩

/-- What holds of nothing and is kept when a target is taken in holds of what is reached. -/
theorem closure_induction {P : Reach → Prop} (h0 : P {}) (hv : ∀ r t, P r → P (g.visit l r t).1)
    (roots : List Target) : P (g.closure l roots) := by
  have hlevel : ∀ (ts : List Target) (r : Reach), P r → P (g.visitAll l r ts).1 := by
    intro ts
    induction ts with
    | nil => exact fun r h => h
    | cons t ts ih => exact fun r h => ih _ (hv r t h)
  have hwalk : ∀ (fuel : Nat) (r : Reach) (level : List Target), P r → P (g.walk l fuel r level) := by
    intro fuel
    induction fuel with
    | zero => exact fun r level h => h
    | succ fuel ih =>
      intro r level h
      cases level with
      | nil => exact h
      | cons t ts => exact ih _ _ (hlevel (t :: ts) r h)
  exact hwalk _ _ _ h0

/-- The reports are those of the declarations taken in. -/
theorem mem_diagnostics_closure {roots : List Target} {d : Diagnostic} :
    d ∈ (g.closure l roots).diagnostics
      ↔ ∃ id ∈ (g.closure l roots).decls, d ∈ (g.edgesOf id).diagnostics := by
  refine g.closure_induction l
    (P := fun r => d ∈ r.diagnostics ↔ ∃ id ∈ r.decls, d ∈ (g.edgesOf id).diagnostics)
    (by simp) (fun r t h => ?_) roots
  cases t with
  | declaration id =>
    simp only [visit]
    split
    · exact h
    · simp only [List.mem_append, h, List.mem_singleton, or_and_right, exists_or, exists_eq_left]
      rfl
  | namespaceOf m =>
    simp only [visit]
    split <;> exact h
  | import_ ref => exact h
  | importType ref => exact h

/-- The reports of surfaces are those of the namespaces taken in. -/
theorem mem_surfaceDiagnostics_closure {roots : List Target} {d : Diagnostic} :
    d ∈ (g.closure l roots).surfaceDiagnostics
      ↔ ∃ m ∈ (g.closure l roots).namespaces, d ∈ (l.surface m).2 := by
  refine g.closure_induction l
    (P := fun r => d ∈ r.surfaceDiagnostics ↔ ∃ m ∈ r.namespaces, d ∈ (l.surface m).2)
    (by simp) (fun r t h => ?_) roots
  cases t with
  | declaration id =>
    simp only [visit]
    split <;> exact h
  | namespaceOf m =>
    simp only [visit]
    split
    · exact h
    · simp only [List.mem_append, h, List.mem_singleton, or_and_right, exists_or, exists_eq_left]
  | import_ ref => exact h
  | importType ref => exact h

/-- A declaration is taken in once. -/
theorem nodup_decls_closure (roots : List Target) : (g.closure l roots).decls.Nodup := by
  refine g.closure_induction l (P := fun r => r.decls.Nodup) List.nodup_nil (fun r t h => ?_) roots
  cases t with
  | declaration id =>
    simp only [visit]
    split
    · exact h
    · rename_i hid
      exact List.nodup_append.2 ⟨h, by simp,
        fun x hx y hy he => hid (List.mem_singleton.1 hy ▸ he ▸ hx)⟩
  | namespaceOf m =>
    simp only [visit]
    split <;> exact h
  | import_ ref => exact h
  | importType ref => exact h

/-- The namespace of a module is taken in once. -/
theorem nodup_namespaces_closure (roots : List Target) :
    (g.closure l roots).namespaces.Nodup := by
  refine g.closure_induction l (P := fun r => r.namespaces.Nodup) List.nodup_nil
    (fun r t h => ?_) roots
  cases t with
  | declaration id =>
    simp only [visit]
    split <;> exact h
  | namespaceOf m =>
    simp only [visit]
    split
    · exact h
    · rename_i hm
      exact List.nodup_append.2 ⟨h, by simp,
        fun x hx y hy he => hm (List.mem_singleton.1 hy ▸ he ▸ hx)⟩
  | import_ ref => exact h
  | importType ref => exact h

/-- What is taken from libraries is taken in once. -/
theorem nodup_imports_closure (roots : List Target) :
    (g.closure l roots).imports.Nodup ∧ (g.closure l roots).importTypes.Nodup := by
  refine g.closure_induction l (P := fun r => r.imports.Nodup ∧ r.importTypes.Nodup)
    ⟨List.nodup_nil, List.nodup_nil⟩ (fun r t h => ?_) roots
  cases t with
  | declaration id =>
    simp only [visit]
    split <;> exact h
  | namespaceOf m =>
    simp only [visit]
    split <;> exact h
  | import_ ref => exact ⟨nodup_pushNew h.1, h.2⟩
  | importType ref => exact ⟨h.1, nodup_pushNew h.2⟩

/-- The closure of roots is the least one: round after round the walk comes to a level without
targets, and more levels find nothing more; it takes in just what the roots lead to in finitely many
steps, with the names that nothing provides of just the declarations taken in; and only which roots
there are matters, where more of them lead to more. -/
theorem closure_least (roots : List Target) :
    (fun x => g.visitAll l x.1 x.2)^[g.edges.size + l.size + 1] ({}, roots)
        = (g.closure l roots, [])
      ∧ (∀ fuel, g.edges.size + l.size + 1 ≤ fuel → g.walk l fuel {} roots = g.closure l roots)
      ∧ (∀ t, t ∈ g.closure l roots ↔ Reaches (g.successors l) roots t)
      ∧ (∀ x, x ∈ (g.closure l roots).globals
          ↔ ∃ id ∈ (g.closure l roots).decls, x ∈ (g.edgesOf id).globals)
      ∧ (∀ roots', (∀ t, t ∈ roots ↔ t ∈ roots') →
          (∀ t, t ∈ g.closure l roots ↔ t ∈ g.closure l roots')
            ∧ ∀ x, x ∈ (g.closure l roots).globals ↔ x ∈ (g.closure l roots').globals)
      ∧ ∀ roots', (∀ t ∈ roots, t ∈ roots') →
          (∀ t ∈ g.closure l roots, t ∈ g.closure l roots')
            ∧ ∀ x ∈ (g.closure l roots).globals, x ∈ (g.closure l roots').globals := by
  refine ⟨g.iterate_visitAll l roots, fun fuel hf => g.walk_eq_closure l roots hf, fun t => g.mem_closure l,
    fun x => g.mem_globals_closure l, fun roots' hr => ⟨fun t => ⟨?_, ?_⟩, fun x => ⟨?_, ?_⟩⟩,
    fun roots' hr => ⟨fun t => mem_closure_mono hr, fun x => mem_globals_closure_mono hr⟩⟩
  · exact mem_closure_mono fun u => (hr u).1
  · exact mem_closure_mono fun u => (hr u).2
  · exact mem_globals_closure_mono fun u => (hr u).1
  · exact mem_globals_closure_mono fun u => (hr u).2

end DependencyGraph

end DeclBundle
