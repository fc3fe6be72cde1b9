import DeclBundle.Proofs.Link.Derivation
import DeclBundle.Proofs.Link.Surface
import Mathlib.Data.Finset.Card
import Mathlib.Logic.Relation

/-!
# Modules that do not depend on themselves

Where no module depends on itself, each module has more modules below it than any of its
dependencies (`Linker.height_lt`). So a look-up never comes back to a hop and, with a budget of as
many hops as there are modules, is never cut off: it is the same however it came to a module
(`Linker.findExport_of_star`). In the same way a walk finds the surface of a star source wherever it
comes from (`Linker.surface_of_scope`).
-/

namespace DeclBundle

namespace Linker

variable (l : Linker)

/-- `d` is a dependency of `m`, or of one of its dependencies, and so on. -/
def DependsOn : ModuleId → ModuleId → Prop := Relation.TransGen fun m d => d ∈ l.dependencies m

/-- No module depends on itself. -/
def Acyclic : Prop := ∀ m, ¬ l.DependsOn m m

open scoped Classical in
/-- The number of modules that a module depends on. -/
noncomputable def height (m : ModuleId) : Nat :=
  ((Finset.range l.size).filter (l.DependsOn m)).card

variable {l} {store : Store} {options : Options} {m d : ModuleId} {scope : ModuleTables}
  {name : String}

theorem mem_dependencies (hs : l.scope? m = some scope) :
    d ∈ l.dependencies m ↔ d ∈ scope.dependencies := by
  simp [dependencies, hs]

theorem dependency_lt_size (h : d ∈ (store.linker options).dependencies m) :
    d < (store.linker options).size := by
  rcases hs : (store.linker options).scope? m with _ | scope
  · simp [dependencies, hs] at h
  · rw [Store.size_linker]
    exact (Store.regular_scope options hs).dependencies ((mem_dependencies hs).1 h)

theorem height_lt (ha : (store.linker options).Acyclic)
    (h : d ∈ (store.linker options).dependencies m) :
    (store.linker options).height d < (store.linker options).height m := by
  classical
  refine Finset.card_lt_card ((Finset.ssubset_iff_of_subset fun x hx => ?_).2 ⟨d, ?_, ?_⟩)
  · rw [Finset.mem_filter] at hx ⊢
    exact ⟨hx.1, .head h hx.2⟩
  · exact Finset.mem_filter.2 ⟨Finset.mem_range.2 (dependency_lt_size h), .single h⟩
  · exact fun hd => ha d (Finset.mem_filter.1 hd).2

theorem height_lt_size (ha : l.Acyclic) (hs : l.scope? m = some scope) : l.height m < l.size := by
  classical
  have hm : m ∈ Finset.range l.size := Finset.mem_range.2 (lt_size_of_scope hs)
  have hlt := Finset.card_lt_card ((Finset.ssubset_iff_of_subset
    (Finset.filter_subset (l.DependsOn m) (Finset.range l.size))).2
      ⟨m, hm, fun hf => ha m (Finset.mem_filter.1 hf).2⟩)
  rwa [Finset.card_range] at hlt

/-- What holds of a module when it holds of its star sources holds of all modules. -/
theorem Acyclic.star_induction (ha : (store.linker options).Acyclic) {motive : ModuleId → Prop}
    (h : ∀ m, (∀ scope t, (store.linker options).scope? m = some scope →
      .internal t ∈ scope.starExports → motive t) → motive m) (m : ModuleId) : motive m := by
  induction hm : (store.linker options).height m using Nat.strong_induction_on generalizing m with
  | _ n ih =>
    refine h m fun scope t hs ht => ih _ ?_ t rfl
    rw [← hm]
    exact height_lt ha ((mem_dependencies hs).2 ((Store.linked_scope hs).stars ht))

/-- It is enough that modules depend on later ones. -/
theorem acyclic_of_lt (h : ∀ m < l.size, ∀ d ∈ l.dependencies m, m < d) : l.Acyclic := by
  have hlt : ∀ m d, d ∈ l.dependencies m → m < d := by
    intro m d hd
    rcases hs : l.scope? m with _ | scope
    · simp [dependencies, hs] at hd
    · exact h m (lt_size_of_scope hs) d hd
  intro m hm
  have htrans : ∀ d, l.DependsOn m d → m < d := by
    intro d hd
    induction hd with
    | single hd => exact hlt _ _ hd
    | tail _ hd ih => exact Nat.lt_trans ih (hlt _ _ hd)
  exact Nat.lt_irrefl m (htrans m hm)

/-! ## Look-ups -/

section
variable {next next' : ModuleId → String → Lookup}

theorem follow_congr {source : Provider} {remote : Remote}
    (h : ∀ t, source = .internal t → ∀ x, next t x = next' t x) :
    follow next source remote = follow next' source remote := by
  cases source with
  | external specifier => rfl
  | internal t =>
    cases remote with
    | all => rfl
    | default => exact h t rfl "default"
    | named x => exact h t rfl x

theorem chaseLocal_congr (hl : scope.Linked)
    (h : ∀ t ∈ scope.dependencies, ∀ x, next t x = next' t x) (binding : String) :
    chaseLocal next scope binding = chaseLocal next' scope binding := by
  unfold chaseLocal
  split
  · rfl
  · split
    · rename_i row hi
      exact follow_congr fun t ht => h t (hl.imports hi ht)
    · rfl

theorem chaseStars_congr {next next' : ModuleId → Lookup} : ∀ {sources : List Provider},
    (∀ t, .internal t ∈ sources → next t = next' t) →
      chaseStars next sources = chaseStars next' sources
  | [], _ => rfl
  | .external _ :: rest, h => by
    simp only [chaseStars]
    exact chaseStars_congr fun t ht => h t (List.mem_cons_of_mem _ ht)
  | .internal t :: rest, h => by
    have ih : chaseStars next rest = chaseStars next' rest :=
      chaseStars_congr fun t ht => h t (List.mem_cons_of_mem _ ht)
    simp only [chaseStars, h t List.mem_cons_self, ih]

end

/-- A look-up with hops for all that is below a module, on a path from above it. -/
structure Unhindered (l : Linker) (budget : Nat) (path : List (ModuleId × String)) (m : ModuleId) :
    Prop where
  budget : l.height m < budget
  path : ∀ h ∈ path, l.DependsOn h.1 m

theorem Unhindered.next (ha : (store.linker options).Acyclic) {budget : Nat}
    {path : List (ModuleId × String)} (h : (store.linker options).Unhindered (budget + 1) path m)
    (hd : d ∈ (store.linker options).dependencies m) :
    (store.linker options).Unhindered budget ((m, name) :: path) d where
  budget := by
    have := height_lt ha hd
    have := h.budget
    omega
  path := by
    intro x hx
    rcases List.mem_cons.1 hx with rfl | hx
    · exact .single hd
    · exact (h.path x hx).tail hd

theorem Unhindered.not_mem (ha : l.Acyclic) {budget : Nat} {path : List (ModuleId × String)}
    (h : l.Unhindered budget path m) : (m, name) ∉ path :=
  fun hm => ha m (h.path _ hm)

/-- However a look-up comes to a module, it ends in the same way there. All that the tables of a
module lead to are its dependencies, which are lower. -/
theorem chaseExport_eq (ha : (store.linker options).Acyclic) :
    ∀ {budget budget' : Nat} {path path' : List (ModuleId × String)} {m : ModuleId}
      {name : String}, (store.linker options).Unhindered budget path m →
        (store.linker options).Unhindered budget' path' m →
          (store.linker options).chaseExport budget path m name
            = (store.linker options).chaseExport budget' path' m name
  | 0, _, _, _, _, _, h, _ => absurd h.budget (Nat.not_lt_zero _)
  | _, 0, _, _, _, _, _, h => absurd h.budget (Nat.not_lt_zero _)
  | budget + 1, budget' + 1, path, path', m, name, h, h' => by
    rcases hs : (store.linker options).scope? m with _ | scope
    · simp [chaseExport, h.not_mem ha, h'.not_mem ha, hs]
    · have hl := Store.linked_scope hs
      have hnext : ∀ t ∈ scope.dependencies, ∀ x,
          (store.linker options).chaseExport budget ((m, name) :: path) t x
            = (store.linker options).chaseExport budget' ((m, name) :: path') t x := by
        intro t ht x
        rw [← mem_dependencies hs] at ht
        exact chaseExport_eq ha (h.next ha ht) (h'.next ha ht)
      rw [chaseExport_of_scope (h.not_mem ha) hs, chaseExport_of_scope (h'.not_mem ha) hs]
      split
      · exact chaseLocal_congr hl hnext _
      · rename_i source remote he
        refine follow_congr ?_
        rintro t rfl
        exact hnext t (hl.exports he)
      · split
        · rfl
        · refine chaseStars_congr fun t ht => ?_
          exact hnext t (hl.stars (mem_inPolicyOrder.1 ht)) name

/-- A name without a row is looked up in the star sources, each from the start. -/
theorem findExport_of_star (ha : (store.linker options).Acyclic)
    (hdepth : (store.linker options).size ≤ options.maxReexportDepth)
    (hs : (store.linker options).scope? m = some scope) (he : scope.exports.get? name = none)
    (hn : name ≠ "default") :
    (store.linker options).findExport m name
      = chaseStars (fun t => (store.linker options).findExport t name)
          (inPolicyOrder options.starPolicy scope.starExports) := by
  have hm := height_lt_size ha hs
  obtain ⟨k, hk⟩ : ∃ k, options.maxReexportDepth = k + 1 :=
    ⟨options.maxReexportDepth - 1, by omega⟩
  have hmax : (store.linker options).maxDepth = k + 1 := hk
  have hstart : (store.linker options).Unhindered (k + 1) [] m := ⟨by omega, by simp⟩
  rw [findExport, hmax, chaseExport_of_scope (by simp) hs, he]
  simp only [if_neg hn]
  refine chaseStars_congr fun t ht => ?_
  have hd : t ∈ (store.linker options).dependencies m :=
    (mem_dependencies hs).2 ((Store.linked_scope hs).stars (mem_inPolicyOrder.1 ht))
  have hlt := height_lt ha hd
  rw [findExport, hmax]
  exact chaseExport_eq ha (hstart.next ha hd) ⟨by omega, by simp⟩

/-! ## Surfaces -/

/-- However a walk comes to a module, it finds the same surface there. The walk is only inside of
modules that depend on this one. -/
theorem surfaceWithin_of_acyclic (ha : (store.linker options).Acyclic) :
    ∀ {steps steps' : Nat} {stack stack' : List ModuleId} {m : ModuleId},
      (store.linker options).height m < steps → (store.linker options).height m < steps' →
        (∀ s ∈ stack, s = m ∨ (store.linker options).DependsOn s m) →
          (∀ s ∈ stack', s = m ∨ (store.linker options).DependsOn s m) →
            (store.linker options).surfaceWithin steps stack m
              = (store.linker options).surfaceWithin steps' stack' m
  | 0, _, _, _, _, h, _, _, _ => absurd h (Nat.not_lt_zero _)
  | _, 0, _, _, _, _, h, _, _ => absurd h (Nat.not_lt_zero _)
  | steps + 1, steps' + 1, stack, stack', m, h, h', hst, hst' => by
    rcases hs : (store.linker options).scope? m with _ | scope
    · rw [surfaceWithin_of_none hs, surfaceWithin_of_none hs]
    · refine surfaceWithin_congr hs fun t ht => ?_
      have hd : t ∈ (store.linker options).dependencies m :=
        (mem_dependencies hs).2 ((Store.linked_scope hs).stars ht)
      have hlt := height_lt ha hd
      have hbelow : ∀ {stack : List ModuleId},
          (∀ s ∈ stack, s = m ∨ (store.linker options).DependsOn s m) →
            ∀ s ∈ stack, (store.linker options).DependsOn s t := by
        intro stack hst s hm
        rcases hst s hm with rfl | hdep
        · exact .single hd
        · exact hdep.tail hd
      have hnot : ∀ {stack : List ModuleId},
          (∀ s ∈ stack, s = m ∨ (store.linker options).DependsOn s m) → t ∉ stack :=
        fun hst hm => ha t (hbelow hst t hm)
      have hcons : ∀ {stack : List ModuleId},
          (∀ s ∈ stack, s = m ∨ (store.linker options).DependsOn s m) →
            ∀ s ∈ t :: stack, s = t ∨ (store.linker options).DependsOn s t := by
        intro stack hst s hm
        rcases List.mem_cons.1 hm with rfl | hm
        · exact .inl rfl
        · exact .inr (hbelow hst s hm)
      refine ⟨iff_of_false (hnot hst) (hnot hst'), fun _ => ?_⟩
      exact surfaceWithin_of_acyclic ha (by omega) (by omega) (hcons hst) (hcons hst')

/-- The surface of a module in terms of the surfaces of its star sources. -/
theorem surface_of_scope (ha : (store.linker options).Acyclic)
    (hs : (store.linker options).scope? m = some scope) :
    ((store.linker options).surface m).1.entries.rows
      = (store.linker options).explicitRows m scope
        ++ (starsFrom options.starPolicy (store.linker options).surface [m] scope).map
            StarEntry.row := by
  have hinner : ∀ t, .internal t ∈ scope.starExports → t ∉ [m] →
      (store.linker options).walkSurface [t, m] t = (store.linker options).surface t := by
    intro t ht _
    have hd : t ∈ (store.linker options).dependencies m :=
      (mem_dependencies hs).2 ((Store.linked_scope hs).stars ht)
    have hlt := height_lt ha hd
    have hsize := height_lt_size ha hs
    refine surfaceWithin_of_acyclic ha (by simp only [List.length_cons, List.length_nil]; omega)
      (by omega) ?_ fun s hm => .inl (List.mem_singleton.1 hm)
    intro s hm
    simp only [List.mem_cons, List.not_mem_nil, or_false] at hm
    rcases hm with rfl | rfl
    · exact .inl rfl
    · exact .inr (.single hd)
  have h := (walkSurface_of_scope Walk.start hs).1
  have hrows := congrArg Table.rows h
  simp only [starsFrom, offersFrom_congr hinner] at hrows
  exact hrows

end Linker

end DeclBundle
