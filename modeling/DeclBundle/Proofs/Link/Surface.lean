import DeclBundle.Proofs.Link.Stars
import DeclBundle.Proofs.Reach.Modules
import Mathlib.Data.List.Perm.Subperm

/-!
# Export surfaces

The walk that lists the exports of a module goes into star sources, but never into a module that it
is inside of (`Linker.Walk`). So it is never inside of more modules than there are, and more steps
than that change nothing (`Linker.surfaceWithin_eq`).

At each module of the walk the surface is the explicit rows of its table followed by what its star
sources list, each different resolution of a name once, and no two entries have one name
(`Linker.surface_lists`).
-/

namespace DeclBundle

namespace Linker

variable (l : Linker)

/-- What is inside of what when a walk that starts at `start` comes to a module. -/
inductive Walk (start : ModuleId) : List ModuleId → ModuleId → Prop
  | start : Walk start [start] start
  | enter {stack : List ModuleId} {module target : ModuleId} {scope : ModuleTables}
    (h : Walk start stack module) (hs : l.scope? module = some scope)
    (ht : .internal target ∈ scope.starExports) (hn : target ∉ stack) :
    Walk start (target :: stack) target

/-- The surface that a walk finds at the module on top of its stack. -/
def walkSurface (stack : List ModuleId) (module : ModuleId) : Surface × List Diagnostic :=
  l.surfaceWithin (l.size + 1 - stack.length) stack module

/-- The explicit entries of a module in the order of its table. -/
def explicitRows (module : ModuleId) (scope : ModuleTables) : List (String × Resolution) :=
  scope.exports.keys.map fun name => (name, (l.resolveExport module name).1)

/-- A star source that a walk goes into lists `r` under `name`, and it can be passed on. -/
def Provided (stack : List ModuleId) (scope : ModuleTables) (name : String) (r : Resolution) :
    Prop :=
  name ≠ "default" ∧ r ≠ .unresolved ∧ name ∉ scope.exports.keys
    ∧ ∃ t, .internal t ∈ scope.starExports ∧ t ∉ stack
        ∧ (name, r) ∈ (l.walkSurface (t :: stack) t).1.entries.rows

/-- What a walk finds at a module with these tables: the explicit entries, then `es` from its star
sources. -/
structure Lists (stack : List ModuleId) (module : ModuleId) (scope : ModuleTables)
    (es : List StarEntry) (s : Surface) (ds : List Diagnostic) : Prop where
  rows : s.entries.rows = l.explicitRows module scope ++ es.map StarEntry.row
  distinct : s.entries.keys.Nodup
  /-- The star sources add what they provide and nothing else. -/
  provided : ∀ name r, (name, r) ∈ es.map StarEntry.offer ↔ l.Provided stack scope name r
  once : (es.map StarEntry.offer).Nodup
  /-- One resolution of each name keeps the name. -/
  kept : ∀ e ∈ es, ∃ r, ⟨e.origin, e.origin, r⟩ ∈ es
  /-- Every other one has the first numbered form that is neither an entry before it nor
  provided. -/
  renamed : ∀ before e after, es = before ++ e :: after → e.name ≠ e.origin →
    FirstFree (fun x => x ∈ scope.exports.keys ∨ x ∈ before.map (·.name)
      ∨ ∃ r, l.Provided stack scope x r) e.origin e.name
  reports : ds = (l.explicitEntries scope).2
    ++ (followed stack scope.starExports).flatMap (fun t => (l.walkSurface (t :: stack) t).2)
    ++ (es.filter StarEntry.isRenamed).map (StarEntry.warning scope.path)
  default : "default" ∈ s.entries.keys → "default" ∈ scope.exports.keys

variable {l} {scope : ModuleTables} {stack : List ModuleId} {module : ModuleId}

/-! ## One module -/

theorem foldl_addExplicit : ∀ {names : List String}
    {acc : Table String Resolution × List Diagnostic}, names.Nodup → (∀ x ∈ names, x ∉ acc.1.keys) →
      (names.foldl (l.addExplicit scope) acc).1
        = ⟨acc.1.rows ++ names.map fun x => (x, (l.resolveExport scope.module x).1)⟩
  | [], acc, _, _ => by simp
  | x :: names, acc, hn, hk => by
    simp only [List.forall_mem_cons] at hk
    obtain ⟨hx, hn⟩ := List.nodup_cons.1 hn
    have hins := Table.insert_of_not_mem hk.1 (l.resolveExport scope.module x).1
    rw [List.foldl_cons, foldl_addExplicit hn]
    · simp [addExplicit, hins]
    · intro y hy
      simp only [addExplicit, Table.keys_insert, mem_pushNew, not_or]
      exact ⟨hk.2 y hy, fun he => hx (he ▸ hy)⟩

theorem explicitEntries_eq (hn : scope.exports.keys.Nodup) :
    (l.explicitEntries scope).1 = ⟨l.explicitRows scope.module scope⟩ := by
  rw [explicitEntries, foldl_addExplicit hn fun x _ hx => by simp [Table.keys] at hx]
  rfl

theorem keys_explicitRows (module : ModuleId) (scope : ModuleTables) :
    (⟨l.explicitRows module scope⟩ : Table String Resolution).keys = scope.exports.keys := by
  simp [Table.keys, explicitRows, Function.comp_def]

/-- What the star sources of a module pass on, by `surface`. -/
def offersFrom (surface : ModuleId → Surface × List Diagnostic) (stack : List ModuleId)
    (scope : ModuleTables) : List (String × Resolution) :=
  ((followed stack scope.starExports).flatMap fun t => (surface t).1.entries.rows).filter
    (passes scope.exports.keys)

/-- The entries that star sources add, by `surface`. -/
def starsFrom (policy : StarPolicy) (surface : ModuleId → Surface × List Diagnostic)
    (stack : List ModuleId) (scope : ModuleTables) : List StarEntry :=
  let candidates := (offersFrom surface stack scope).foldl offer {}
  starEntries policy candidates.keys scope.exports.keys candidates.rows

section
variable {surface : ModuleId → Surface × List Diagnostic}

theorem mem_offersFrom {name : String} {r : Resolution} :
    (name, r) ∈ offersFrom surface stack scope
      ↔ name ≠ "default" ∧ r ≠ .unresolved ∧ name ∉ scope.exports.keys
        ∧ ∃ t, .internal t ∈ scope.starExports ∧ t ∉ stack
            ∧ (name, r) ∈ (surface t).1.entries.rows := by
  simp only [offersFrom, passes, List.mem_filter, List.mem_flatMap, mem_followed,
    decide_eq_true_eq]
  constructor
  · rintro ⟨⟨t, ⟨ht, hs⟩, hr⟩, h1, h2, h3⟩
    exact ⟨h1, h2, h3, t, ht, hs, hr⟩
  · rintro ⟨h1, h2, h3, t, ht, hs, hr⟩
    exact ⟨⟨t, ⟨ht, hs⟩, hr⟩, h1, h2, h3⟩

theorem offersFrom_congr {surface' : ModuleId → Surface × List Diagnostic}
    (h : ∀ t, .internal t ∈ scope.starExports → t ∉ stack → surface t = surface' t) :
    offersFrom surface stack scope = offersFrom surface' stack scope := by
  have hrows : ∀ t ∈ followed stack scope.starExports,
      (surface t).1.entries.rows = (surface' t).1.entries.rows := by
    intro t ht
    obtain ⟨hm, hn⟩ := mem_followed.1 ht
    rw [h t hm hn]
  rw [offersFrom, offersFrom, List.flatMap_congr hrows]

theorem not_mem_exports_of_candidate {c : String × List Resolution}
    (h : c ∈ ((offersFrom surface stack scope).foldl offer {}).rows) :
    c.1 ∉ scope.exports.keys := by
  obtain ⟨r, hr⟩ := mem_keys_foldl_offer.1 (List.mem_map.2 ⟨c, h, rfl⟩)
  exact (mem_offersFrom.1 hr).2.2.1

theorem placed_starsFrom (policy : StarPolicy) :
    Placed ((offersFrom surface stack scope).foldl offer {}).keys scope.exports.keys
      (starsFrom policy surface stack scope) :=
  placed_starEntries (fun c hc => List.mem_map.2 ⟨c, hc, rfl⟩) nodup_keys_foldl_offer
    fun _ hc => not_mem_exports_of_candidate hc

theorem offers_starsFrom (policy : StarPolicy) :
    (starsFrom policy surface stack scope).map StarEntry.offer
      = ((offersFrom surface stack scope).foldl offer {}).rows.flatMap
          fun c => (inPolicyOrder policy c.2).map (c.1, ·) :=
  offers_starEntries _ _

theorem mem_offers_starsFrom {policy : StarPolicy} {name : String} {r : Resolution} :
    (name, r) ∈ (starsFrom policy surface stack scope).map StarEntry.offer
      ↔ (name, r) ∈ offersFrom surface stack scope := by
  rw [offers_starsFrom]
  simp only [List.mem_flatMap, List.mem_map, mem_inPolicyOrder, Prod.mk.injEq]
  constructor
  · rintro ⟨c, hc, r', hr, rfl, rfl⟩
    rw [snd_of_mem_foldl_offer hc] at hr
    exact mem_resolutionsUnder.1 hr
  · intro h
    exact ⟨_, mem_foldl_offer h, r, mem_resolutionsUnder.2 h, rfl, rfl⟩

theorem nodup_offers_starsFrom (policy : StarPolicy) :
    ((starsFrom policy surface stack scope).map StarEntry.offer).Nodup := by
  rw [offers_starsFrom, List.nodup_flatMap]
  constructor
  · intro c hc
    refine List.Nodup.map (fun _ _ h => (Prod.mk.inj h).2) ?_
    rw [snd_of_mem_foldl_offer hc]
    cases policy with
    | preferFirst => exact nodup_resolutionsUnder _ _
    | preferLast => exact List.nodup_reverse.2 (nodup_resolutionsUnder _ _)
  · refine (List.pairwise_map.1 nodup_keys_foldl_offer).imp ?_
    intro c c' hne p hp hp'
    obtain ⟨r, -, rfl⟩ := List.mem_map.1 hp
    obtain ⟨r', -, he⟩ := List.mem_map.1 hp'
    exact hne (Prod.mk.inj he).1.symm

/-- The policy's choice among what is provided under a name keeps it. -/
theorem winner_mem_starsFrom {policy : StarPolicy} {name : String} {winner : Resolution}
    (h : (inPolicyOrder policy (resolutionsUnder (offersFrom surface stack scope) name)).head?
      = some winner) : ⟨name, name, winner⟩ ∈ starsFrom policy surface stack scope := by
  have hm : winner ∈ resolutionsUnder (offersFrom surface stack scope) name :=
    mem_inPolicyOrder.1 (List.mem_of_head? h)
  have hc := mem_foldl_offer (mem_resolutionsUnder.1 hm)
  exact winner_mem_starEntries (c := (name, _)) h hc

theorem exists_kept {policy : StarPolicy} {e : StarEntry}
    (h : e ∈ starsFrom policy surface stack scope) :
    ∃ r, ⟨e.origin, e.origin, r⟩ ∈ starsFrom policy surface stack scope := by
  have ho := mem_offers_starsFrom.1 (List.mem_map.2 ⟨e, h, rfl⟩)
  have hm : e.resolution
      ∈ inPolicyOrder policy (resolutionsUnder (offersFrom surface stack scope) e.origin) :=
    mem_inPolicyOrder.2 (mem_resolutionsUnder.2 ho)
  cases hp : inPolicyOrder policy (resolutionsUnder (offersFrom surface stack scope) e.origin) with
  | nil => simp [hp] at hm
  | cons winner rest => exact ⟨winner, winner_mem_starsFrom (by rw [hp]; rfl)⟩

theorem name_of_mem_starsFrom {policy : StarPolicy} {e : StarEntry}
    (h : e ∈ starsFrom policy surface stack scope) : e.name ≠ "default" := by
  obtain ⟨before, after, hes⟩ := List.append_of_mem h
  have hp : Placed ((offersFrom surface stack scope).foldl offer {}).keys scope.exports.keys
      (starsFrom policy surface stack scope) := placed_starsFrom policy
  rw [hes] at hp
  by_cases he : e.name = e.origin
  · rw [he]
    exact (mem_offersFrom.1 (mem_offers_starsFrom.1 (List.mem_map.2 ⟨e, h, rfl⟩))).1
  · obtain ⟨n, hn, -⟩ := hp.firstFree he
    intro hd
    have hm := dollar_mem_suffixed e.origin n
    rw [← hn, hd] at hm
    exact absurd hm (by decide)

end

/-! ## Steps of the walk -/

theorem surfaceWithin_of_none (h : l.scope? module = none) (steps : Nat) (stack : List ModuleId) :
    l.surfaceWithin steps stack module = ({}, []) := by
  cases steps with
  | zero => rfl
  | succ steps => simp [surfaceWithin, h]

theorem surfaceWithin_succ (hs : l.scope? module = some scope) (hn : scope.exports.keys.Nodup)
    (steps : Nat) (stack : List ModuleId) :
    (l.surfaceWithin (steps + 1) stack module).1.entries = ⟨l.explicitRows scope.module scope
        ++ (starsFrom l.starPolicy (fun t => l.surfaceWithin steps (t :: stack) t) stack scope).map
            StarEntry.row⟩
      ∧ (l.surfaceWithin (steps + 1) stack module).2 = (l.explicitEntries scope).2
        ++ (followed stack scope.starExports).flatMap
            (fun t => (l.surfaceWithin steps (t :: stack) t).2)
        ++ ((starsFrom l.starPolicy (fun t => l.surfaceWithin steps (t :: stack) t) stack
            scope).filter StarEntry.isRenamed).map (StarEntry.warning scope.path) := by
  obtain ⟨hc, hd⟩ := foldl_addStar (fun t => l.surfaceWithin steps (t :: stack) t) stack
    (l.explicitEntries scope).1 scope.starExports ({}, (l.explicitEntries scope).2)
  have hk : (l.explicitEntries scope).1.keys = scope.exports.keys := by
    rw [explicitEntries_eq hn, keys_explicitRows]
  rw [hk] at hc
  simp only [surfaceWithin, hs, hc, hd]
  rw [foldl_addCandidates]
  · rw [hk, explicitEntries_eq hn]
    exact ⟨rfl, rfl⟩
  · exact fun c hc => List.mem_map.2 ⟨c, hc, rfl⟩
  · exact nodup_keys_foldl_offer
  · rw [hk]
    exact fun c hc => not_mem_exports_of_candidate hc

theorem surfaceWithin_congr {steps steps' : Nat} {stack' : List ModuleId}
    (hs : l.scope? module = some scope)
    (h : ∀ t, .internal t ∈ scope.starExports → (t ∈ stack ↔ t ∈ stack')
      ∧ (t ∉ stack →
        l.surfaceWithin steps (t :: stack) t = l.surfaceWithin steps' (t :: stack') t)) :
    l.surfaceWithin (steps + 1) stack module = l.surfaceWithin (steps' + 1) stack' module := by
  have hstars : ∀ acc, scope.starExports.foldl (addStar
        (fun t => l.surfaceWithin steps (t :: stack) t) stack (l.explicitEntries scope).1) acc
      = scope.starExports.foldl (addStar (fun t => l.surfaceWithin steps' (t :: stack') t) stack'
        (l.explicitEntries scope).1) acc := by
    intro acc
    refine List.foldl_ext _ _ acc fun acc p hp => ?_
    cases p with
    | external specifier => rfl
    | internal t =>
      obtain ⟨hmem, heq⟩ := h t hp
      simp only [addStar]
      by_cases ht : t ∈ stack
      · rw [if_pos ht, if_pos (hmem.1 ht)]
      · rw [if_neg ht, if_neg fun ht' => ht (hmem.2 ht'), heq ht]
  simp only [surfaceWithin, hs, hstars]

/-! ## Whole walks -/

variable {store : Store} {options : Options} {start : ModuleId}

theorem lt_size_of_scope (h : l.scope? module = some scope) : module < l.size :=
  (List.getElem?_eq_some_iff.1 h).1

theorem Walk.nodup (h : l.Walk start stack module) : stack.Nodup := by
  induction h with
  | start => exact List.nodup_singleton _
  | enter _ _ _ hn ih => exact List.nodup_cons.2 ⟨hn, ih⟩

theorem Walk.lt_size (h : (store.linker options).Walk start stack module) :
    ∀ m ∈ stack, m = module ∨ m < (store.linker options).size := by
  induction h with
  | start => exact fun m hm => .inl (List.mem_singleton.1 hm)
  | enter _ hs ht _ ih =>
    intro m hm
    rcases List.mem_cons.1 hm with rfl | hm
    · exact .inl rfl
    · rcases ih m hm with rfl | hlt
      · exact .inr (lt_size_of_scope hs)
      · exact .inr hlt

/-- A walk is inside of no more modules than there are. -/
theorem Walk.length_le (h : (store.linker options).Walk start stack module)
    (hs : (store.linker options).scope? module = some scope) :
    stack.length ≤ (store.linker options).size := by
  have hsub : stack ⊆ List.range (store.linker options).size := by
    intro m hm
    rw [List.mem_range]
    rcases h.lt_size m hm with rfl | hlt
    · exact lt_size_of_scope hs
    · exact hlt
  simpa using (h.nodup.subperm hsub).length_le

/-- More steps than there are modules to go into change nothing. No steps are left only where the
stack holds more modules than there are. -/
theorem surfaceWithin_eq : ∀ {steps steps' : Nat} {stack : List ModuleId} {module : ModuleId},
    (store.linker options).Walk start stack module →
      (store.linker options).size < steps + stack.length →
        (store.linker options).size < steps' + stack.length →
          (store.linker options).surfaceWithin steps stack module
            = (store.linker options).surfaceWithin steps' stack module := by
  intro steps
  induction steps with
  | zero =>
    intro steps' stack module hw hlt _
    rcases hs : (store.linker options).scope? module with _ | scope
    · rw [surfaceWithin_of_none hs, surfaceWithin_of_none hs]
    · have := hw.length_le hs
      omega
  | succ steps ih =>
    intro steps' stack module hw hlt hlt'
    rcases hs : (store.linker options).scope? module with _ | scope
    · rw [surfaceWithin_of_none hs, surfaceWithin_of_none hs]
    · have := hw.length_le hs
      obtain ⟨k, rfl⟩ : ∃ k, steps' = k + 1 := ⟨steps' - 1, by omega⟩
      refine surfaceWithin_congr hs fun t ht => ⟨Iff.rfl, fun hn => ?_⟩
      exact ih (hw.enter hs ht hn) (by simp only [List.length_cons]; omega)
        (by simp only [List.length_cons]; omega)

theorem walkSurface_of_scope (hw : (store.linker options).Walk start stack module)
    (hs : (store.linker options).scope? module = some scope) :
    ((store.linker options).walkSurface stack module).1.entries
        = ⟨(store.linker options).explicitRows module scope
          ++ (starsFrom options.starPolicy
              (fun t => (store.linker options).walkSurface (t :: stack) t) stack scope).map
                StarEntry.row⟩
      ∧ ((store.linker options).walkSurface stack module).2
        = ((store.linker options).explicitEntries scope).2
          ++ (followed stack scope.starExports).flatMap
              (fun t => ((store.linker options).walkSurface (t :: stack) t).2)
          ++ ((starsFrom options.starPolicy
              (fun t => (store.linker options).walkSurface (t :: stack) t) stack scope).filter
                StarEntry.isRenamed).map (StarEntry.warning scope.path) := by
  have hlen := hw.length_le hs
  have hinner : ∀ t, (store.linker options).walkSurface (t :: stack) t
      = (store.linker options).surfaceWithin ((store.linker options).size - stack.length)
          (t :: stack) t := by
    intro t
    simp [walkSurface]
  have hsteps : (store.linker options).size + 1 - stack.length
      = (store.linker options).size - stack.length + 1 := by omega
  simp only [hinner]
  rw [walkSurface, hsteps]
  have h := surfaceWithin_succ hs (Store.regular_scope options hs).exports
    ((store.linker options).size - stack.length) stack
  rwa [Store.module_scope options hs] at h

theorem lists_walkSurface (hw : (store.linker options).Walk start stack module)
    (hs : (store.linker options).scope? module = some scope) :
    ∃ es, (store.linker options).Lists stack module scope es
      ((store.linker options).walkSurface stack module).1
      ((store.linker options).walkSurface stack module).2 := by
  obtain ⟨hentries, hreports⟩ := walkSurface_of_scope hw hs
  have hplaced := @placed_starsFrom scope stack
    (fun t => (store.linker options).walkSurface (t :: stack) t) options.starPolicy
  have hkeys : ((store.linker options).walkSurface stack module).1.entries.keys
      = scope.exports.keys ++ (starsFrom options.starPolicy
          (fun t => (store.linker options).walkSurface (t :: stack) t) stack scope).map
            (·.name) := by
    rw [hentries]
    simp [Table.keys, explicitRows, StarEntry.row, Function.comp_def]
  refine ⟨_, ?_, ?_, ?_, nodup_offers_starsFrom _, ?_, ?_, hreports, ?_⟩
  · rw [hentries]
  · rw [hkeys]
    exact hplaced.nodup (Store.regular_scope options hs).exports
  · exact fun name r => mem_offers_starsFrom.trans mem_offersFrom
  · exact fun e he => exists_kept he
  · intro before e after hes he
    rw [hes] at hplaced
    refine (hplaced.firstFree he).congr fun x => ?_
    rw [List.mem_append, List.mem_append, mem_keys_foldl_offer, or_assoc]
    simp only [mem_offersFrom]
    rfl
  · intro hd
    rw [hkeys] at hd
    rcases List.mem_append.1 hd with hd | hd
    · exact hd
    · obtain ⟨e, he, hname⟩ := List.mem_map.1 hd
      exact absurd hname (name_of_mem_starsFrom he)

/-- A row of a module is an entry of its surface, under what it resolves to. -/
theorem row_mem_surface {name : String} (hs : (store.linker options).scope? module = some scope)
    (hn : name ∈ scope.exports.keys) :
    (name, ((store.linker options).resolveExport module name).1)
      ∈ ((store.linker options).surface module).1.entries.rows := by
  obtain ⟨es, hes⟩ := lists_walkSurface Walk.start hs
  have hrows : ((store.linker options).surface module).1.entries.rows = _ := hes.rows
  rw [hrows]
  exact List.mem_append_left _ (List.mem_map.2 ⟨name, hn, rfl⟩)

theorem nodup_keys_surface (store : Store) (options : Options) (module : ModuleId) :
    ((store.linker options).surface module).1.entries.keys.Nodup := by
  rcases hs : (store.linker options).scope? module with _ | scope
  · rw [surface, surfaceWithin_of_none hs]
    exact List.nodup_nil
  · obtain ⟨es, hes⟩ := lists_walkSurface Walk.start hs
    exact hes.distinct

/-- What a module of a closed set lists lies in the set. -/
theorem within_surfaceWithin {S : ModuleId → Prop} (hS : (store.linker options).Closed S) :
    ∀ {steps : Nat} {stack : List ModuleId} {module : ModuleId} {name : String} {r : Resolution},
      S module →
        (name, r) ∈ ((store.linker options).surfaceWithin steps stack module).1.entries.rows →
          r.Within (store.linker options) S
  | 0, _, _, _, _, _, h => by simp [surfaceWithin] at h
  | steps + 1, stack, module, name, r, hm, h => by
    rcases hs : (store.linker options).scope? module with _ | scope
    · simp [surfaceWithin, hs] at h
    · rw [(surfaceWithin_succ hs (Store.regular_scope options hs).exports steps stack).1,
        List.mem_append] at h
      rcases h with h | h
      · obtain ⟨x, -, he⟩ := List.mem_map.1 h
        cases he
        rw [Store.module_scope options hs]
        exact within_resolveExport hS hm name
      · obtain ⟨e, he, hrow⟩ := List.mem_map.1 h
        cases hrow
        obtain ⟨-, -, -, t, ht, -, hr⟩ :=
          mem_offersFrom.1 (mem_offers_starsFrom.1 (List.mem_map.2 ⟨e, he, rfl⟩))
        exact within_surfaceWithin hS
          (hS.dependency_scope hm hs ((hS.linked hs).stars ht)) hr

/-- At each module of a walk the surface lists the explicit rows and all that the star sources
provide, each once, and nothing else, under names that are all different; no number of steps changes
it. Where the walk starts, it is the surface of the module. -/
theorem surface_lists (store : Store) (options : Options) (start : ModuleId) :
    (store.linker options).walkSurface [start] start = (store.linker options).surface start
      ∧ ∀ stack module, (store.linker options).Walk start stack module →
        (∀ steps, (store.linker options).size < steps + stack.length →
          (store.linker options).surfaceWithin steps stack module
            = (store.linker options).walkSurface stack module)
        ∧ match (store.linker options).scope? module with
          | none => (store.linker options).walkSurface stack module = ({}, [])
          | some scope => ∃ es, (store.linker options).Lists stack module scope es
              ((store.linker options).walkSurface stack module).1
              ((store.linker options).walkSurface stack module).2 := by
  refine ⟨rfl, fun stack module hw => ⟨fun steps hlt => ?_, ?_⟩⟩
  · exact surfaceWithin_eq hw hlt (by omega)
  · split
    · rename_i hs
      exact surfaceWithin_of_none hs _ _
    · rename_i scope hs
      exact lists_walkSurface hw hs

/-- Two modules that pass on each other's exports, and a third that declares a name of the
second. -/
def circularStars : List DeclUnit :=
  [⟨"a.ts", [.exportAll "b.ts" none, .exportAll "c.ts" none]⟩,
    ⟨"b.ts", [.exportAll "a.ts" none,
      .declaration ⟨none, { exported := true }, none, .interface "T" [] [] []⟩]⟩,
    ⟨"c.ts", [.declaration ⟨none, { exported := true }, none, .interface "T" [] [] []⟩]⟩]

theorem surface_lists_circularStars : ∃ store scope, Store.ofUnits circularStars = .ok store
    ∧ (store.linker {}).scope? 1 = some scope
    ∧ (store.linker {}).Walk 0 [1, 0] 1
    ∧ (store.linker {}).surfaceWithin 9 [1, 0] 1 = (store.linker {}).walkSurface [1, 0] 1
    ∧ (∃ es, (store.linker {}).Lists [1, 0] 1 scope es ((store.linker {}).walkSurface [1, 0] 1).1
        ((store.linker {}).walkSurface [1, 0] 1).2)
    ∧ ((store.linker {}).surface 0).1.entries.rows
        = [("T", .declaration 0), ("T_$0", .declaration 1)] := by
  obtain ⟨store, scope, hstore, hscope, hw, hsize, hrows⟩ : ∃ store scope,
      Store.ofUnits circularStars = .ok store ∧ (store.linker {}).scope? 1 = some scope
        ∧ (store.linker {}).Walk 0 [1, 0] 1 ∧ (store.linker {}).size = 3
        ∧ ((store.linker {}).surface 0).1.entries.rows
          = [("T", .declaration 0), ("T_$0", .declaration 1)] :=
    ⟨_, _, rfl, rfl, .enter .start rfl List.mem_cons_self (by decide), rfl, by decide⟩
  obtain ⟨hsteps, hlists⟩ := (surface_lists store {} 0).2 [1, 0] 1 hw
  rw [hscope] at hlists
  exact ⟨store, scope, hstore, hscope, hw, hsteps 9 (by rw [hsize]; decide), hlists, hrows⟩

end Linker

end DeclBundle
